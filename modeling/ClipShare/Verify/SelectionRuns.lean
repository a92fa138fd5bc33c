import ClipShare.Verify.Stages
import ClipShare.Verify.TargetList
import Mathlib.Algebra.Order.BigOperators.Group.Finset
import Mathlib.Data.Fintype.BigOperators

namespace ClipShare

open Interaction X11
open Posix (Bytes ascii)

/-!
# Runs of the processes at a clipboard

* `Holds` — the invariant: where the owner stands, and a stage for each process that wants the
  clipboard;
* `Undisturbed` — the condition on a step: while the owner hands over chunks to one process it takes
  no event that belongs to another one;
* `Holds.step` — such a step keeps the invariant and lowers its rank;
* `selection_delivered` — every process gets the clipboard as it is;
* `selection_lone` — a process that is alone gets it, whatever the order of steps.
-/

namespace Scene

variable {ι : Type} {P : Scene ι} {strict : Bool} {s t : Clipboard ι Server} {st st' : Transfer}
  {out out' : List Request} {n : ι → Nat} {i : ι}

/-! ### The owner -/

/-- Where the owner stands: what it keeps, and the requests that it is about to issue. -/
inductive OwnerAt (P : Scene ι) : Process Requests Transfer Status → Transfer → List Request → Prop
  | taking (st : Transfer) (hst : ending st = .inl st) :
      OwnerAt P ⟨st, .call .nextEvent (P.handle st)⟩ st []
  | issuing (v st : Transfer) (c : Request) (cs : List Request) :
      OwnerAt P ⟨v, issue (c :: cs) (.ret (ending st))⟩ st (c :: cs)
  | gone (v st : Transfer) (hst : ending st = .inr .success) :
      OwnerAt P ⟨v, .ret (.inr .success)⟩ st []

/-- The owner after a request, or after it has taken an event. -/
theorem ownerAt_resume (v st : Transfer) (cs : List Request) :
    P.OwnerAt (Process.resume P.ownerRound v (issue cs (.ret (ending st)))) st cs := by
  cases cs with
  | cons c cs => exact .issuing v st c cs
  | nil =>
    have hend : ending st = .inl st ∨ ending st = .inr .success := by
      unfold ending
      split
      · exact .inr rfl
      · exact .inl rfl
    unfold issue
    rcases hend with hend | hend
    · rw [hend, Process.resume_next, ownerRound_eq]
      exact .taking st hend
    · rw [hend, Process.resume_result]
      exact .gone v st hend

/-- The event that the owner takes next. -/
def takes (P : Scene ι) (s : Clipboard ι Server) : Option XEvent :=
  match s.owner.rest with
  | .call .nextEvent _ => (s.server.queue P.ownerWin).head?
  | _ => none

/-- **The condition on a step.**  While chunks are handed over to one process, the owner does not
    take the deletion of a property of another one, and, if `strict`, no other request for the
    selection. -/
def Undisturbed (P : Scene ι) (strict : Bool) (s : Clipboard ι Server) : Party ι → Prop
  | .owner => ∀ e ∈ P.takes s, s.owner.vars.context = .incr → Spares strict s.owner.vars.win e
  | _ => True

instance {win : Window} {e : XEvent} : Decidable (Spares strict win e) :=
  match e with
  | .selectionRequest _ _ _ _ => Bool.decEq strict false
  | .propertyNotify w _ .deleted => Nat.decEq w win
  | .propertyNotify _ _ .newValue => .isTrue trivial
  | .selectionNotify _ _ _ _ => .isTrue trivial
  | .selectionClear _ => .isTrue trivial

instance {p : Party ι} : Decidable (P.Undisturbed strict s p) := by
  cases p <;> unfold Undisturbed <;> infer_instance

/-- The weaker of the two conditions. -/
theorem Undisturbed.mono {p : Party ι} (h : P.Undisturbed true s p) : P.Undisturbed false s p := by
  cases p with
  | owner =>
    intro e he hst
    have hspares := h e he hst
    cases e with
    | selectionRequest w sel t a => rfl
    | propertyNotify w a ps => cases ps <;> exact hspares
    | _ => trivial
  | _ => trivial

/-! ### The invariant -/

/-- **The invariant.** -/
structure Holds (P : Scene ι) (strict : Bool) (s : Clipboard ι Server) (st : Transfer)
    (out : List Request) (n : ι → Nat) : Prop where
  owner : P.OwnerAt s.owner st out
  sound : P.Sound s.server st.clear
  bound : P.Bound st out
  stage : ∀ i, P.Stage strict (s.server.owner xaClipboard = none) i (s.requestor i)
    (P.look s.server i) (P.outOf st out i) (P.posOf st i) (n i)

/-- A step that concerns one of the processes. -/
theorem Holds.move [DecidableEq ι] (h : P.Holds strict s st out n) {l : Look} {k : Nat}
    (howner : P.OwnerAt t.owner st' out') (hb : P.Bound st' out')
    (hm : P.Moves st'.clear i s.server t.server l)
    (hreq : ∀ j, j ≠ i → t.requestor j = s.requestor j)
    (hothers : ∀ j, j ≠ i → P.outOf st' out' j = P.outOf st out j ∧ P.posOf st' j = P.posOf st j)
    (hstage : P.Stage strict (s.server.owner xaClipboard = none) i (t.requestor i) l
      (P.outOf st' out' i) (P.posOf st' i) k) :
    P.Holds strict t st' out' (Function.update n i k) where
  owner := howner
  sound := hm.sound
  bound := hb
  stage j := by
    rw [hm.owner]
    by_cases hj : j = i
    · subst hj
      rw [Function.update_self, hm.self]
      exact hstage
    · rw [Function.update_of_ne hj, hm.others j hj, hreq j hj, (hothers j hj).1, (hothers j hj).2]
      exact h.stage j

/-- The owner takes an event about one of the processes. -/
theorem take_owner {sv : Server} {clear : Bool} (hs : P.Sound sv clear) {e : XEvent}
    {q : List XEvent} (hq : sv.queue P.ownerWin = e :: q) (he : window e = some (P.win i)) :
    ∃ asks, (P.look sv i).asks = e :: asks ∧
      P.Moves clear i sv (sv.took P.ownerWin q) { P.look sv i with asks := asks } := by
  have hclear : (clear || decide (IsClear e)) = clear := by
    cases e with
    | selectionClear => cases he
    | _ => exact Bool.or_false clear
  have hsound := sound_owner hs hq
  rw [hclear] at hsound
  refine ⟨_, (look_owner hq).trans (if_pos (about_eq_true.mpr he)), look_owner_eq q, ?_, hsound,
    rfl⟩
  intro j hj
  have hasks := look_owner (j := j) hq
  rw [if_neg (by rw [about_ne he hj]; nofun)] at hasks
  rw [look_owner_eq, ← hasks]

/-- What is left of the steps that concern the selection itself. -/
def clearRank (P : Scene ι) (s : Clipboard ι Server) (st : Transfer) : Nat :=
  if s.server.owner xaClipboard = some P.ownerWin then 2 else if st.clear then 0 else 1

section Steps

variable [Fintype ι]

/-- The invariant holds, and this bounds the number of the steps that are left. -/
def HoldsFor (P : Scene ι) (strict : Bool) (s : Clipboard ι Server) (N : Nat) : Prop :=
  ∃ st out n, P.Holds strict s st out n ∧ ∑ i, n i + P.clearRank s st = N

variable [DecidableEq ι]

theorem sum_update_lt {k : Nat} (hk : k < n i) : ∑ j, Function.update n i k j < ∑ j, n j := by
  refine Finset.sum_lt_sum (fun j _ => ?_) ⟨i, Finset.mem_univ i, ?_⟩
  · by_cases hj : j = i
    · subst hj
      rw [Function.update_self]
      exact hk.le
    · rw [Function.update_of_ne hj]
  · rw [Function.update_self]
    exact hk

/-- A step that brings the transfer to one of the processes forward. -/
theorem Holds.lower (h : P.Holds strict s st out n) {l : Look} {k : Nat} (hk : k < n i)
    (howner : P.OwnerAt t.owner st' out') (hb : P.Bound st' out') (hclear : st'.clear = st.clear)
    (hm : P.Moves st'.clear i s.server t.server l)
    (hreq : ∀ j, j ≠ i → t.requestor j = s.requestor j)
    (hothers : ∀ j, j ≠ i → P.outOf st' out' j = P.outOf st out j ∧ P.posOf st' j = P.posOf st j)
    (hstage : P.Stage strict (s.server.owner xaClipboard = none) i (t.requestor i) l
      (P.outOf st' out' i) (P.posOf st' i) k) :
    ∃ N, N < ∑ j, n j + P.clearRank s st ∧ P.HoldsFor strict t N := by
  have hsum := sum_update_lt hk
  have hrank : P.clearRank t st' = P.clearRank s st := by
    unfold clearRank
    rw [hm.owner, hclear]
  refine ⟨_, ?_, st', out', Function.update n i k, h.move howner hb hm hreq hothers hstage, rfl⟩
  rw [hrank]
  omega

/-- A step of a process that wants the clipboard. -/
theorem Holds.lower_requestor (hP : P.Sane) (h : P.Holds strict s st out n)
    (hstep : P.step .plain (.requestor i) s = some t) :
    ∃ N, N < ∑ j, n j + P.clearRank s st ∧ P.HoldsFor strict t N := by
  obtain ⟨⟨p', sv'⟩, hadv, rfl⟩ := Option.map_eq_some_iff.mp hstep
  obtain ⟨l, k, hk, hm, hstage⟩ := (h.stage i).requestor hP rfl h.sound hadv
  refine h.lower hk h.owner h.bound rfl hm (fun j hj => Function.update_of_ne hj _ _)
    (fun _ _ => ⟨rfl, rfl⟩) ?_
  simp only [Function.update_self]
  exact hstage

/-- Another client takes the clipboard away. -/
theorem Holds.lower_other (h : P.Holds strict s st out n)
    (hstep : P.step .plain .other s = some t) :
    ∃ N, N < ∑ j, n j + P.clearRank s st ∧ P.HoldsFor strict t N := by
  by_cases howner : s.server.owner xaClipboard = some P.ownerWin
  · rw [step_other (X := .plain) howner] at hstep
    obtain rfl := Option.some.inj hstep
    have hown : s.server.own xaClipboard none = s.server.clear xaClipboard P.ownerWin :=
      own_none howner
    refine ⟨_, ?_, st, out, n, ⟨h.owner, ?_, h.bound, fun i => ?_⟩, rfl⟩
    · have hclear := (h.sound.kept howner).1
      unfold clearRank
      simp [hown, clear_owner, howner, hclear]
    · show P.Sound (s.server.own xaClipboard none) st.clear
      rw [hown]
      exact sound_clear h.sound howner
    · show P.Stage strict _ i _ (P.look (s.server.own xaClipboard none) i) _ _ _
      rw [hown, look_clear]
      exact (h.stage i).mono fun _ => clear_owner
  · rw [step_other_none (X := .plain) howner] at hstep
    cases hstep

/-- The owner issues a request. -/
theorem Holds.lower_issuing (h : P.Holds strict s st out n) {c : Request} {cs : List Request}
    (hout : out = c :: cs) {r : Requests.Resp c} {sv' : Server}
    (hserve : serve P.ownerWin c s.server = some (r, sv')) (howner : P.OwnerAt t.owner st cs)
    (hsv : t.server = sv') (hreq : t.requestor = s.requestor) :
    ∃ N, N < ∑ j, n j + P.clearRank s st ∧ P.HoldsFor strict t N := by
  subst hout
  obtain ⟨i, hw⟩ := h.bound.win (.inl (List.cons_ne_nil _ cs))
  have hstage := h.stage i
  rw [outOf_self hw] at hstage
  obtain ⟨r', sv'', l, k, hserve', hk, hm, hstage'⟩ := hstage.issued rfl h.sound
  rw [hserve] at hserve'
  obtain ⟨rfl, rfl⟩ := Prod.mk.inj (Option.some.inj hserve')
  rw [← hsv] at hm
  refine h.lower hk howner ⟨fun _ => ⟨i, hw⟩, h.bound.pty⟩ rfl hm (fun j _ => congrFun hreq j)
    (fun j hj => ⟨(outOf_ne hw hj cs).trans (outOf_ne hw hj _).symm, rfl⟩) ?_
  rw [outOf_self hw, hreq]
  exact hstage'

omit [DecidableEq ι] in
/-- The owner takes the event that it has lost the selection. -/
theorem Holds.lower_lost (h : P.Holds strict s st [] n) {q : List XEvent}
    (hq : s.server.queue P.ownerWin = .selectionClear xaClipboard :: q)
    (howner : P.OwnerAt t.owner { st with clear := true } [])
    (hsv : t.server = s.server.took P.ownerWin q) (hreq : t.requestor = s.requestor) :
    ∃ N, N < ∑ j, n j + P.clearRank s st ∧ P.HoldsFor strict t N := by
  have hordered := h.sound.ordered
  rw [hq] at hordered
  have hclear : st.clear = false := hordered.1 (.inr trivial)
  have hlost : s.server.owner xaClipboard ≠ some P.ownerWin := by
    intro howner
    exact (h.sound.kept howner).2 (hq ▸ List.mem_cons_self)
  have hsound := sound_owner h.sound hq
  rw [show (st.clear || decide (IsClear (.selectionClear xaClipboard))) = true from
    Bool.or_true _] at hsound
  refine ⟨_, ?_, { st with clear := true }, [], n,
    ⟨howner, by rw [hsv]; exact hsound, ⟨h.bound.win, h.bound.pty⟩, fun i => ?_⟩, rfl⟩
  · have hlost' : t.server.owner xaClipboard ≠ some P.ownerWin := by
      rw [hsv]
      exact hlost
    unfold clearRank
    simp [hlost, hlost', hclear]
  · have hasks := look_owner (P := P) (j := i) hq
    rw [if_neg (by unfold about window; simp)] at hasks
    rw [hsv, hreq, look_owner_eq, ← hasks]
    exact h.stage i

/-- The owner takes an event about one of the processes. -/
theorem Holds.lower_take (hP : P.Sane) (h : P.Holds strict s st [] n) {e : XEvent}
    {q : List XEvent} (hq : s.server.queue P.ownerWin = e :: q) (he : window e = some (P.win i))
    (hspares : st.context = .incr → Spares strict st.win e)
    (howner : t.owner = Process.resume P.ownerRound st (P.handle st e))
    (hsv : t.server = s.server.took P.ownerWin q) (hreq : t.requestor = s.requestor) :
    ∃ N, N < ∑ j, n j + P.clearRank s st ∧ P.HoldsFor strict t N := by
  obtain ⟨asks, hasks, hm⟩ := take_owner h.sound hq he
  have hstage := h.stage i
  rw [outOf_nil] at hstage
  obtain ⟨st', out', k, hhandle, hk, hserves, hstage'⟩ := hstage.take hP hasks h.bound hspares
  rw [← hsv, ← hserves.clear] at hm
  refine h.lower hk ?_ hserves.bound hserves.clear hm (fun j _ => congrFun hreq j)
    (fun j hj => ⟨(hserves.others j hj).1.trans (outOf_nil st).symm,
      (hserves.others j hj).2⟩) ?_
  · rw [howner, hhandle]
    exact ownerAt_resume st st' out'
  · rw [hreq]
    exact hstage'

/-- A step of the owner. -/
theorem Holds.lower_owner (hP : P.Sane) (h : P.Holds strict s st out n)
    (hC : P.Undisturbed strict s .owner) (hstep : P.step .plain .owner s = some t) :
    ∃ N, N < ∑ j, n j + P.clearRank s st ∧ P.HoldsFor strict t N := by
  obtain ⟨⟨p', sv'⟩, hadv, rfl⟩ := Option.map_eq_some_iff.mp hstep
  obtain ⟨c, k, r, hrest, hserve, rfl⟩ := Process.advance_eq_some hadv
  have howner := h.owner
  generalize ho : s.owner = o at howner hrest
  cases howner with
  | gone v st hst => cases hrest
  | issuing v st c' cs =>
    cases hrest
    exact h.lower_issuing rfl hserve (ownerAt_resume _ st cs) rfl rfl
  | taking st hst =>
    cases hrest
    cases hq : s.server.queue P.ownerWin with
    | nil =>
      -- without an event it has to wait
      exact absurd (hserve.symm.trans (serve_nextEvent_nil hq)) nofun
    | cons e q =>
      have htook := hserve.symm.trans (serve_nextEvent hq)
      obtain ⟨rfl, rfl⟩ := Prod.mk.inj (Option.some.inj htook)
      rcases h.sound.known r (hq ▸ List.mem_cons_self) with rfl | ⟨i, hi⟩
      · refine h.lower_lost hq ?_ rfl rfl
        rw [handle_clear]
        exact ownerAt_resume st { st with clear := true } []
      · refine h.lower_take hP hq hi ?_ rfl rfl rfl
        -- the condition is about the event that the owner takes in this step
        have htakes : P.takes s = some r := by
          unfold takes
          rw [ho, hq]
          rfl
        have := hC r (by rw [htakes]; exact rfl)
        rw [ho] at this
        exact this

/-- **One step** keeps the invariant, and lowers the bound. -/
theorem Holds.step (hP : P.Sane) (h : P.Holds strict s st out n) {p : Party ι}
    (hC : P.Undisturbed strict s p) (hstep : P.step .plain p s = some t) :
    ∃ N, N < ∑ i, n i + P.clearRank s st ∧ P.HoldsFor strict t N := by
  cases p with
  | owner => exact h.lower_owner hP hC hstep
  | requestor i => exact h.lower_requestor hP hstep
  | other => exact h.lower_other hstep

/-! ### The end of a run -/

omit [Fintype ι] in
/-- The owner can take a step if it has something to issue, or if there is an event and it has not
    ended. -/
theorem Holds.owner_steps (h : P.Holds strict s st out n)
    (hst : out ≠ [] ∨ s.server.queue P.ownerWin ≠ [] ∧ (st.context = .incr ∨ st.clear = false)) :
    P.step .plain .owner s ≠ none := by
  intro hnone
  have hadv := Option.map_eq_none_iff.mp hnone
  have howner := h.owner
  generalize s.owner = o at howner hadv
  cases howner with
  | taking st hend =>
    obtain ⟨e, q, hq⟩ := List.exists_cons_of_ne_nil (hst.resolve_left (absurd rfl)).1
    have hserve := Option.map_eq_none_iff.mp hadv
    exact absurd (hserve.symm.trans (serve_nextEvent hq)) nofun
  | issuing v st c cs =>
    obtain ⟨i, hw⟩ := h.bound.win (.inl (List.cons_ne_nil c cs))
    have hstage := h.stage i
    rw [outOf_self hw] at hstage
    obtain ⟨r, sv, -, -, hserve, -⟩ := hstage.issued rfl h.sound
    have hserve' := Option.map_eq_none_iff.mp hadv
    exact absurd (hserve'.symm.trans hserve) nofun
  | gone v st hend =>
    have hclear : st.context = .none ∧ st.clear = true := by
      unfold ending at hend
      split at hend
      · assumption
      · cases hend
    rcases hst with hst | ⟨-, hst | hst⟩
    · exact hst rfl
    · exact nomatch hst.symm.trans hclear.1
    · exact nomatch hst.symm.trans hclear.2

omit [Fintype ι] in
/-- A process can take a step unless it waits for an event and there is none. -/
theorem requestor_steps {v : Retrieval} {c : Request}
    {k : Requests.Resp c → XProg (Retrieval ⊕ Output)}
    (hp : s.requestor i = ⟨v, .call c k⟩) (hq : c = .nextEvent → (P.look s.server i).queue ≠ []) :
    P.step .plain (.requestor i) s ≠ none := by
  intro hnone
  have hadv := Option.map_eq_none_iff.mp hnone
  rw [hp, Process.advance_call] at hadv
  exact serve_ne_none hq (Option.map_eq_none_iff.mp hadv)

/-- The process has ended, with the clipboard or because it was refused. -/
def Ended (P : Scene ι) (s : Clipboard ι Server) (i : ι) : Prop :=
  (s.requestor i).rest = Sum.inr <$> P.outcome i ∨
    (s.requestor i).rest = .ret (.inr .failed) ∧ s.server.owner xaClipboard = none

omit [Fintype ι] in
/-- **Nobody waits for ever.** -/
theorem Holds.ended (h : P.Holds true s st out n) (hstuck : Stuck (P.step .plain) s) (i : ι) :
    P.Ended s i := by
  have hreq : ∀ {v c k}, s.requestor i = ⟨v, .call c k⟩ →
      (c = .nextEvent → (P.look s.server i).queue ≠ []) → P.Ended s i :=
    fun hp hq => absurd (hstuck (.requestor i)) (requestor_steps hp hq)
  have hown : out ≠ [] ∨ (P.look s.server i).asks ≠ [] ∧ (st.context = .incr ∨ st.clear = false) →
      P.Ended s i := by
    intro hst
    refine absurd (hstuck .owner) (h.owner_steps (hst.imp_right fun hst => ⟨fun hq => ?_, hst.2⟩))
    refine hst.1 ?_
    unfold look
    rw [hq]
    rfl
  have hout : P.outOf st out i ≠ [] → P.Ended s i := by
    intro ho
    refine hown (.inl fun hnil => ho ?_)
    rw [hnil, outOf_nil]
  have hstage := h.stage i
  generalize hp : s.requestor i = p at hstage
  generalize hl : P.look s.server i = l at hstage hreq hown
  generalize hou : P.outOf st out i = o at hstage hout
  generalize hpos : P.posOf st i = pos at hstage
  generalize n i = k at hstage
  cases hstage with
  | opening => exact hreq hp nofun
  | asking t ht =>
    rw [requestorRound_ask (v := .asking t) rfl rfl] at hp
    exact hreq hp nofun
  | refused t ht hlost => exact hreq hp nofun
  | asked t ht =>
    refine hown (.inr ⟨nofun, .inr ?_⟩)
    by_contra hclear
    have hordered := h.sound.ordered
    rw [Bool.not_eq_false] at hclear
    rw [hclear] at hordered
    have hmem : P.request i t ∈ s.server.queue P.ownerWin := by
      have hasks : P.request i t ∈ (P.look s.server i).asks := by
        rw [hl]
        exact List.mem_singleton.mpr rfl
      exact List.mem_of_mem_filter hasks
    exact hordered.no_request _ hmem trivial
  | serving t ht => exact hout nofun
  | selecting t ht hc b => exact hout nofun
  | notifying t ht b => exact hout nofun
  | notified t ht b => exact hreq hp fun _ => List.append_ne_nil_of_right_ne_nil _ nofun
  | sizing t ht => exact hreq hp nofun
  | starting t ht hc => exact hreq hp nofun
  | reading t ht hc => exact hreq hp nofun
  | closing t ht hc => exact hreq hp nofun
  | awaiting t ht hc type pos a b =>
    exact hown (.inr ⟨List.append_ne_nil_of_right_ne_nil _ nofun, .inl (posOf_some hpos).1⟩)
  | sending t ht hc type pos b => exact hout nofun
  | sent t ht hc type pos a b =>
    exact hreq hp fun _ => List.append_ne_nil_of_right_ne_nil _ nofun
  | chunkSizing t ht hc type pos a => exact hreq hp nofun
  | ending t ht hc type pos hend a => exact hreq hp nofun
  | chunkReading t ht hc type pos hpos a => exact hreq hp nofun
  | chunkTaking t ht hc type type' pos hpos a => exact hreq hp nofun
  | done hdone queue asks hasks w =>
    unfold Ended
    rw [hp]
    exact hdone
  | ignored t ht hs => cases hs

omit [DecidableEq ι] [Fintype ι] in
/-- A process that has a result has ended. -/
theorem Holds.returned (h : P.Holds strict s st out n) {r : Option (Nat × Buffer)}
    (hr : P.returned s i = some r) : P.Ended s i := by
  have hcall : ∀ {v c k}, s.requestor i = ⟨v, .call c k⟩ → P.Ended s i := by
    intro v c k hp
    unfold Scene.returned Process.result at hr
    rw [hp] at hr
    cases hr
  have hstage := h.stage i
  generalize hp : s.requestor i = p at hstage
  generalize P.look s.server i = l at hstage
  generalize P.outOf st out i = o at hstage
  generalize P.posOf st i = pos at hstage
  generalize n i = k at hstage
  cases hstage with
  | asking t ht =>
    rw [requestorRound_ask (v := .asking t) rfl rfl] at hp
    exact hcall hp
  | done hdone queue asks hasks w =>
    unfold Ended
    rw [hp]
    exact hdone
  | _ => exact hcall hp

end Steps

/-! ### What is delivered -/

/-- **What a process gets** from `xclip_util`: the list of targets, or the text, if it looks like
    what was asked for. -/
def delivered (P : Scene ι) (i : ι) : Option (Nat × Buffer) :=
  if P.name i = some xaTargets then
    (doOutTargets P.junk [xaTargets, P.target]).bind fun r =>
      xclipUtilResult (P.name i) ⟨.success, r.1, some (.names r.2)⟩
  else if 0 < P.text.length ∧ P.text.length < 0x7FFFFFFF ∧ magicOf (P.name i) <+: P.text then
    some (P.text.length, .copy (P.text.map .char))
  else none

theorem startsWith_text (magic txt : Bytes) :
    (Buffer.copy (txt.map .char)).startsWith magic = true ↔ magic <+: txt := by
  have hinj : Function.Injective Item.char := fun _ _ h => Item.char.inj h
  unfold Buffer.startsWith
  rw [List.isPrefixOf_iff_prefix, List.prefix_map_iff_of_injective hinj]

/-- The checks of `xclip_util` on a text. -/
theorem xclipUtilResult_copy (name : Option Bytes) (txt : Bytes) (hlen : txt.length < 0x7FFFFFFF) :
    xclipUtilResult name ⟨.success, txt.length, some (.copy (txt.map .char))⟩
      = if magicOf name <+: txt then some (txt.length, .copy (txt.map .char)) else none := by
  unfold xclipUtilResult
  simp only
  rw [if_neg (by omega)]
  by_cases hmagic : magicOf name <+: txt
  · have hle := hmagic.length_le
    rw [if_pos hmagic, (startsWith_text _ _).mpr hmagic, if_neg (by simpa using hle)]
  · have hno : (Buffer.copy (txt.map .char)).startsWith (magicOf name) = false :=
      Bool.eq_false_iff.mpr fun h => hmagic ((startsWith_text _ _).mp h)
    rw [if_neg hmagic, hno, if_pos (.inr rfl)]

theorem Ended.returned (hP : P.Sane) (h : P.Ended s i) :
    P.returned s i = some (P.delivered i) ∨
      P.returned s i = some none ∧ s.server.owner xaClipboard = none := by
  rcases h with h | ⟨h, hlost⟩
  · left
    unfold Scene.returned Process.result
    rw [h]
    unfold outcome delivered
    by_cases hname : P.name i = some xaTargets
    · rw [if_pos hname, if_pos hname]
      have hnul : ∀ name ∈ [xaTargets, P.target], (0 : UInt8) ∉ name := by
        intro name hmem
        rcases List.mem_pair.mp hmem with rfl | rfl
        · decide
        · exact hP.nul
      obtain ⟨rest, hlist⟩ := doOutTargets_eq P.junk hnul
      unfold doOutNames
      rw [show atomsOf (P.answer xaTargets).value.items = [xaTargets, P.target] from rfl, hlist]
      rfl
    · rw [if_neg hname, if_neg hname]
      unfold doOutEnd
      rw [machSize_char]
      by_cases hlen : 0 < P.text.length ∧ P.text.length < 0x7FFFFFFF
      · rw [if_pos hlen, show xcmalloc P.cfg (P.text.length + 1) = .ret () from
          checkSize_eq hP (Nat.succ_pos _) le_rfl]
        show some (xclipUtilResult _ ⟨.success, P.text.length, some (.copy (P.text.map .char))⟩) = _
        rw [xclipUtilResult_copy _ _ hlen.2]
        simp only [hlen, true_and]
      · rw [if_neg hlen, if_neg fun h => hlen ⟨h.1, h.2.1⟩]
        rfl
  · right
    unfold Scene.returned Process.result
    rw [h]
    exact ⟨rfl, hlost⟩

/-- What a process has got, or that it was refused because the owner has lost the clipboard. -/
def GotOrRefused (P : Scene ι) (t : Clipboard ι Server) (i : ι) (r : Option (Nat × Buffer)) :
    Prop :=
  r = P.delivered i ∨ r = none ∧ t.server.owner xaClipboard = none

theorem Ended.gotOrRefused (hP : P.Sane) (h : P.Ended t i) :
    ∃ r, P.returned t i = some r ∧ P.GotOrRefused t i r := by
  rcases Ended.returned hP h with hr | ⟨hr, hlost⟩
  · exact ⟨_, hr, .inl rfl⟩
  · exact ⟨_, hr, .inr ⟨rfl, hlost⟩⟩

theorem Holds.gotOrRefused (hP : P.Sane) (h : P.Holds strict t st out n)
    {r : Option (Nat × Buffer)} (hr : P.returned t i = some r) : P.GotOrRefused t i r := by
  obtain ⟨r', hr', hgot⟩ := Ended.gotOrRefused hP (h.returned hr)
  rw [hr] at hr'
  cases hr'
  exact hgot

/-! ### The first state -/

/-- The first two steps of the owner. -/
theorem Opened.eq [DecidableEq ι] (h : P.Opened .plain s) :
    ∃ sv, P.Fresh sv ∧
      s = ⟨(sv.watch P.ownerWin P.ownerWin).own xaClipboard (some P.ownerWin),
        ⟨.init, P.ownerRound .init⟩, (P.start sv).requestor⟩ := by
  obtain ⟨sv, hfresh, hrun⟩ := h
  refine ⟨sv, hfresh, ?_⟩
  cases hrun with
  | cons _ hselect hrun =>
    obtain rfl := Option.some.inj hselect
    cases hrun with
    | cons _ hown hrun =>
      obtain rfl := Option.some.inj hown
      cases hrun
      rfl

/-- The invariant holds at first. -/
theorem Opened.holds [DecidableEq ι] (h : P.Opened .plain s) (strict : Bool) :
    P.Holds strict s .init [] fun _ => 10 * P.text.length + 41 := by
  obtain ⟨sv, hfresh, rfl⟩ := h.eq
  have hwatch : ∀ i c, (sv.watch P.ownerWin P.ownerWin).watching c (P.win i) = false := by
    intro i c
    unfold Server.watch
    by_cases hc : c = P.ownerWin
    · subst hc
      simp only [Function.update_self, Function.update_of_ne (P.win_ne i)]
      exact hfresh.watching i _
    · simp only [Function.update_of_ne hc]
      exact hfresh.watching i c
  have hqueue : ((sv.watch P.ownerWin P.ownerWin).own xaClipboard (some P.ownerWin)).queue
      P.ownerWin = [] := (Server.own_queue fun _ => rfl).trans hfresh.ownerQueue
  constructor
  case owner =>
    rw [ownerRound_eq]
    exact .taking .init rfl
  case sound =>
    constructor
    case known =>
      rw [hqueue]
      exact nofun
    case ordered =>
      rw [hqueue]
      exact trivial
    case owned => exact .inl Server.own_owner
    case kept =>
      rw [hqueue]
      exact fun _ => ⟨rfl, nofun⟩
    case watch =>
      intro i c hw
      rw [Server.own_watching, hwatch] at hw
      cases hw
  case bound => exact ⟨nofun, nofun⟩
  case stage =>
    intro i
    have hlook : P.look ((sv.watch P.ownerWin P.ownerWin).own xaClipboard (some P.ownerWin)) i
        = ⟨none, [], [], false, false⟩ := by
      unfold look
      rw [Server.own_property, Server.own_watching, hwatch, hwatch, hqueue,
        Server.own_queue (s := sv.watch P.ownerWin P.ownerWin) fun hi => absurd hi (hfresh.owner i)]
      exact congrArg₂ (fun p q => Look.mk p q [] false false) (hfresh.property i) (hfresh.queue i)
    rw [hlook, outOf_nil, posOf_none rfl]
    exact .opening

/-! ### Runs -/

section Runs

variable [DecidableEq ι] [Fintype ι] {sched : List (Party ι)}

/-- **Runs** whose steps meet the condition: the invariant, and their length. -/
theorem run_holds (hP : P.Sane) (hopen : P.Opened .plain s)
    (hrun : Run (P.step .plain) (P.Undisturbed strict) s sched t) :
    sched.length ≤ Fintype.card ι * (10 * P.text.length + 41) + 2 ∧
      ∃ st out n, P.Holds strict t st out n := by
  have howner : s.server.owner xaClipboard = some P.ownerWin := by
    obtain ⟨sv, -, rfl⟩ := hopen.eq
    exact Server.own_owner
  have hstart : P.HoldsFor strict s (Fintype.card ι * (10 * P.text.length + 41) + 2) := by
    refine ⟨_, _, _, hopen.holds strict, ?_⟩
    rw [Finset.sum_const_nat fun _ _ => rfl, Finset.card_univ, clearRank, if_pos howner]
  obtain ⟨k, hk, st, out, n, h, -⟩ := hrun.ranked
    (fun s N p t hI hC hstep => by
      obtain ⟨st, out, n, h, rfl⟩ := hI
      exact h.step hP hC hstep) hstart
  exact ⟨by omega, st, out, n, h⟩

end Runs

end Scene

end ClipShare
