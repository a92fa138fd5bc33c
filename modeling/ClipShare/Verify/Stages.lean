import ClipShare.Verify.Selections

namespace ClipShare

open Interaction X11
open Posix (Bytes)

/-!
# The stages of a transfer

Where one process that wants the clipboard stands, together with what the owner is doing for it.
The two take turns: at every stage there is one event or one request that brings the transfer
forward.

* `Stage` — the stages, each with a bound for the number of steps that are left;
* `Stage.requestor` — a step of the process leads to a later stage;
* `Stage.issued`, `Stage.take` — so does a step of the owner for it.
-/

/-- The selection is about to be asked for. -/
def Retrieval.asking (target : Atom) : Retrieval := ⟨target, none, [], .none⟩

/-- The selection has been asked for. -/
def Retrieval.waiting (target : Atom) : Retrieval := ⟨target, none, [], .sentConvSel⟩

namespace Scene

variable {ι : Type} (P : Scene ι)

/-- A process asks for the target it wants, or for `STRING` after `UTF8_STRING`. -/
def Wants (i : ι) (t : Atom) : Prop :=
  t = targetOf (P.name i) ∨ (t = xaString ∧ targetOf (P.name i) = xaUtf8String)

/-- A process that has got the text up to a position. -/
def collecting (t : Atom) (type : Option Atom) (pos : Nat) : Retrieval :=
  ⟨t, type, (P.text.take pos).map .char, .incr⟩

/-- A process that waits for an event. -/
def listening (i : ι) (st : Retrieval) : Process Requests Retrieval Output :=
  ⟨st, .call .nextEvent (P.react i st)⟩

/-- What `doOut` makes of the clipboard. -/
def outcome (i : ι) : XProg Output :=
  if P.name i = some xaTargets then doOutNames P.junk (P.answer xaTargets).value.items
  else doOutEnd P.cfg (P.text.map .char)

/-- The event that answers a process. -/
def notify (i : ι) (t : Atom) (pty : Option Atom) : XEvent :=
  .selectionNotify (P.win i) xaClipboard t pty

/-- A bound for the steps of a process that is about to ask for a target. -/
def askRank (t : Atom) : Nat := 10 * P.text.length + if t = xaUtf8String then 40 else 30

/-- A position of the text, as a bound for the steps that are left. -/
def left (pos : Nat) : Nat := 10 * (P.text.length - pos)

/-- The position of a transfer after a request. -/
def begins (t : Atom) : Option Nat := if P.Chunked t then some 0 else none

/-- The position of a transfer after the chunk at `pos`. -/
def goesOn (pos : Nat) : Option Nat :=
  if P.text.length ≤ pos then none else some (pos + P.dpy.chunkSize)

/-- **The stages.**  What the process is about to do, what the X server knows about it, the requests
    that the owner is about to issue for it, and the position of the transfer.  Events that have
    become useless may still be there. -/
inductive Stage (strict : Bool) (lost : Prop) (i : ι) :
    Process Requests Retrieval Output → Look → List Request → Option Nat → Nat → Prop
  | opening :
      Stage strict lost i ⟨P.retrieval i,
        .call (.selectInput (P.win i)) fun _ => P.requestorRound i (P.retrieval i)⟩
        ⟨none, [], [], false, false⟩ [] none (10 * P.text.length + 41)
  | asking (t : Atom) (ht : P.Wants i t) :
      Stage strict lost i ⟨.asking t, P.requestorRound i (.asking t)⟩
        ⟨none, [], [], false, true⟩ [] none (P.askRank t)
  | refused (t : Atom) (ht : P.Wants i t) (hlost : lost) :
      Stage strict lost i (P.listening i (.waiting t))
        ⟨none, [P.notify i t none], [], false, true⟩ [] none (P.askRank t - 1)
  | asked (t : Atom) (ht : P.Wants i t) :
      Stage strict lost i (P.listening i (.waiting t))
        ⟨none, [], [P.request i t], false, true⟩ [] none (P.left 0 + 25)
  | serving (t : Atom) (ht : P.Wants i t) :
      Stage strict lost i (P.listening i (.waiting t)) ⟨none, [], [], false, true⟩
        (P.answering (P.win i) xaClipboard t xclipOutProperty) (P.begins t) (P.left 0 + 24)
  | selecting (t : Atom) (ht : P.Wants i t) (hc : P.Chunked t) (b : Bool) :
      Stage strict lost i (P.listening i (.waiting t))
        ⟨some (P.answer t), opt b (P.notice i .newValue), [], false, true⟩
        [.selectInput (P.win i), .sendEvent (P.win i) (P.notify i t (some xclipOutProperty))]
        (some 0) (P.left 0 + 21 + b.toNat)
  | notifying (t : Atom) (ht : P.Wants i t) (b : Bool) :
      Stage strict lost i (P.listening i (.waiting t))
        ⟨some (P.answer t), opt b (P.notice i .newValue), [], decide (P.Chunked t), true⟩
        [.sendEvent (P.win i) (P.notify i t (some xclipOutProperty))]
        (P.begins t) (P.left 0 + 19 + b.toNat)
  | notified (t : Atom) (ht : P.Wants i t) (b : Bool) :
      Stage strict lost i (P.listening i (.waiting t))
        ⟨some (P.answer t), opt b (P.notice i .newValue) ++ [P.notify i t (some xclipOutProperty)],
          [], decide (P.Chunked t), true⟩ [] (P.begins t) (P.left 0 + 17 + b.toNat)
  | sizing (t : Atom) (ht : P.Wants i t) :
      Stage strict lost i ⟨.waiting t,
        .call (.getWindowProperty (P.win i) xclipOutProperty 0) (P.gotSize i (.waiting t))⟩
        ⟨some (P.answer t), [], [], decide (P.Chunked t), true⟩ [] (P.begins t) (P.left 0 + 16)
  | starting (t : Atom) (ht : P.Wants i t) (hc : P.Chunked t) :
      Stage strict lost i ⟨.waiting t, .call (.deleteProperty (P.win i) xclipOutProperty) fun _ =>
          .ret (.inl (P.collecting t (some xaIncr) 0))⟩
        ⟨some (P.answer t), [], [], true, true⟩ [] (some 0) (P.left 0 + 15)
  | reading (t : Atom) (ht : P.Wants i t) (hc : ¬ P.Chunked t) :
      Stage strict lost i ⟨.waiting t,
        .call (.getWindowProperty (P.win i) xclipOutProperty (P.answer t).value.size)
          (P.gotWhole i (.waiting t))⟩ ⟨some (P.answer t), [], [], false, true⟩ [] none 3
  | closing (t : Atom) (ht : P.Wants i t) (hc : ¬ P.Chunked t) :
      Stage strict lost i ⟨.waiting t, .call (.deleteProperty (P.win i) xclipOutProperty) fun _ =>
          Sum.inr <$> P.outcome i⟩ ⟨some (P.answer t), [], [], false, true⟩ [] none 2
  | awaiting (t : Atom) (ht : P.Wants i t) (hc : P.Chunked t) (type : Option Atom) (pos : Nat)
      (a b : Bool) :
      Stage strict lost i (P.listening i (P.collecting t type pos))
        ⟨none, opt b (P.notice i .deleted), opt a (P.notice i .newValue) ++ [P.notice i .deleted],
          true, true⟩ [] (some pos) (P.left pos + 12 + a.toNat + b.toNat)
  | sending (t : Atom) (ht : P.Wants i t) (hc : P.Chunked t) (type : Option Atom) (pos : Nat)
      (b : Bool) :
      Stage strict lost i (P.listening i (P.collecting t type pos))
        ⟨none, opt b (P.notice i .deleted), [], true, true⟩
        [.changeProperty (P.win i) xclipOutProperty (P.chunk pos)] (P.goesOn pos)
        (P.left pos + 11 + b.toNat)
  | sent (t : Atom) (ht : P.Wants i t) (hc : P.Chunked t) (type : Option Atom) (pos : Nat)
      (a b : Bool) :
      Stage strict lost i (P.listening i (P.collecting t type pos))
        ⟨some (P.chunk pos), opt b (P.notice i .deleted) ++ [P.notice i .newValue],
          opt a (P.notice i .newValue), true, true⟩ [] (P.goesOn pos)
        (P.left pos + 8 + a.toNat + b.toNat)
  | chunkSizing (t : Atom) (ht : P.Wants i t) (hc : P.Chunked t) (type : Option Atom) (pos : Nat)
      (a : Bool) :
      Stage strict lost i ⟨P.collecting t type pos,
        .call (.getWindowProperty (P.win i) xclipOutProperty 0)
          (P.gotChunkSize i (P.collecting t type pos))⟩
        ⟨some (P.chunk pos), [], opt a (P.notice i .newValue), true, true⟩ [] (P.goesOn pos)
        (P.left pos + 7 + a.toNat)
  | ending (t : Atom) (ht : P.Wants i t) (hc : P.Chunked t) (type : Option Atom) (pos : Nat)
      (hend : P.text.length ≤ pos) (a : Bool) :
      Stage strict lost i ⟨P.collecting t type pos,
        .call (.deleteProperty (P.win i) xclipOutProperty) fun _ => Sum.inr <$> P.outcome i⟩
        ⟨some (P.chunk pos), [], opt a (P.notice i .newValue), true, true⟩ [] none (6 + a.toNat)
  | chunkReading (t : Atom) (ht : P.Wants i t) (hc : P.Chunked t) (type : Option Atom) (pos : Nat)
      (hpos : pos < P.text.length) (a : Bool) :
      Stage strict lost i ⟨P.collecting t type pos,
        .call (.getWindowProperty (P.win i) xclipOutProperty (P.chunk pos).value.size)
          (P.gotChunk i (P.collecting t type pos))⟩
        ⟨some (P.chunk pos), [], opt a (P.notice i .newValue), true, true⟩ []
        (some (pos + P.dpy.chunkSize)) (P.left pos + 6 + a.toNat)
  | chunkTaking (t : Atom) (ht : P.Wants i t) (hc : P.Chunked t) (type type' : Option Atom)
      (pos : Nat) (hpos : pos < P.text.length) (a : Bool) :
      Stage strict lost i ⟨P.collecting t type pos,
        .call (.deleteProperty (P.win i) xclipOutProperty) fun _ =>
          .ret (.inl (P.collecting t type' (pos + P.dpy.chunkSize)))⟩
        ⟨some (P.chunk pos), [], opt a (P.notice i .newValue), true, true⟩ []
        (some (pos + P.dpy.chunkSize)) (P.left pos + 5 + a.toNat)
  | done {p : Process Requests Retrieval Output}
      (hp : p.rest = Sum.inr <$> P.outcome i ∨ p.rest = .ret (.inr .failed) ∧ lost)
      (queue asks : List XEvent) (hasks : ∀ e ∈ asks, ∃ ps, e = P.notice i ps) (w : Bool) :
      Stage strict lost i p ⟨none, queue, asks, w, true⟩ [] none asks.length
  | ignored (t : Atom) (ht : P.Wants i t) (hstrict : strict = false) :
      Stage strict lost i (P.listening i (.waiting t)) ⟨none, [], [], false, true⟩ [] none 0

/-- A stage when the owner has lost the selection. -/
theorem Stage.mono {P : Scene ι} {i : ι} {strict : Bool} {lost lost' : Prop}
    {p : Process Requests Retrieval Output} {l : Look} {out : List Request} {pos : Option Nat}
    {n : Nat} (h : P.Stage strict lost i p l out pos n) (hlost : lost → lost') :
    P.Stage strict lost' i p l out pos n := by
  cases h with
  | refused t ht hl => exact .refused t ht (hlost hl)
  | done hp queue asks hasks w =>
    exact .done (hp.imp_right (And.imp_right hlost)) queue asks hasks w
  | opening => exact .opening
  | asking t ht => exact .asking t ht
  | asked t ht => exact .asked t ht
  | serving t ht => exact .serving t ht
  | selecting t ht hc b => exact .selecting t ht hc b
  | notifying t ht b => exact .notifying t ht b
  | notified t ht b => exact .notified t ht b
  | sizing t ht => exact .sizing t ht
  | starting t ht hc => exact .starting t ht hc
  | reading t ht hc => exact .reading t ht hc
  | closing t ht hc => exact .closing t ht hc
  | awaiting t ht hc type pos a b => exact .awaiting t ht hc type pos a b
  | sending t ht hc type pos b => exact .sending t ht hc type pos b
  | sent t ht hc type pos a b => exact .sent t ht hc type pos a b
  | chunkSizing t ht hc type pos a => exact .chunkSizing t ht hc type pos a
  | ending t ht hc type pos hend a => exact .ending t ht hc type pos hend a
  | chunkReading t ht hc type pos hpos a => exact .chunkReading t ht hc type pos hpos a
  | chunkTaking t ht hc type type' pos hpos a => exact .chunkTaking t ht hc type type' pos hpos a
  | ignored t ht hs => exact .ignored t ht hs

/-! ### Requests of a process -/

/-- A step that concerns one process only. -/
structure Moves (clear : Bool) (i : ι) (sv sv' : Server) (l : Look) : Prop where
  self : P.look sv' i = l
  others : ∀ j, j ≠ i → P.look sv' j = P.look sv j
  sound : P.Sound sv' clear
  owner : sv'.owner = sv.owner

variable {P} {i : ι} {sv sv' : Server} {clear : Bool} {v : Retrieval}
  {p p' : Process Requests Retrieval Output} {prop : Option Property} {queue asks : List XEvent}
  {w sel : Bool}

/-- A process takes an event. -/
theorem take_moves {k : XEvent → XProg (Retrieval ⊕ Output)} (hs : P.Sound sv clear)
    (hl : P.look sv i = ⟨prop, queue, asks, w, sel⟩)
    (h : (⟨v, .call .nextEvent k⟩ : Process Requests Retrieval Output).advance (serve (P.win i))
      (P.requestorRound i) sv = some (p', sv')) :
    ∃ e q, queue = e :: q ∧ p' = Process.resume (P.requestorRound i) v (k e) ∧
      P.Moves clear i sv sv' ⟨prop, q, asks, w, sel⟩ := by
  have hqueue : sv.queue (P.win i) = queue := congrArg Look.queue hl
  obtain ⟨⟨e, t⟩, ht, heq⟩ := Option.map_eq_some_iff.mp h
  cases heq
  cases hq : sv.queue (P.win i) with
  | nil =>
    rw [serve_nextEvent_nil hq] at ht
    cases ht
  | cons e' q =>
    rw [serve_nextEvent hq] at ht
    cases ht
    refine ⟨e, q, hqueue.symm.trans hq, rfl, ?_, fun j hj => look_take_ne hj _, sound_queue hs _,
      rfl⟩
    rw [look_take, hl]

/-- A process reads its property. -/
theorem get_moves {k : PropertyReply → XProg (Retrieval ⊕ Output)} {length : Nat}
    (hl : P.look sv i = ⟨prop, queue, asks, w, sel⟩)
    (h : (⟨v, .call (.getWindowProperty (P.win i) xclipOutProperty length) k⟩ :
      Process Requests Retrieval Output).advance (serve (P.win i)) (P.requestorRound i) sv
        = some (p', sv')) :
    p' = Process.resume (P.requestorRound i) v (k (PropertyReply.of length prop)) ∧ sv' = sv := by
  have hprop : sv.property (P.win i) xclipOutProperty = prop := congrArg Look.prop hl
  rw [← hprop]
  cases h
  exact ⟨rfl, rfl⟩

/-- A process deletes its property. -/
theorem delete_moves {k : Unit → XProg (Retrieval ⊕ Output)} {x : Property} (hs : P.Sound sv clear)
    (hl : P.look sv i = ⟨some x, queue, asks, w, true⟩)
    (h : (⟨v, .call (.deleteProperty (P.win i) xclipOutProperty) k⟩ :
      Process Requests Retrieval Output).advance (serve (P.win i)) (P.requestorRound i) sv
        = some (p', sv')) :
    p' = Process.resume (P.requestorRound i) v (k ()) ∧
      P.Moves clear i sv sv' ⟨none, queue ++ [P.notice i .deleted],
        asks ++ opt w (P.notice i .deleted), w, true⟩ := by
  have hprop : sv.property (P.win i) xclipOutProperty = some x := congrArg Look.prop hl
  obtain ⟨⟨e, t⟩, ht, heq⟩ := Option.map_eq_some_iff.mp h
  cases heq
  rw [serve_deleteProperty hprop] at ht
  cases ht
  refine ⟨rfl, ?_, fun j hj => look_change_ne hs hj _ _, sound_change hs _ _, rfl⟩
  rw [look_change, hl]
  rfl

/-- A process asks to be told about its property. -/
theorem select_moves {k : Unit → XProg (Retrieval ⊕ Output)} (hs : P.Sound sv clear)
    (hl : P.look sv i = ⟨prop, queue, asks, w, sel⟩)
    (h : (⟨v, .call (.selectInput (P.win i)) k⟩ :
      Process Requests Retrieval Output).advance (serve (P.win i)) (P.requestorRound i) sv
        = some (p', sv')) :
    p' = Process.resume (P.requestorRound i) v (k ()) ∧
      P.Moves clear i sv sv' ⟨prop, queue, asks, w, true⟩ := by
  cases h
  refine ⟨rfl, ?_, fun j hj => look_select_ne hj, sound_watch hs (.inl rfl), rfl⟩
  rw [look_select, hl]

/-- A process asks for the selection, and the owner is told about it if there is one. -/
theorem convert_moves {k : Unit → XProg (Retrieval ⊕ Output)} {t : Atom} (hs : P.Sound sv clear)
    (hl : P.look sv i = ⟨prop, queue, asks, w, sel⟩)
    (h : (⟨v, .call (.convertSelection xaClipboard t xclipOutProperty (P.win i)) k⟩ :
      Process Requests Retrieval Output).advance (serve (P.win i)) (P.requestorRound i) sv
        = some (p', sv')) :
    p' = Process.resume (P.requestorRound i) v (k ()) ∧
      (P.Moves clear i sv sv' ⟨prop, queue, asks ++ [P.request i t], w, sel⟩ ∨
        sv.owner xaClipboard = none ∧
          P.Moves clear i sv sv' ⟨prop, queue ++ [P.notify i t none], asks, w, sel⟩) := by
  obtain ⟨⟨e, t'⟩, ht, heq⟩ := Option.map_eq_some_iff.mp h
  cases heq
  rcases hs.owned with howner | howner
  · rw [serve_convertSelection howner] at ht
    cases ht
    refine ⟨rfl, .inl ⟨?_, fun j hj => look_request_ne hj t, sound_request hs howner t, rfl⟩⟩
    rw [show sv.post P.ownerWin (.selectionRequest (P.win i) xaClipboard t xclipOutProperty)
      = sv.post P.ownerWin (P.request i t) from rfl, look_request, hl]
  · rw [serve_convertSelection_none howner] at ht
    cases ht
    refine ⟨rfl, .inr ⟨howner, ?_, fun j hj => look_post_ne hj _, sound_queue hs _, rfl⟩⟩
    rw [show sv.post (P.win i) (.selectionNotify (P.win i) xaClipboard t none)
      = sv.post (P.win i) (P.notify i t none) from rfl, look_post, hl]

/-! ### What a process reads -/

/-- **The assumptions.**  The X server takes requests of some size, the clipboard is not offered as
    `INCR`, which is no target, the name of the target is a C string, and the processes may allocate
    as much as the text and a NUL need. -/
structure Sane (P : Scene ι) : Prop where
  chunkSize : 0 < P.dpy.chunkSize
  target : P.target ≠ xaIncr
  nul : (0 : UInt8) ∉ P.target
  fits : P.text.length < maxBufLen ∨ P.text.length < P.cfg.maxTextLength.toNat

theorem machSize_char (data : Bytes) : machSize (data.map .char) = data.length := by
  unfold machSize
  rw [List.map_map]
  induction data with
  | nil => rfl
  | cons b data ih =>
    rw [List.map_cons, List.sum_cons, ih, List.length_cons, Nat.add_comm]
    rfl

/-- The size of a property is more than enough to read it. -/
theorem take_size (x : PropertyData) : x.take x.size = x := by
  cases x with
  | bytes data =>
    have hle : data.length ≤ 4 * data.length := Nat.le_mul_of_pos_left _ (by decide)
    exact congrArg PropertyData.bytes (List.take_of_length_le hle)
  | atoms list =>
    have hle : list.length ≤ 4 * list.length := Nat.le_mul_of_pos_left _ (by decide)
    exact congrArg PropertyData.atoms (List.take_of_length_le hle)

theorem checkSize_eq (hP : P.Sane) {n : Nat} (hn : 0 < n) (hle : n ≤ P.text.length + 1) :
    checkSize P.cfg n = .ret () := by
  have := hP.fits
  unfold checkSize
  rw [if_neg (by omega), if_neg (by omega)]
  rfl

/-- Only who wants the list of targets asks for it. -/
theorem Wants.targets {t : Atom} (ht : P.Wants i t) :
    P.name i = some xaTargets ↔ t = xaTargets := by
  have hutf : xaUtf8String ≠ xaTargets := by decide
  have hstr : xaString ≠ xaTargets := by decide
  rcases ht with rfl | ⟨rfl, hname⟩
  · unfold targetOf
    cases P.name i with
    | none => exact ⟨nofun, fun h => absurd h hutf⟩
    | some n => exact Option.some_inj
  · refine ⟨fun h => ?_, fun h => absurd h hstr⟩
    rw [h] at hname
    exact absurd hname.symm hutf

/-- A process that collects chunks does not take them for a list of targets. -/
theorem Wants.not_targets {t : Atom} (ht : P.Wants i t) (hne : t ≠ xaTargets) (type : Option Atom) :
    ¬ ((P.name i == some xaTargets) = true ∧ type = some xaAtom) := by
  rintro ⟨h, -⟩
  exact hne (ht.targets.mp (beq_iff_eq.mp h))

/-- The end of a process does not issue a request. -/
theorem resume_outcome (v : Retrieval) :
    Process.resume (P.requestorRound i) v (Sum.inr <$> P.outcome i)
      = ⟨v, Sum.inr <$> P.outcome i⟩ := by
  unfold outcome
  split
  · unfold doOutNames
    split <;> rfl
  · unfold doOutEnd
    split
    · unfold xcmalloc checkSize
      split
      · rfl
      · split <;> rfl
    · rfl

theorem advance_outcome (v : Retrieval) :
    (⟨v, Sum.inr <$> P.outcome i⟩ : Process Requests Retrieval Output).advance (serve (P.win i))
      (P.requestorRound i) sv = none := by
  unfold outcome
  split
  · unfold doOutNames
    split <;> rfl
  · unfold doOutEnd
    split
    · unfold xcmalloc checkSize
      split
      · rfl
      · split <;> rfl
    · rfl

theorem answer_chunked {t : Atom} (hc : P.Chunked t) : P.answer t = ⟨xaIncr, .atoms []⟩ := by
  unfold answer
  rw [if_neg hc.1, if_pos hc.2]

theorem gotSize_chunked {t : Atom} (hc : P.Chunked t) (ht : P.Wants i t) :
    P.gotSize i (.waiting t) (PropertyReply.of 0 (some (P.answer t)))
      = .call (.deleteProperty (P.win i) xclipOutProperty) fun _ =>
          .ret (.inl (P.collecting t (some xaIncr) 0)) := by
  unfold gotSize
  rw [answer_chunked hc]
  refine (if_pos rfl).trans (congrArg (Prog.call (S := Requests) _) (funext fun _ => ?_))
  exact doOutNext_inl (.inr rfl) (ht.not_targets hc.1 _)

theorem gotSize_whole (hP : P.Sane) {t : Atom} (hc : ¬ P.Chunked t) :
    P.gotSize i (.waiting t) (PropertyReply.of 0 (some (P.answer t)))
      = .call (.getWindowProperty (P.win i) xclipOutProperty (P.answer t).value.size)
          (P.gotWhole i (.waiting t)) := by
  have htype : (P.answer t).type ≠ xaIncr := by
    unfold answer
    split
    · exact (by decide : xaAtom ≠ xaIncr)
    · rename_i ht
      rw [if_neg fun h => hc ⟨ht, h⟩]
      exact hP.target
  unfold gotSize
  exact if_neg fun h => htype (Option.some.inj h)

theorem gotWhole_eq (hP : P.Sane) {t : Atom} (hc : ¬ P.Chunked t) (ht : P.Wants i t) :
    P.gotWhole i (.waiting t) (PropertyReply.of (P.answer t).value.size (some (P.answer t)))
      = .call (.deleteProperty (P.win i) xclipOutProperty) fun _ => Sum.inr <$> P.outcome i := by
  unfold gotWhole finish outcome
  refine congrArg (Prog.call (S := Requests) _) (funext fun _ => ?_)
  simp only [PropertyReply.of, take_size]
  by_cases htar : t = xaTargets
  · have hname := ht.targets.mpr htar
    have hans : P.answer t = ⟨xaAtom, .atoms [xaTargets, P.target]⟩ := if_pos htar
    subst htar
    have hcheck : xcmalloc P.cfg (machSize (P.answer xaTargets).value.items) = .ret () := by
      have hsize : machSize (P.answer xaTargets).value.items = 16 := by
        rw [hans]
        rfl
      unfold xcmalloc checkSize
      rw [hsize, if_neg (by decide), if_neg fun h => absurd h.1 (by decide)]
      rfl
    rw [hcheck, if_pos hname, hname, hans]
    rfl
  · have hname : P.name i ≠ some xaTargets := fun h => htar (ht.targets.mp h)
    have hans : P.answer t = ⟨P.target, .bytes P.text⟩ := by
      unfold answer
      rw [if_neg htar, if_neg fun h => hc ⟨htar, h⟩]
    have hend : doOutNext P.cfg P.junk (P.name i == some xaTargets)
        ⟨t, some P.target, P.text.map .char, .none⟩
        = Sum.inr <$> doOutEnd P.cfg (P.text.map .char) := by
      unfold doOutNext
      simp [hname]
    rw [hans, if_neg hname, ← hend]
    simp only [PropertyData.items, machSize_char]
    split
    · rename_i hpos
      rw [show xcmalloc P.cfg P.text.length = .ret () from checkSize_eq hP hpos (Nat.le_succ _)]
      rfl
    · rfl

theorem chunk_length (pos : Nat) :
    (P.chunk pos).value.size = min P.dpy.chunkSize (P.text.length - pos) := by
  show ((P.text.drop pos).take P.dpy.chunkSize).length = _
  rw [List.length_take, List.length_drop]

/-- The text up to the end of a chunk. -/
theorem collecting_chunk (t : Atom) (type : Option Atom) (pos : Nat) :
    (P.collecting t type pos).txt ++ (P.chunk pos).value.items
      = (P.collecting t type (pos + P.dpy.chunkSize)).txt := by
  show (P.text.take pos).map Item.char ++ ((P.text.drop pos).take P.dpy.chunkSize).map Item.char = _
  rw [← List.map_append, ← List.take_add]
  rfl

theorem gotChunkSize_end {t : Atom} (hc : P.Chunked t) (ht : P.Wants i t) (type : Option Atom)
    {pos : Nat} (hpos : P.text.length ≤ pos) :
    P.gotChunkSize i (P.collecting t type pos) (PropertyReply.of 0 (some (P.chunk pos)))
      = .call (.deleteProperty (P.win i) xclipOutProperty) fun _ => Sum.inr <$> P.outcome i := by
  have hname : P.name i ≠ some xaTargets := fun h => hc.1 (ht.targets.mp h)
  have hsize : (P.chunk pos).value.size - 4 * 0 = 0 := by
    rw [chunk_length]
    omega
  unfold gotChunkSize
  refine (if_pos hsize).trans (congrArg (Prog.call (S := Requests) _) (funext fun _ => ?_))
  unfold finish outcome doOutNext
  simp [hname, collecting, List.take_of_length_le hpos]

theorem gotChunkSize_more (hP : P.Sane) (st : Retrieval) {pos : Nat} (hpos : pos < P.text.length) :
    P.gotChunkSize i st (PropertyReply.of 0 (some (P.chunk pos)))
      = .call (.getWindowProperty (P.win i) xclipOutProperty (P.chunk pos).value.size)
          (P.gotChunk i st) := by
  have hsize : (P.chunk pos).value.size - 4 * 0 ≠ 0 := by
    have := hP.chunkSize
    rw [chunk_length]
    omega
  unfold gotChunkSize
  exact if_neg hsize

theorem gotChunk_eq (hP : P.Sane) {t : Atom} (hc : P.Chunked t) (ht : P.Wants i t)
    (type : Option Atom) {pos : Nat} (hpos : pos < P.text.length) :
    P.gotChunk i (P.collecting t type pos)
        (PropertyReply.of (P.chunk pos).value.size (some (P.chunk pos)))
      = .call (.deleteProperty (P.win i) xclipOutProperty) fun _ =>
          .ret (.inl (P.collecting t (some P.target) (pos + P.dpy.chunkSize))) := by
  have hlen : machSize (P.collecting t type pos).txt + machSize (P.chunk pos).value.items
      ≤ P.text.length := by
    show machSize ((P.text.take pos).map Item.char)
      + machSize (((P.text.drop pos).take _).map _) ≤ _
    rw [machSize_char, machSize_char, List.length_take, List.length_take, List.length_drop]
    omega
  have hgoes : (Prog.call (.deleteProperty (P.win i) xclipOutProperty) fun _ =>
      doOutNext P.cfg P.junk (P.name i == some xaTargets)
        { P.collecting t type pos with
          type := some P.target
          txt := (P.collecting t type pos).txt ++ (P.chunk pos).value.items } :
        XProg (Retrieval ⊕ Output))
      = .call (.deleteProperty (P.win i) xclipOutProperty) fun _ =>
          .ret (.inl (P.collecting t (some P.target) (pos + P.dpy.chunkSize))) := by
    refine congrArg (Prog.call (S := Requests) _) (funext fun _ => ?_)
    rw [collecting_chunk]
    exact doOutNext_inl (.inr rfl) (ht.not_targets hc.1 _)
  unfold gotChunk
  simp only [PropertyReply.of, take_size]
  split
  · rw [checkSize_eq hP (by omega) (hlen.trans (Nat.le_succ _))]
    exact hgoes
  · exact hgoes

/-! ### Steps of a process -/

theorem listening_waiting {t : Atom} (v : Retrieval) :
    Process.resume (P.requestorRound i) v (.ret (.inl (.waiting t)))
      = P.listening i (.waiting t) := by
  rw [Process.resume_next, requestorRound_wait (v := .waiting t) nofun]
  rfl

theorem listening_collecting {t : Atom} {type : Option Atom} {pos : Nat} (v : Retrieval) :
    Process.resume (P.requestorRound i) v (.ret (.inl (P.collecting t type pos)))
      = P.listening i (P.collecting t type pos) := by
  rw [Process.resume_next, requestorRound_wait (v := P.collecting t type pos) nofun]
  rfl

/-- The event of a process that waits for the answer. -/
theorem resume_ignored {t : Atom} (ps : PropertyState) :
    Process.resume (P.requestorRound i) (.waiting t) (P.react i (.waiting t) (P.notice i ps))
      = P.listening i (.waiting t) := by
  have hty : ¬ ((P.name i == some xaTargets) = true ∧
      (Retrieval.waiting t).type = some xaAtom) := by
    rintro ⟨-, h⟩
    cases h
  unfold notice
  rw [react_propertyNotify rfl hty, listening_waiting]

theorem resume_deleted {t : Atom} (hc : P.Chunked t) (ht : P.Wants i t) (type : Option Atom)
    (pos : Nat) :
    Process.resume (P.requestorRound i) (P.collecting t type pos)
        (P.react i (P.collecting t type pos) (P.notice i .deleted))
      = P.listening i (P.collecting t type pos) := by
  unfold notice
  rw [react_deleted rfl (ht.not_targets hc.1 _), listening_collecting]

/-- The process may have lost some of what it waits for. -/
theorem askRank_pos (t : Atom) : 10 * P.text.length + 29 < P.askRank t := by
  unfold askRank
  split <;> omega

/-- The process has come to a later stage. -/
def Nears (P : Scene ι) (strict clear : Bool) (i : ι) (sv sv' : Server)
    (p : Process Requests Retrieval Output) (out : List Request) (pos : Option Nat) (n : Nat) :
    Prop :=
  ∃ l k, k < n ∧ P.Moves clear i sv sv' l ∧
    P.Stage strict (sv.owner xaClipboard = none) i p l out pos k

section nears

variable {strict : Bool} {out : List Request} {pos : Option Nat} {n k : Nat} {t : Atom}
  {type : Option Atom} {start : Nat} {ps : PropertyState} {q : List XEvent} {st : Retrieval}

/-- A process without an event waits. -/
theorem listening_stuck (hs : P.Sound sv clear) (hl : P.look sv i = ⟨prop, [], asks, w, sel⟩)
    (hstep : (P.listening i st).advance (serve (P.win i)) (P.requestorRound i) sv
      = some (p', sv')) : False := by
  obtain ⟨e, q, hq, -, -⟩ := take_moves hs hl hstep
  cases hq

/-- While it waits for the answer, a process skips what it is told about its property. -/
theorem waiting_nears (hs : P.Sound sv clear)
    (hl : P.look sv i = ⟨prop, P.notice i ps :: q, asks, w, sel⟩)
    (hstep : (P.listening i (.waiting t)).advance (serve (P.win i)) (P.requestorRound i) sv
      = some (p', sv')) (hk : k < n)
    (hnext : P.Stage strict (sv.owner xaClipboard = none) i (P.listening i (.waiting t))
      ⟨prop, q, asks, w, sel⟩ out pos k) :
    P.Nears strict clear i sv sv' p' out pos n := by
  obtain ⟨e, q', hq, hp, hm⟩ := take_moves hs hl hstep
  cases hq
  rw [hp.trans (resume_ignored _)]
  exact ⟨_, k, hk, hm, hnext⟩

/-- While it waits for a chunk, it skips the deletion of the one before. -/
theorem collecting_nears (hs : P.Sound sv clear) (hc : P.Chunked t) (ht : P.Wants i t)
    (hl : P.look sv i = ⟨prop, P.notice i .deleted :: q, asks, w, sel⟩)
    (hstep : (P.listening i (P.collecting t type start)).advance (serve (P.win i))
      (P.requestorRound i) sv = some (p', sv')) (hk : k < n)
    (hnext : P.Stage strict (sv.owner xaClipboard = none) i
      (P.listening i (P.collecting t type start)) ⟨prop, q, asks, w, sel⟩ out pos k) :
    P.Nears strict clear i sv sv' p' out pos n := by
  obtain ⟨e, q', hq, hp, hm⟩ := take_moves hs hl hstep
  cases hq
  rw [hp.trans (resume_deleted hc ht _ _)]
  exact ⟨_, k, hk, hm, hnext⟩

/-- The process asks for the selection: the owner hears of it, or there is none. -/
theorem asking_nears (hs : P.Sound sv clear) (ht : P.Wants i t)
    (hl : P.look sv i = ⟨none, [], [], false, true⟩)
    (hstep : (⟨.asking t, P.requestorRound i (.asking t)⟩ :
      Process Requests Retrieval Output).advance (serve (P.win i)) (P.requestorRound i) sv
        = some (p', sv')) :
    P.Nears strict clear i sv sv' p' [] none (P.askRank t) := by
  have hrank := P.askRank_pos t
  rw [requestorRound_ask (v := .asking t) rfl rfl] at hstep
  obtain ⟨hp, hm | ⟨hnone, hm⟩⟩ := convert_moves hs hl hstep
  · rw [hp.trans (listening_waiting _)]
    refine ⟨_, P.left 0 + 25, ?_, hm, .asked t ht⟩
    unfold left
    omega
  · rw [hp.trans (listening_waiting _)]
    exact ⟨_, P.askRank t - 1, by omega, hm, .refused t ht hnone⟩

/-- The process is refused: it asks for another target, or gives up. -/
theorem refused_nears (hs : P.Sound sv clear) (ht : P.Wants i t)
    (hlost : sv.owner xaClipboard = none)
    (hl : P.look sv i = ⟨none, [P.notify i t none], [], false, true⟩)
    (hstep : (P.listening i (.waiting t)).advance (serve (P.win i)) (P.requestorRound i) sv
      = some (p', sv')) :
    P.Nears strict clear i sv sv' p' [] none (P.askRank t - 1) := by
  obtain ⟨e, q, hq, hp, hm⟩ := take_moves hs hl hstep
  cases hq
  have hreact : P.react i (.waiting t) (P.notify i t none)
      = if t = xaUtf8String then .ret (.inl (.asking xaString)) else .ret (.inr .failed) :=
    react_refused rfl rfl _ _ _
  rw [hreact] at hp
  split at hp
  · -- a text may also be had under the older target
    rename_i hutf
    have hname : P.Wants i xaString := by
      refine .inr ⟨rfl, ?_⟩
      rcases ht with h | ⟨h, -⟩
      · rw [← h, hutf]
      · exact absurd (h.symm.trans hutf) (by decide)
    subst hp
    refine ⟨_, P.askRank xaString, ?_, hm, .asking _ hname⟩
    unfold askRank
    rw [if_pos hutf, if_neg (by decide)]
    omega
  · subst hp
    have hrank := P.askRank_pos t
    exact ⟨_, 0, by omega, hm, .done (.inr ⟨rfl, hlost⟩) [] [] nofun _⟩

/-- The process has read the size of the answer: the text is all there, or comes in chunks. -/
theorem sizing_nears (hP : P.Sane) (hs : P.Sound sv clear) (ht : P.Wants i t)
    (hl : P.look sv i = ⟨some (P.answer t), [], [], decide (P.Chunked t), true⟩)
    (hstep : (⟨.waiting t,
      .call (.getWindowProperty (P.win i) xclipOutProperty 0) (P.gotSize i (.waiting t))⟩ :
      Process Requests Retrieval Output).advance (serve (P.win i)) (P.requestorRound i) sv
        = some (p', sv')) :
    P.Nears strict clear i sv sv' p' [] (P.begins t) (P.left 0 + 16) := by
  obtain ⟨hp, rfl⟩ := get_moves hl hstep
  have hstay : P.Moves clear i sv' sv' _ := ⟨hl, fun _ _ => rfl, hs, rfl⟩
  by_cases hc : P.Chunked t
  · rw [gotSize_chunked hc ht] at hp
    subst hp
    unfold begins
    rw [if_pos hc, decide_eq_true hc] at *
    exact ⟨_, _, Nat.lt_succ_self _, hstay, .starting t ht hc⟩
  · rw [gotSize_whole hP hc] at hp
    subst hp
    unfold begins
    rw [if_neg hc, decide_eq_false hc] at *
    exact ⟨_, 3, by omega, hstay, .reading t ht hc⟩

/-- The process has read the size of a chunk: it is the empty one at the end, or there is more. -/
theorem chunkSizing_nears (hP : P.Sane) (hs : P.Sound sv clear) (hc : P.Chunked t)
    (ht : P.Wants i t) {a : Bool}
    (hl : P.look sv i = ⟨some (P.chunk start), [], opt a (P.notice i .newValue), true, true⟩)
    (hstep : (⟨P.collecting t type start, .call (.getWindowProperty (P.win i) xclipOutProperty 0)
      (P.gotChunkSize i (P.collecting t type start))⟩ :
      Process Requests Retrieval Output).advance (serve (P.win i)) (P.requestorRound i) sv
        = some (p', sv')) :
    P.Nears strict clear i sv sv' p' [] (P.goesOn start) (P.left start + 7 + a.toNat) := by
  obtain ⟨hp, rfl⟩ := get_moves hl hstep
  have hstay : P.Moves clear i sv' sv' _ := ⟨hl, fun _ _ => rfl, hs, rfl⟩
  unfold goesOn
  by_cases hpos : P.text.length ≤ start
  · rw [gotChunkSize_end hc ht type hpos] at hp
    subst hp
    rw [if_pos hpos]
    exact ⟨_, 6 + a.toNat, by omega, hstay, .ending t ht hc type start hpos a⟩
  · rw [gotChunkSize_more hP _ (not_le.mp hpos)] at hp
    subst hp
    rw [if_neg hpos]
    exact ⟨_, P.left start + 6 + a.toNat, by omega, hstay,
      .chunkReading t ht hc type start (not_le.mp hpos) a⟩

end nears

/-- **A step of the process** leads to a later stage. -/
theorem Stage.requestor (hP : P.Sane) {strict : Bool} {l : Look} {out : List Request}
    {pos : Option Nat} {n : Nat}
    (h : P.Stage strict (sv.owner xaClipboard = none) i p l out pos n) (hl : P.look sv i = l)
    (hs : P.Sound sv clear)
    (hstep : p.advance (serve (P.win i)) (P.requestorRound i) sv = some (p', sv')) :
    P.Nears strict clear i sv sv' p' out pos n := by
  have hstay : P.Moves clear i sv sv l := ⟨hl, fun _ _ => rfl, hs, rfl⟩
  cases h with
  -- the process asks, and may be refused
  | opening =>
    obtain ⟨rfl, hm⟩ := select_moves hs hl hstep
    refine ⟨_, P.askRank (targetOf (P.name i)), ?_, hm, .asking _ (.inl rfl)⟩
    unfold askRank
    split <;> omega
  | asking t ht => exact asking_nears hs ht hl hstep
  | refused t ht hlost => exact refused_nears hs ht hlost hl hstep
  -- it waits for the owner
  | asked t ht => exact (listening_stuck hs hl hstep).elim
  | serving t ht => exact (listening_stuck hs hl hstep).elim
  | ignored t ht hstrict => exact (listening_stuck hs hl hstep).elim
  | selecting t ht hc b =>
    cases b with
    | false => exact (listening_stuck hs hl hstep).elim
    | true =>
      exact waiting_nears hs hl hstep (Nat.lt_succ_self _) (.selecting t ht hc false)
  | notifying t ht b =>
    cases b with
    | false => exact (listening_stuck hs hl hstep).elim
    | true => exact waiting_nears hs hl hstep (Nat.lt_succ_self _) (.notifying t ht false)
  -- the answer has come: its size is read first
  | notified t ht b =>
    cases b with
    | false =>
      obtain ⟨e, q, hq, hp, hm⟩ := take_moves hs hl hstep
      cases hq
      unfold notify at hp
      rw [react_notify rfl] at hp
      subst hp
      exact ⟨_, _, Nat.lt_succ_self _, hm, .sizing t ht⟩
    | true => exact waiting_nears hs hl hstep (Nat.lt_succ_self _) (.notified t ht false)
  | sizing t ht => exact sizing_nears hP hs ht hl hstep
  -- all of the text is there
  | reading t ht hc =>
    obtain ⟨hp, rfl⟩ := get_moves hl hstep
    rw [gotWhole_eq hP hc ht] at hp
    subst hp
    exact ⟨_, 2, by omega, hstay, .closing t ht hc⟩
  | closing t ht hc =>
    obtain ⟨hp, hm⟩ := delete_moves hs hl hstep
    rw [hp.trans (resume_outcome _)]
    exact ⟨_, 0, by omega, hm, .done (.inl rfl) _ [] nofun _⟩
  -- the text comes in chunks: each is waited for, read and deleted
  | starting t ht hc =>
    obtain ⟨hp, hm⟩ := delete_moves hs hl hstep
    rw [hp.trans (listening_collecting _)]
    exact ⟨_, P.left 0 + 13, by omega, hm, .awaiting t ht hc _ 0 false true⟩
  | awaiting t ht hc type pos a b =>
    cases b with
    | false => exact (listening_stuck hs hl hstep).elim
    | true =>
      exact collecting_nears hs hc ht hl hstep (Nat.lt_succ_self _)
        (.awaiting t ht hc type pos a false)
  | sending t ht hc type pos b =>
    cases b with
    | false => exact (listening_stuck hs hl hstep).elim
    | true =>
      exact collecting_nears hs hc ht hl hstep (Nat.lt_succ_self _)
        (.sending t ht hc type pos false)
  | sent t ht hc type pos a b =>
    cases b with
    | false =>
      obtain ⟨e, q, hq, hp, hm⟩ := take_moves hs hl hstep
      cases hq
      unfold notice at hp
      rw [react_chunk rfl] at hp
      subst hp
      exact ⟨_, P.left pos + 7 + a.toNat, by simp, hm, .chunkSizing t ht hc type pos a⟩
    | true =>
      exact collecting_nears hs hc ht hl hstep (Nat.lt_succ_self _)
        (.sent t ht hc type pos a false)
  | chunkSizing t ht hc type pos a => exact chunkSizing_nears hP hs hc ht hl hstep
  | chunkReading t ht hc type pos hpos a =>
    obtain ⟨hp, rfl⟩ := get_moves hl hstep
    rw [gotChunk_eq hP hc ht type hpos] at hp
    subst hp
    exact ⟨_, P.left pos + 5 + a.toNat, by omega, hstay,
      .chunkTaking t ht hc type _ pos hpos a⟩
  | chunkTaking t ht hc type type' pos hpos a =>
    obtain ⟨hp, hm⟩ := delete_moves hs hl hstep
    rw [hp.trans (listening_collecting _)]
    refine ⟨_, P.left (pos + P.dpy.chunkSize) + 12 + a.toNat + 1, ?_, hm,
      .awaiting t ht hc type' _ a true⟩
    -- a chunk is not empty
    have := hP.chunkSize
    unfold left
    omega
  | ending t ht hc type pos hend a =>
    obtain ⟨hp, hm⟩ := delete_moves hs hl hstep
    rw [hp.trans (resume_outcome _)]
    refine ⟨_, _, ?_, hm, .done (.inl rfl) _ _ ?_ _⟩
    · cases a <;> simp
    · cases a <;> simp
  -- it has ended
  | done hdone queue asks hasks w =>
    obtain ⟨v, rest⟩ := p
    rcases hdone with rfl | ⟨rfl, -⟩
    · rw [advance_outcome] at hstep
      cases hstep
    · cases hstep

/-! ### Steps of the owner -/

/-- The requests that the owner is about to issue for a process. -/
def outOf (P : Scene ι) (st : Transfer) (out : List Request) (i : ι) : List Request :=
  if st.win = P.win i then out else []

/-- The position of the transfer to a process. -/
def posOf (P : Scene ι) (st : Transfer) (i : ι) : Option Nat :=
  if st.context = .incr ∧ st.win = P.win i then some st.pos else none

/-- What a step of the owner leaves of a request for the selection, or of the deletion of a
    property, that comes while it hands over chunks. -/
def Spares (strict : Bool) (win : Window) : XEvent → Prop
  | .selectionRequest _ _ _ _ => strict = false
  | .propertyNotify w _ .deleted => w = win
  | _ => True

theorem posOf_self {v : Transfer} {i : ι} (hw : v.win = P.win i) :
    P.posOf v i = if v.context = .incr then some v.pos else none := by
  unfold posOf
  simp only [hw, and_true]

theorem posOf_some {v : Transfer} {pos : Nat} (h : P.posOf v i = some pos) :
    v.context = .incr ∧ v.win = P.win i ∧ v.pos = pos := by
  unfold posOf at h
  split at h
  · rename_i hst
    exact ⟨hst.1, hst.2, Option.some.inj h⟩
  · cases h

theorem posOf_none {v : Transfer} (hst : v.context = .none) : P.posOf v i = none := by
  unfold posOf
  rw [hst]
  exact if_neg fun h => nomatch h.1

theorem posOf_ne {v : Transfer} {j : ι} (hw : v.win = P.win i) (hji : j ≠ i) :
    P.posOf v j = none := if_neg fun h => hji (P.win_inj (h.2.symm.trans hw))

/-- **The owner issues a request** for a process. -/
theorem Stage.issued {strict : Bool} {lost : Prop} {l : Look} {c : Request} {cs : List Request}
    {pos : Option Nat} {n : Nat} (h : P.Stage strict lost i p l (c :: cs) pos n)
    (hl : P.look sv i = l) (hs : P.Sound sv clear) :
    ∃ r sv' l' k, serve P.ownerWin c sv = some (r, sv') ∧ k < n ∧ P.Moves clear i sv sv' l' ∧
      P.Stage strict lost i p l' cs pos k := by
  have hchange : ∀ x : Property, P.Moves clear i sv
      (sv.change (P.win i) xclipOutProperty (some x) .newValue) ⟨some x,
        l.queue ++ opt l.selected (P.notice i .newValue),
        l.asks ++ opt l.watched (P.notice i .newValue), l.watched, l.selected⟩ := by
    intro x
    refine ⟨?_, fun j hj => look_change_ne hs hj _ _, sound_change hs _ _, rfl⟩
    rw [look_change, hl]
  have hsend : ∀ t, P.Moves clear i sv (sv.post (P.win i) (P.notify i t (some xclipOutProperty)))
      { l with queue := l.queue ++ [P.notify i t (some xclipOutProperty)] } := by
    intro t
    refine ⟨?_, fun j hj => look_post_ne hj _, sound_queue hs _, rfl⟩
    rw [look_post, hl]
  generalize hcs : c :: cs = out at h
  cases h with
  | serving t ht =>
    unfold answering at hcs
    obtain ⟨rfl, rfl⟩ := List.cons.inj hcs
    by_cases hc : P.Chunked t
    · refine ⟨(), _, _, P.left 0 + 22, rfl, by omega, hchange _, ?_⟩
      unfold begins
      rw [if_pos hc, if_pos hc]
      exact .selecting t ht hc true
    · refine ⟨(), _, _, P.left 0 + 20, rfl, by omega, hchange _, ?_⟩
      have := @Stage.notifying ι P strict lost i t ht true
      rw [decide_eq_false hc] at this
      rw [if_neg hc]
      exact this
  | selecting t ht hc b =>
    obtain ⟨rfl, rfl⟩ := List.cons.inj hcs
    refine ⟨(), _, _, P.left 0 + 19 + b.toNat, rfl, by omega,
      ⟨look_watch.trans (by rw [hl]), fun j hj => look_watch_ne hj, sound_watch hs (.inr rfl),
        rfl⟩, ?_⟩
    have := @Stage.notifying ι P strict lost i t ht b
    unfold begins at this
    rw [decide_eq_true hc, if_pos hc] at this
    exact this
  | notifying t ht b =>
    obtain ⟨rfl, rfl⟩ := List.cons.inj hcs
    exact ⟨(), _, _, _, rfl, by omega, hsend t, .notified t ht b⟩
  | sending t ht hc type pos b =>
    obtain ⟨rfl, rfl⟩ := List.cons.inj hcs
    refine ⟨(), _, _, P.left pos + 9 + b.toNat, rfl, by omega, hchange _, ?_⟩
    have := @Stage.sent ι P strict lost i t ht hc type pos true b
    rwa [show P.left pos + 8 + true.toNat + b.toNat = P.left pos + 9 + b.toNat from rfl] at this
  | _ => cases hcs

/-- What the owner knows of the window and the property of a transfer. -/
structure Bound (P : Scene ι) (st : Transfer) (out : List Request) : Prop where
  win : out ≠ [] ∨ st.context = .incr → ∃ i, st.win = P.win i
  pty : st.context = .incr → st.pty = xclipOutProperty

/-- A step of the owner for one process: what it keeps, and the requests it is going to issue. -/
structure Serves (P : Scene ι) (i : ι) (st st' : Transfer) (out : List Request) : Prop where
  bound : P.Bound st' out
  clear : st'.clear = st.clear
  others : ∀ j, j ≠ i → P.outOf st' out j = [] ∧ P.posOf st' j = P.posOf st j

theorem outOf_self {v : Transfer} (hw : v.win = P.win i) (out : List Request) :
    P.outOf v out i = out := if_pos hw

theorem outOf_nil (v : Transfer) : P.outOf v [] i = [] := by
  unfold outOf
  split <;> rfl

theorem outOf_ne {v : Transfer} {j : ι} (hw : v.win = P.win i) (hji : j ≠ i)
    (out : List Request) : P.outOf v out j = [] :=
  if_neg fun h => hji (P.win_inj (h.symm.trans hw))

/-- The owner has made of an event what it makes of it, and the process is closer to its end. -/
def Answers (P : Scene ι) (strict : Bool) (lost : Prop) (i : ι)
    (p : Process Requests Retrieval Output) (l : Look) (st : Transfer) (e : XEvent) (n : Nat) :
    Prop :=
  ∃ st' out k, P.handle st e = issue out (.ret (Scene.ending st')) ∧ k < n ∧
    P.Serves i st st' out ∧ P.Stage strict lost i p l (P.outOf st' out i) (P.posOf st' i) k

section answers

variable {strict : Bool} {lost : Prop} {l : Look} {st : Transfer} {e : XEvent} {n k : Nat}
  {t : Atom} {type : Option Atom}

/-- An event that the owner ignores. -/
theorem answers_ignored (hb : P.Bound st []) (hhandle : P.handle st e = .ret (Scene.ending st))
    (hk : k < n) (hstage : P.Stage strict lost i p l [] (P.posOf st i) k) :
    P.Answers strict lost i p l st e n := by
  refine ⟨st, [], k, hhandle, hk, ⟨hb, rfl, fun j _ => ⟨outOf_nil st, rfl⟩⟩, ?_⟩
  rwa [outOf_nil]

/-- The owner answers a request when it does not hand over chunks. -/
theorem answers_request (ht : P.Wants i t) (hst : st.context = .none) :
    P.Answers strict lost i (P.listening i (.waiting t)) ⟨none, [], [], false, true⟩ st
      (P.request i t) (P.left 0 + 25) := by
  refine ⟨P.accept st (P.win i) t xclipOutProperty, _, P.left 0 + 24, handle_request hst _ _ _ _,
    by omega, ⟨⟨fun _ => ⟨i, rfl⟩, fun _ => rfl⟩, rfl, fun j hj => ⟨outOf_ne rfl hj _, ?_⟩⟩, ?_⟩
  · rw [posOf_none hst, posOf_ne (i := i) rfl hj]
  · rw [outOf_self rfl, posOf_self rfl]
    have hbegins : (if (P.accept st (P.win i) t xclipOutProperty).context = .incr then
        some (P.accept st (P.win i) t xclipOutProperty).pos else none) = P.begins t := by
      unfold accept begins
      by_cases hc : P.Chunked t <;> simp [hc]
    rw [hbegins]
    exact .serving t ht

/-- The owner hands over the next chunk when the one before was deleted. -/
theorem answers_deleted (hP : P.Sane) (ht : P.Wants i t) (hc : P.Chunked t) (b : Bool)
    (hst : st.context = .incr) (hw : st.win = P.win i) (hb : P.Bound st []) :
    P.Answers strict lost i (P.listening i (P.collecting t type st.pos))
      ⟨none, opt b (P.notice i .deleted), [], true, true⟩ st (P.notice i .deleted)
      (P.left st.pos + 12 + b.toNat) := by
  have hw' : (P.proceed st).win = P.win i := hw
  refine ⟨P.proceed st, _, P.left st.pos + 11 + b.toNat, handle_deleted hst hP.chunkSize _ _,
    by omega, ⟨⟨fun _ => ⟨i, hw⟩, fun _ => hb.pty hst⟩, rfl,
      fun j hj => ⟨outOf_ne hw' hj _, ?_⟩⟩, ?_⟩
  · rw [posOf_ne hw' hj, posOf_ne hw hj]
  · rw [outOf_self hw', posOf_self hw', hw, hb.pty hst]
    have hgoes : (if (P.proceed st).context = .incr then some (P.proceed st).pos else none)
        = P.goesOn st.pos := by
      unfold proceed goesOn
      by_cases hend : P.text.length ≤ st.pos <;> simp [hend]
    rw [hgoes]
    exact .sending t ht hc type _ b

/-- The owner ignores what it is told about the property of a process that has ended. -/
theorem answers_done {q : List XEvent} (hb : P.Bound st [])
    (hp : p.rest = Sum.inr <$> P.outcome i ∨ p.rest = .ret (.inr .failed) ∧ lost)
    (hasks : ∀ e' ∈ e :: asks, ∃ ps, e' = P.notice i ps) (hpos : P.posOf st i = none)
    (hspares : st.context = .incr → Spares strict st.win e) (w : Bool) :
    P.Answers strict lost i p ⟨none, q, asks, w, true⟩ st e (asks.length + 1) := by
  have htail := fun e' he => hasks e' (List.mem_cons_of_mem _ he)
  have hstage : P.Stage strict lost i p ⟨none, q, asks, w, true⟩ [] (P.posOf st i) asks.length := by
    rw [hpos]
    exact .done hp q asks htail w
  refine answers_ignored hb ?_ (Nat.lt_succ_self _) hstage
  obtain ⟨ps, rfl⟩ := hasks e List.mem_cons_self
  cases ps with
  | newValue => exact handle_newValue st _ _
  | deleted =>
    cases hst : st.context with
    | none => exact handle_deleted_none hst _ _
    | incr =>
      -- no transfer to this process is going on
      have hw : P.win i = st.win := hspares hst
      rw [posOf_self hw.symm, if_pos hst] at hpos
      cases hpos

end answers

/-- **The owner takes an event** about the window of a process. -/
theorem Stage.take (hP : P.Sane) {strict : Bool} {lost : Prop} {l : Look} {st : Transfer}
    {e : XEvent} {n : Nat} (h : P.Stage strict lost i p l [] (P.posOf st i) n)
    (hasks : l.asks = e :: asks) (hb : P.Bound st [])
    (hspares : st.context = .incr → Spares strict st.win e) :
    P.Answers strict lost i p { l with asks := asks } st e n := by
  have hnew : e = P.notice i .newValue → P.handle st e = .ret (Scene.ending st) := by
    rintro rfl
    exact handle_newValue st _ _
  have hskip : ∀ {l' k}, P.handle st e = .ret (Scene.ending st) → k < n →
      P.Stage strict lost i p l' [] (P.posOf st i) k → P.Answers strict lost i p l' st e n :=
    fun hhandle hk hstage => answers_ignored hb hhandle hk hstage
  generalize hpos : P.posOf st i = pos at h hskip
  cases h with
  -- the process has asked for the selection
  | asked t ht =>
    cases hasks
    cases hst : st.context with
    | none => exact answers_request ht hst
    | incr =>
      exact hskip (handle_request_incr hst _ _ _ _) (by omega) (.ignored t ht (hspares hst))
  -- it has deleted its property, and waits for the next chunk
  | awaiting t ht hc type pos a b =>
    cases a with
    | true =>
      cases hasks
      exact hskip (hnew rfl) (Nat.add_lt_add_right (Nat.lt_succ_self _) _)
        (.awaiting t ht hc type pos false b)
    | false =>
      cases hasks
      obtain ⟨hst, hw, rfl⟩ := posOf_some hpos
      exact answers_deleted hP ht hc b hst hw hb
  -- the owner hears of the chunk that it has put there itself
  | sent t ht hc type pos a b =>
    cases a with
    | false => cases hasks
    | true =>
      cases hasks
      exact hskip (hnew rfl) (Nat.add_lt_add_right (Nat.lt_succ_self _) _)
        (.sent t ht hc type pos false b)
  | chunkSizing t ht hc type pos a =>
    cases a with
    | false => cases hasks
    | true =>
      cases hasks
      exact hskip (hnew rfl) (Nat.lt_succ_self _) (.chunkSizing t ht hc type pos false)
  | ending t ht hc type pos hend a =>
    cases a with
    | false => cases hasks
    | true =>
      cases hasks
      exact hskip (hnew rfl) (Nat.lt_succ_self _) (.ending t ht hc type pos hend false)
  | chunkReading t ht hc type pos hend a =>
    cases a with
    | false => cases hasks
    | true =>
      cases hasks
      exact hskip (hnew rfl) (Nat.lt_succ_self _) (.chunkReading t ht hc type pos hend false)
  | chunkTaking t ht hc type type' pos hend a =>
    cases a with
    | false => cases hasks
    | true =>
      cases hasks
      exact hskip (hnew rfl) (Nat.lt_succ_self _) (.chunkTaking t ht hc type type' pos hend false)
  | done hp queue asks' hasks' w =>
    subst hasks
    exact answers_done hb hp hasks' hpos hspares w
  -- in the other stages there is no event about the process
  | _ => cases hasks

end Scene

end ClipShare
