import ClipShare.Verify.Xclip

namespace ClipShare

open Interaction X11
open Posix (Bytes)

/-!
# What a process at the clipboard can see

The state of the X server as far as it concerns one of the processes that want the clipboard, and
what the requests do to it.  A request about the window of one process does not concern the others.

* `Look` — the property of the window, the events of the process, and the events about its window
  that the owner has not taken yet;
* `Sound` — what holds of the events that the owner has not taken yet;
* `look_change`, `sound_change` and the like — the effects of requests.
-/

/-- An event that may be there. -/
def opt (b : Bool) (e : XEvent) : List XEvent := if b then [e] else []

@[simp] theorem opt_true (e : XEvent) : opt true e = [e] := rfl
@[simp] theorem opt_false (e : XEvent) : opt false e = [] := rfl

/-- The window that an event is about. -/
def window : XEvent → Option Window
  | .selectionRequest w _ _ _ => some w
  | .selectionNotify w _ _ _ => some w
  | .propertyNotify w _ _ => some w
  | .selectionClear _ => none

/-- The event asks for the selection. -/
def IsRequest : XEvent → Prop
  | .selectionRequest _ _ _ _ => True
  | _ => False

/-- The event tells the owner that it has lost the selection. -/
def IsClear : XEvent → Prop
  | .selectionClear _ => True
  | _ => False

instance : DecidablePred IsClear := fun e => by cases e <;> unfold IsClear <;> infer_instance

/-- The owner loses the selection once, and no request comes after that; `clear` tells if it knows
    that it has lost it. -/
def Ordered : Bool → List XEvent → Prop
  | _, [] => True
  | clear, e :: q =>
      (IsRequest e ∨ IsClear e → clear = false) ∧ Ordered (clear || decide (IsClear e)) q

/-- What the X server knows about one process. -/
structure Look where
  prop : Option Property
  queue : List XEvent
  asks : List XEvent
  watched : Bool
  selected : Bool

namespace Scene

variable {ι : Type} (P : Scene ι)

/-- The event is about the window of the process. -/
def about (i : ι) (e : XEvent) : Bool := window e == some (P.win i)

/-- What the X server knows about a process. -/
def look (sv : Server) (i : ι) : Look where
  prop := sv.property (P.win i) xclipOutProperty
  queue := sv.queue (P.win i)
  asks := (sv.queue P.ownerWin).filter (P.about i)
  watched := sv.watching P.ownerWin (P.win i)
  selected := sv.watching (P.win i) (P.win i)

/-- What holds of the events that the owner has not taken yet, of the selection, and of who is told
    about changes of properties. -/
structure Sound (sv : Server) (clear : Bool) : Prop where
  known : ∀ e ∈ sv.queue P.ownerWin,
    e = .selectionClear xaClipboard ∨ ∃ i, window e = some (P.win i)
  ordered : Ordered clear (sv.queue P.ownerWin)
  owned : sv.owner xaClipboard = some P.ownerWin ∨ sv.owner xaClipboard = none
  kept : sv.owner xaClipboard = some P.ownerWin →
    clear = false ∧ XEvent.selectionClear xaClipboard ∉ sv.queue P.ownerWin
  watch : ∀ i c, sv.watching c (P.win i) = true → c = P.win i ∨ c = P.ownerWin

end Scene

/-! ### Order -/

/-- Any other event may follow. -/
theorem Ordered.append {clear : Bool} {q : List XEvent} {e : XEvent} (h : Ordered clear q)
    (he : ¬ (IsRequest e ∨ IsClear e)) : Ordered clear (q ++ [e]) := by
  induction q generalizing clear with
  | nil => exact ⟨fun hr => absurd hr he, trivial⟩
  | cons e' q ih => exact ⟨h.1, ih h.2⟩

/-- Everything may follow as long as the owner has the selection. -/
theorem Ordered.append_owned {q : List XEvent} {e : XEvent} (h : Ordered false q)
    (hq : ∀ e ∈ q, ¬ IsClear e) : Ordered false (q ++ [e]) := by
  induction q with
  | nil => exact ⟨fun _ => rfl, trivial⟩
  | cons e' q ih =>
    have he' : decide (IsClear e') = false := decide_eq_false (hq e' List.mem_cons_self)
    refine ⟨h.1, ?_⟩
    have htail := h.2
    rw [he'] at htail ⊢
    exact ih htail fun e he => hq e (List.mem_cons_of_mem _ he)

/-- There is no request left when the owner knows that it has lost the selection. -/
theorem Ordered.no_request {q : List XEvent} (h : Ordered true q) : ∀ e ∈ q, ¬ IsRequest e := by
  induction q with
  | nil => exact nofun
  | cons e q ih =>
    rw [List.forall_mem_cons]
    exact ⟨fun hr => Bool.noConfusion (h.1 (.inl hr)), ih h.2⟩

/-! ### The effects of requests -/

namespace Scene

variable {ι : Type} {P : Scene ι} {sv : Server} {i j : ι} {clear : Bool}

theorem about_eq_true {e : XEvent} : P.about i e = true ↔ window e = some (P.win i) := by
  unfold about
  exact beq_iff_eq

/-- An event is about one window. -/
theorem about_ne {e : XEvent} (he : window e = some (P.win i)) (hji : j ≠ i) :
    P.about j e = false := by
  rw [Bool.eq_false_iff, ne_eq, about_eq_true, he]
  intro h
  exact hji (P.win_inj (Option.some.inj h)).symm

/-- The event about a change of the property of a window. -/
def notice (P : Scene ι) (i : ι) (ps : PropertyState) : XEvent :=
  .propertyNotify (P.win i) xclipOutProperty ps

theorem look_change (p : Option Property) (ps : PropertyState) :
    P.look (sv.change (P.win i) xclipOutProperty p ps) i =
      { P.look sv i with
        prop := p
        queue := (P.look sv i).queue ++ opt (P.look sv i).selected (P.notice i ps)
        asks := (P.look sv i).asks ++ opt (P.look sv i).watched (P.notice i ps) } := by
  have habout : P.about i (P.notice i ps) = true := about_eq_true.mpr rfl
  unfold look Server.change
  simp only [Function.update_self, notice] at habout ⊢
  congr 1
  · cases sv.watching (P.win i) (P.win i) <;> simp
  · cases sv.watching P.ownerWin (P.win i) <;> simp [habout]

theorem look_change_ne (h : P.Sound sv clear) (hji : j ≠ i) (p : Option Property)
    (ps : PropertyState) :
    P.look (sv.change (P.win i) xclipOutProperty p ps) j = P.look sv j := by
  have hwin : P.win j ≠ P.win i := fun h => hji (P.win_inj h)
  have hwatch : sv.watching (P.win j) (P.win i) = false := by
    rw [Bool.eq_false_iff]
    intro hw
    rcases h.watch i _ hw with h1 | h1
    · exact hwin h1
    · exact P.win_ne j h1
  have habout : P.about j (.propertyNotify (P.win i) xclipOutProperty ps) = false :=
    about_ne rfl hji
  unfold look Server.change
  simp only [Function.update_of_ne hwin, hwatch]
  congr 1
  cases sv.watching P.ownerWin (P.win i) <;> simp [habout]

theorem sound_change (h : P.Sound sv clear) (p : Option Property) (ps : PropertyState) :
    P.Sound (sv.change (P.win i) xclipOutProperty p ps) clear where
  known := by
    intro e he
    simp only [Server.change] at he
    split at he
    · rcases List.mem_append.mp he with he | he
      · exact h.known e he
      · rw [List.mem_singleton.mp he]
        exact .inr ⟨i, rfl⟩
    · exact h.known e he
  ordered := by
    simp only [Server.change]
    split
    · exact h.ordered.append fun h => h.elim id id
    · exact h.ordered
  owned := h.owned
  kept howner := by
    refine ⟨(h.kept howner).1, fun hmem => ?_⟩
    simp only [Server.change] at hmem
    split at hmem
    · rcases List.mem_append.mp hmem with hmem | hmem
      · exact (h.kept howner).2 hmem
      · cases List.mem_singleton.mp hmem
    · exact (h.kept howner).2 hmem
  watch := h.watch

/-- An event for the process itself. -/
theorem look_post (e : XEvent) : P.look (sv.post (P.win i) e) i =
    { P.look sv i with queue := (P.look sv i).queue ++ [e] } := by
  unfold look Server.post
  simp only [Function.update_self, Function.update_of_ne (P.win_ne i).symm]

theorem look_post_ne (hji : j ≠ i) (e : XEvent) :
    P.look (sv.post (P.win i) e) j = P.look sv j := by
  unfold look Server.post
  simp only [Function.update_of_ne fun h => hji (P.win_inj h),
    Function.update_of_ne (P.win_ne i).symm]

theorem sound_queue (h : P.Sound sv clear) (q : List XEvent) :
    P.Sound (sv.took (P.win i) q) clear where
  known := by
    simp only [Server.took, Function.update_of_ne (P.win_ne i).symm]
    exact h.known
  ordered := by
    simp only [Server.took, Function.update_of_ne (P.win_ne i).symm]
    exact h.ordered
  owned := h.owned
  kept := by
    simp only [Server.took, Function.update_of_ne (P.win_ne i).symm]
    exact h.kept
  watch := h.watch

/-- A process takes its next event. -/
theorem look_take (q : List XEvent) :
    P.look (sv.took (P.win i) q) i = { P.look sv i with queue := q } := by
  unfold look Server.took
  simp only [Function.update_self, Function.update_of_ne (P.win_ne i).symm]

theorem look_take_ne (hji : j ≠ i) (q : List XEvent) :
    P.look (sv.took (P.win i) q) j = P.look sv j := by
  unfold look Server.took
  simp only [Function.update_of_ne fun h => hji (P.win_inj h),
    Function.update_of_ne (P.win_ne i).symm]

/-- The event that asks the owner for the selection. -/
def request (P : Scene ι) (i : ι) (target : Atom) : XEvent :=
  .selectionRequest (P.win i) xaClipboard target xclipOutProperty

/-- Nothing that is there tells the owner that it has lost the selection. -/
theorem Sound.no_clear (h : P.Sound sv clear) (howner : sv.owner xaClipboard = some P.ownerWin) :
    ∀ e ∈ sv.queue P.ownerWin, ¬ IsClear e := by
  intro e he hc
  rcases h.known e he with rfl | ⟨i, hw⟩
  · exact (h.kept howner).2 he
  · cases e with
    | selectionClear => cases hw
    | _ => exact hc

theorem Sound.ordered_owned (h : P.Sound sv clear)
    (howner : sv.owner xaClipboard = some P.ownerWin) (e : XEvent) :
    Ordered clear (sv.queue P.ownerWin ++ [e]) := by
  have hordered := h.ordered
  rw [(h.kept howner).1] at hordered ⊢
  exact hordered.append_owned (h.no_clear howner)

theorem look_request (target : Atom) : P.look (sv.post P.ownerWin (P.request i target)) i =
    { P.look sv i with asks := (P.look sv i).asks ++ [P.request i target] } := by
  have habout : P.about i (P.request i target) = true := about_eq_true.mpr rfl
  unfold look Server.post
  simp only [Function.update_self, Function.update_of_ne (P.win_ne i)]
  simp [habout]

theorem look_request_ne (hji : j ≠ i) (target : Atom) :
    P.look (sv.post P.ownerWin (P.request i target)) j = P.look sv j := by
  have habout : P.about j (P.request i target) = false := about_ne rfl hji
  unfold look Server.post
  simp only [Function.update_self, Function.update_of_ne (P.win_ne j)]
  simp [habout]

theorem sound_request (h : P.Sound sv clear) (howner : sv.owner xaClipboard = some P.ownerWin)
    (target : Atom) : P.Sound (sv.post P.ownerWin (P.request i target)) clear where
  known := by
    intro e he
    simp only [Server.post, Function.update_self] at he
    rcases List.mem_append.mp he with he | he
    · exact h.known e he
    · rw [List.mem_singleton.mp he]
      exact .inr ⟨i, rfl⟩
  ordered := by
    simp only [Server.post, Function.update_self]
    exact h.ordered_owned howner _
  owned := h.owned
  kept _ := by
    refine ⟨(h.kept howner).1, fun hmem => ?_⟩
    simp only [Server.post, Function.update_self] at hmem
    rcases List.mem_append.mp hmem with hmem | hmem
    · exact (h.kept howner).2 hmem
    · cases List.mem_singleton.mp hmem
  watch := h.watch

/-- The owner takes its next event. -/
theorem look_owner {e : XEvent} {q : List XEvent} (hq : sv.queue P.ownerWin = e :: q) :
    (P.look sv j).asks = if P.about j e then
        e :: (P.look (sv.took P.ownerWin q) j).asks
      else (P.look (sv.took P.ownerWin q) j).asks := by
  unfold look Server.took
  simp only [Function.update_self, hq, List.filter_cons]

theorem look_owner_eq (q : List XEvent) :
    P.look (sv.took P.ownerWin q) j =
      { P.look sv j with asks := (P.look (sv.took P.ownerWin q) j).asks } := by
  unfold look Server.took
  simp only [Function.update_of_ne (P.win_ne j)]

theorem sound_owner (h : P.Sound sv clear) {e : XEvent} {q : List XEvent}
    (hq : sv.queue P.ownerWin = e :: q) :
    P.Sound (sv.took P.ownerWin q) (clear || decide (IsClear e)) where
  known := by
    simp only [Server.took, Function.update_self]
    intro e' he'
    exact h.known e' (hq ▸ List.mem_cons_of_mem _ he')
  ordered := by
    have := h.ordered
    rw [hq] at this
    simp only [Server.took, Function.update_self]
    exact this.2
  owned := h.owned
  kept howner := by
    obtain ⟨hclear, hnot⟩ := h.kept howner
    rw [hq, List.mem_cons, not_or] at hnot
    simp only [Server.took, Function.update_self]
    refine ⟨?_, hnot.2⟩
    rw [hclear, Bool.false_or, decide_eq_false_iff_not]
    exact h.no_clear howner e (hq ▸ List.mem_cons_self)
  watch := h.watch

/-- A client asks to be told about changes of the properties of a window. -/
theorem look_select :
    P.look (sv.watch (P.win i) (P.win i)) i = { P.look sv i with selected := true } := by
  unfold look Server.watch
  simp only [Function.update_self, Function.update_of_ne (P.win_ne i).symm]

theorem look_select_ne (hji : j ≠ i) :
    P.look (sv.watch (P.win i) (P.win i)) j = P.look sv j := by
  unfold look Server.watch
  simp only [Function.update_of_ne fun h => hji (P.win_inj h),
    Function.update_of_ne (P.win_ne i).symm]

theorem look_watch :
    P.look (sv.watch P.ownerWin (P.win i)) i = { P.look sv i with watched := true } := by
  unfold look Server.watch
  simp only [Function.update_self, Function.update_of_ne (P.win_ne i)]

theorem look_watch_ne (hji : j ≠ i) :
    P.look (sv.watch P.ownerWin (P.win i)) j = P.look sv j := by
  unfold look Server.watch
  simp only [Function.update_self, Function.update_of_ne (P.win_ne j),
    Function.update_of_ne fun h => hji (P.win_inj h)]

theorem sound_watch (h : P.Sound sv clear) {c : Window} (hc : c = P.win i ∨ c = P.ownerWin) :
    P.Sound (sv.watch c (P.win i)) clear where
  known := h.known
  ordered := h.ordered
  owned := h.owned
  kept := h.kept
  watch k c' hw := by
    by_cases hcc : c' = c
    · subst hcc
      simp only [Server.watch, Function.update_self] at hw
      by_cases hk : P.win k = P.win i
      · rwa [hk]
      · rw [Function.update_of_ne hk] at hw
        exact h.watch k c' hw
    · simp only [Server.watch, Function.update_of_ne hcc] at hw
      exact h.watch k c' hw

/-- Another client takes the clipboard away. -/
theorem own_none (howner : sv.owner xaClipboard = some P.ownerWin) :
    sv.own xaClipboard none = sv.clear xaClipboard P.ownerWin := by
  unfold Server.own Server.clear Server.post
  simp [howner]

theorem clear_owner : (sv.clear xaClipboard P.ownerWin).owner xaClipboard = none := by
  simp [Server.clear, Server.post]

theorem look_clear : P.look (sv.clear xaClipboard P.ownerWin) j = P.look sv j := by
  unfold look Server.clear Server.post
  simp only [Function.update_self, Function.update_of_ne (P.win_ne j), List.filter_append]
  simp [about, window]

theorem sound_clear (h : P.Sound sv clear) (howner : sv.owner xaClipboard = some P.ownerWin) :
    P.Sound (sv.clear xaClipboard P.ownerWin) clear where
  known := by
    intro e he
    simp only [Server.clear, Server.post, Function.update_self] at he
    rcases List.mem_append.mp he with he | he
    · exact h.known e he
    · exact .inl (List.mem_singleton.mp he)
  ordered := by
    simp only [Server.clear, Server.post, Function.update_self]
    exact h.ordered_owned howner _
  owned := .inr clear_owner
  kept howner := nomatch clear_owner.symm.trans howner
  watch := h.watch

end Scene

end ClipShare
