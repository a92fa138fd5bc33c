import ClipShare.Server.Selections

namespace ClipShare

open Interaction X11
open Posix (Bytes)

/-!
# The rounds of `doIn` and `doOut`

What the processes at a clipboard do about an event, as the requests that they issue.

* `Scene.handle`, `issue` — the owner takes an event, and issues requests that nobody answers;
* `Scene.react` — a process that wants the clipboard takes an event;
* `chunk_eq` — the chunks, by their positions in the text.
-/

variable {ι : Type} {P : Scene ι} {i : ι}

/-! ### The owner -/

/-- Requests whose answers do not matter, and a program after them. -/
def issue {α : Type} : List Request → XProg α → XProg α
  | [], p => p
  | c :: cs, p => .call c fun _ => issue cs p

namespace Scene

/-- The text is handed over in chunks. -/
def Chunked (P : Scene ι) (requested : Atom) : Prop :=
  requested ≠ xaTargets ∧ P.dpy.chunkSize < P.text.length

instance (P : Scene ι) (requested : Atom) : Decidable (P.Chunked requested) :=
  inferInstanceAs (Decidable (_ ∧ _))

/-- The property that a request is answered with. -/
def answer (P : Scene ι) (requested : Atom) : Property :=
  if requested = xaTargets then ⟨xaAtom, .atoms [xaTargets, P.target]⟩
  else if P.dpy.chunkSize < P.text.length then ⟨xaIncr, .atoms []⟩
  else ⟨P.target, .bytes P.text⟩

/-- The chunk at a position of the text. -/
def chunk (P : Scene ι) (pos : Nat) : Property :=
  ⟨P.target, .bytes ((P.text.drop pos).take P.dpy.chunkSize)⟩

/-- The requests that answer a request for the selection. -/
def answering (P : Scene ι) (w : Window) (sel requested pty : Atom) : List Request :=
  .changeProperty w pty (P.answer requested) ::
    ((if P.Chunked requested then [.selectInput w] else []) ++
      [.sendEvent w (.selectionNotify w sel requested (some pty))])

/-- What the owner keeps of a request for the selection. -/
def accept (P : Scene ι) (st : Transfer) (w : Window) (requested pty : Atom) : Transfer :=
  { st with
    win := w
    pty := pty
    pos := 0
    context := if P.Chunked requested then .incr else .none }

/-- What the owner keeps of a chunk. -/
def proceed (P : Scene ι) (st : Transfer) : Transfer :=
  { st with
    context := if P.text.length ≤ st.pos then .none else .incr
    pos := st.pos + P.dpy.chunkSize }

/-- A round ends the process if no transfer is going on and the clipboard belongs to another
    client. -/
def ending (st : Transfer) : Transfer ⊕ Status :=
  if st.context = .none ∧ st.clear = true then .inr .success else .inl st

/-- The owner remembers that it has lost the clipboard. -/
def noteClear (e : XEvent) (st : Transfer) : Transfer :=
  match e with
  | .selectionClear _ => { st with clear := true }
  | _ => st

/-- A round of the owner after it has taken an event. -/
def handle (P : Scene ι) (st : Transfer) (e : XEvent) : XProg (Transfer ⊕ Status) := do
  let r ← xcin P.dpy e P.target P.text st
  return ending (noteClear e r.1)

theorem ownerRound_eq (st : Transfer) : P.ownerRound st = .call .nextEvent (P.handle st) := by
  have hend : ∀ st : Transfer, (if st.context = .none ∧ st.clear = true then
      (.ret (.inr .success) : XProg (Transfer ⊕ Status)) else .ret (.inl st)) =
        .ret (ending st) := by
    intro st
    unfold ending
    split <;> rfl
  have hnext : (fun e => do
      let r ← xcin P.dpy e P.target P.text st
      let st := match e with
        | .selectionClear _ => { r.1 with clear := true }
        | _ => r.1
      if st.context = .none ∧ st.clear = true then return .inr .success
      return .inl st) = P.handle st := by
    funext e
    unfold handle
    congr 1
    funext r
    cases e <;> exact hend _
  exact congrArg (Prog.call (S := Requests) .nextEvent) hnext

end Scene

/-- Nothing is left of the text exactly from its end on. -/
theorem chunkLen_eq_zero (c len pos : Nat) (hc : 0 < c) : chunkLen c len pos = 0 ↔ len ≤ pos := by
  unfold chunkLen
  split
  · omega
  · split <;> omega

/-- The chunks, by their positions. -/
theorem chunk_eq (c pos : Nat) (txt : Bytes) :
    (txt.drop pos).take (chunkLen c txt.length pos) = (txt.drop pos).take c := by
  unfold chunkLen
  split
  · rename_i h
    rw [List.drop_of_length_le h.le, List.take_nil, List.take_nil]
  · split
    · rename_i h1 h2
      rw [List.take_of_length_le (by simp), List.take_of_length_le (by simp; omega)]
    · rfl

namespace Scene

/-- A request is answered if no transfer is going on. -/
theorem handle_request {st : Transfer} (hst : st.context = .none) (w : Window)
    (sel requested pty : Atom) :
    P.handle st (.selectionRequest w sel requested pty)
      = issue (P.answering w sel requested pty) (.ret (ending (P.accept st w requested pty))) := by
  have haccept : P.accept st w requested pty = ⟨st.clear,
      if P.Chunked requested then .incr else .none, 0, w, pty⟩ := rfl
  rw [haccept]
  unfold handle xcin answering answer Chunked
  rw [hst]
  by_cases ht : requested = xaTargets
  · simp only [ht, if_true, ne_eq, not_true, false_and, if_false]
    rfl
  · by_cases hc : P.dpy.chunkSize < P.text.length
    · simp only [ht, hc, if_true, ne_eq, not_false_eq_true, and_self, if_false]
      rfl
    · simp only [ht, hc, ne_eq, not_false_eq_true, and_false, if_false]
      rfl

/-- The deletion of a property asks for the next chunk if a transfer is going on. -/
theorem handle_deleted {st : Transfer} (hst : st.context = .incr) (hc : 0 < P.dpy.chunkSize)
    (w : Window) (a : Atom) :
    P.handle st (.propertyNotify w a .deleted)
      = issue [.changeProperty st.win st.pty (P.chunk st.pos)] (.ret (ending (P.proceed st))) := by
  unfold handle xcin chunk proceed
  rw [hst]
  simp only [chunkLen_eq_zero _ _ _ hc, chunk_eq]
  rfl

/-- The owner is told that it has lost the selection. -/
theorem handle_clear (st : Transfer) (sel : Atom) :
    P.handle st (.selectionClear sel) = .ret (ending { st with clear := true }) := by
  obtain ⟨clear, context, pos, win, pty⟩ := st
  cases context <;> rfl

/-- Any other event is ignored. -/
theorem handle_newValue (st : Transfer) (w : Window) (a : Atom) :
    P.handle st (.propertyNotify w a .newValue) = .ret (ending st) := by
  obtain ⟨clear, context, pos, win, pty⟩ := st
  cases context <;> rfl

theorem handle_deleted_none {st : Transfer} (hst : st.context = .none) (w : Window) (a : Atom) :
    P.handle st (.propertyNotify w a .deleted) = .ret (ending st) := by
  unfold handle xcin
  rw [hst]
  rfl

theorem handle_request_incr {st : Transfer} (hst : st.context = .incr) (w : Window)
    (sel requested pty : Atom) :
    P.handle st (.selectionRequest w sel requested pty) = .ret (ending st) := by
  unfold handle xcin
  rw [hst]
  rfl

/-! ### The processes that want the clipboard -/

/-- A round after it has taken an event. -/
def react (P : Scene ι) (i : ι) (st : Retrieval) (e : XEvent) : XProg (Retrieval ⊕ Output) := do
  let r ← xcout P.cfg (P.win i) (some e) xaClipboard st
  doOutNext P.cfg P.junk (P.name i == some xaTargets) r.1

/-- The end of a retrieval, with the data that it has got. -/
def finish (P : Scene ι) (i : ι) (st : Retrieval) : XProg (Retrieval ⊕ Output) :=
  doOutNext P.cfg P.junk (P.name i == some xaTargets) { st with context := .none }

/-- A property has been read that is the whole selection. -/
def gotWhole (P : Scene ι) (i : ι) (st : Retrieval) (data : PropertyReply) :
    XProg (Retrieval ⊕ Output) :=
  .call (.deleteProperty (P.win i) xclipOutProperty) fun _ => do
    if 0 < machSize data.value.items then xcmalloc P.cfg (machSize data.value.items)
    P.finish i { st with type := data.type, txt := data.value.items }

/-- The type and the size of the property are known. -/
def gotSize (P : Scene ι) (i : ι) (st : Retrieval) (size : PropertyReply) :
    XProg (Retrieval ⊕ Output) :=
  if size.type = some xaIncr then
    .call (.deleteProperty (P.win i) xclipOutProperty) fun _ =>
      doOutNext P.cfg P.junk (P.name i == some xaTargets)
        { st with type := size.type, context := .incr }
  else .call (.getWindowProperty (P.win i) xclipOutProperty size.bytesAfter) (P.gotWhole i st)

/-- A chunk has been read. -/
def gotChunk (P : Scene ι) (i : ι) (st : Retrieval) (data : PropertyReply) :
    XProg (Retrieval ⊕ Output) := do
  if 0 < machSize data.value.items then
    checkSize P.cfg (machSize st.txt + machSize data.value.items)
  .call (.deleteProperty (P.win i) xclipOutProperty) fun _ =>
    doOutNext P.cfg P.junk (P.name i == some xaTargets)
      { st with type := data.type, txt := st.txt ++ data.value.items }

/-- The size of a chunk is known. -/
def gotChunkSize (P : Scene ι) (i : ι) (st : Retrieval) (size : PropertyReply) :
    XProg (Retrieval ⊕ Output) :=
  if size.bytesAfter = 0 then
    .call (.deleteProperty (P.win i) xclipOutProperty) fun _ =>
      P.finish i { st with type := size.type }
  else .call (.getWindowProperty (P.win i) xclipOutProperty size.bytesAfter) (P.gotChunk i st)

theorem requestorRound_ask {v : Retrieval} (hst : v.context = .none) (hty : v.type = none) :
    P.requestorRound i v =
      .call (.convertSelection xaClipboard v.target xclipOutProperty (P.win i)) fun _ =>
        .ret (.inl { v with txt := [], context := .sentConvSel }) := by
  obtain ⟨target, type, txt, context⟩ := v
  cases hst
  cases hty
  refine congrArg (Prog.call (S := Requests) _) (funext fun _ => ?_)
  show doOutNext P.cfg P.junk _ _ = _
  unfold doOutNext
  simp

theorem requestorRound_wait {v : Retrieval} (hst : v.context ≠ .none) :
    P.requestorRound i v = .call .nextEvent (P.react i v) := by
  unfold requestorRound doOutRound
  rw [if_neg hst]
  rfl

theorem react_notify {st : Retrieval} (hst : st.context = .sentConvSel) (w : Window)
    (sel target pty : Atom) :
    P.react i st (.selectionNotify w sel target (some pty))
      = .call (.getWindowProperty (P.win i) xclipOutProperty 0) (P.gotSize i st) := by
  unfold react xcout
  rw [hst]
  refine congrArg (Prog.call (S := Requests) _) (funext fun size => ?_)
  show ((if size.type = some xaIncr then _ else _ : XProg (Retrieval × Bool)) >>= _) = _
  unfold gotSize
  by_cases h : size.type = some xaIncr
  · rw [if_pos h, if_pos h]
    rfl
  · rw [if_neg h, if_neg h]
    refine congrArg (Prog.call (S := Requests) _) (funext fun data => ?_)
    refine congrArg (Prog.call (S := Requests) _) (funext fun _ => ?_)
    show ((if 0 < machSize data.value.items then _ else _ : XProg (Retrieval × Bool)) >>= _)
      = if 0 < machSize data.value.items then _ else _
    split
    · exact Prog.bind_assoc _ _ _
    · rfl

theorem react_chunk {st : Retrieval} (hst : st.context = .incr) (w : Window) (a : Atom) :
    P.react i st (.propertyNotify w a .newValue)
      = .call (.getWindowProperty (P.win i) xclipOutProperty 0) (P.gotChunkSize i st) := by
  obtain ⟨target, type, txt, context⟩ := st
  cases hst
  unfold react xcout
  refine congrArg (Prog.call (S := Requests) _) (funext fun size => ?_)
  show ((if size.bytesAfter = 0 then _ else _ : XProg (Retrieval × Bool)) >>= _) = _
  unfold gotChunkSize
  by_cases h : size.bytesAfter = 0
  · rw [if_pos h, if_pos h]
    rfl
  · rw [if_neg h, if_neg h]
    refine congrArg (Prog.call (S := Requests) _) (funext fun data => ?_)
    show ((if 0 < machSize data.value.items then _ else _ : XProg (Retrieval × Bool)) >>= _)
      = if 0 < machSize data.value.items then _ else _
    split
    · by_cases h0 : machSize txt = 0
      · simp only [h0, if_true, Nat.zero_add]
        exact Prog.bind_assoc _ _ _
      · simp only [h0, if_false]
        exact Prog.bind_assoc _ _ _
    · rfl

/-- A round that goes on. -/
theorem doOutNext_inl {st : Retrieval} (hst : st.context = .sentConvSel ∨ st.context = .incr)
    {isTargets : Bool} (hty : ¬ (isTargets = true ∧ st.type = some xaAtom)) :
    doOutNext P.cfg P.junk isTargets st = .ret (.inl st) := by
  unfold doOutNext
  rcases hst with hst | hst <;> simp [hst, hty]

/-- An event that tells nothing new. -/
theorem react_propertyNotify {st : Retrieval} (hst : st.context = .sentConvSel)
    (hty : ¬ ((P.name i == some xaTargets) = true ∧ st.type = some xaAtom)) (w : Window)
    (a : Atom) (ps : PropertyState) :
    P.react i st (.propertyNotify w a ps) = .ret (.inl st) := by
  have hround : P.react i st (.propertyNotify w a ps)
      = doOutNext P.cfg P.junk (P.name i == some xaTargets) st := by
    unfold react xcout
    rw [hst]
    rfl
  rw [hround, doOutNext_inl (.inl hst) hty]

theorem react_deleted {st : Retrieval} (hst : st.context = .incr)
    (hty : ¬ ((P.name i == some xaTargets) = true ∧ st.type = some xaAtom)) (w : Window)
    (a : Atom) : P.react i st (.propertyNotify w a .deleted) = .ret (.inl st) := by
  have hround : P.react i st (.propertyNotify w a .deleted)
      = doOutNext P.cfg P.junk (P.name i == some xaTargets) st := by
    unfold react xcout
    rw [hst]
    rfl
  rw [hround, doOutNext_inl (.inr hst) hty]

/-- The selection is refused: `UTF8_STRING` is followed by `STRING`. -/
theorem react_refused {st : Retrieval} (hst : st.context = .sentConvSel) (hty : st.type = none)
    (w : Window) (sel target : Atom) :
    P.react i st (.selectionNotify w sel target none)
      = if st.target = xaUtf8String then
          .ret (.inl { st with context := .none, target := xaString })
        else .ret (.inr .failed) := by
  have hround : P.react i st (.selectionNotify w sel target none)
      = doOutNext P.cfg P.junk (P.name i == some xaTargets) { st with context := .badTarget } := by
    unfold react xcout
    rw [hst]
    rfl
  rw [hround]
  unfold doOutNext
  simp [hty]

end Scene

end ClipShare
