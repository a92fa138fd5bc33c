import ClipShare.Interaction.Rounds
import ClipShare.Posix.Strings

namespace X11

open Interaction
open Posix (Bytes ascii)

/-!
# The part of the X protocol that selections use

The clients of an X server hand data over in properties of windows, and tell each other about it
with events.  Every client here has one window, by which it is known.

* `Atom`, `Item`, `PropertyData`, `Property` — what a property holds;
* `XEvent` — the events that matter to selections;
* `Server` — what clients find out about the state of a server: properties, the queues of events
  that clients have not taken yet, who is told about changes of properties, and the owners of
  selections;
* `XServer`, `XServer.Documented` — a server, and what is documented about its requests.  They take
  effect in the order in which a client issues them; only a client that asks for its next event may
  have to wait;
* `serve`, `XServer.plain` — the server that has no other state;
* `Documented.serve_view` — every server looks like that one.
-/

/-- An atom is known by the name that was interned for it. -/
abbrev Atom := Bytes

/-- The identifier of a window. -/
abbrev Window := Nat

/-! ### Names that are interned already -/

def xaAtom : Atom := ascii "ATOM"
def xaString : Atom := ascii "STRING"
def xaUtf8String : Atom := ascii "UTF8_STRING"
def xaClipboard : Atom := ascii "CLIPBOARD"
def xaTargets : Atom := ascii "TARGETS"
def xaIncr : Atom := ascii "INCR"

/-! ### Properties -/

/-- An element of a property, as a client holds it in memory: a byte (format 8) or an atom
    (format 32). -/
inductive Item
  | char (b : UInt8)
  | long (a : Atom)
  deriving DecidableEq

/-- The bytes that an element takes in memory. -/
def Item.size : Item → Nat
  | .char _ => 1
  | .long _ => 8

/-- The bytes that elements take in memory. -/
def machSize (items : List Item) : Nat := (items.map Item.size).sum

/-- The data of a property. -/
inductive PropertyData
  | bytes (data : Bytes)
  | atoms (list : List Atom)
  deriving DecidableEq

namespace PropertyData

/-- The elements. -/
def items : PropertyData → List Item
  | bytes data => data.map .char
  | atoms list => list.map .long

/-- The bytes that the data takes at the server. -/
def size : PropertyData → Nat
  | bytes data => data.length
  | atoms list => 4 * list.length

/-- The first `n` units of four bytes. -/
def take (n : Nat) : PropertyData → PropertyData
  | bytes data => bytes (data.take (4 * n))
  | atoms list => atoms (list.take n)

end PropertyData

/-- A property of a window. -/
structure Property where
  type : Atom
  value : PropertyData
  deriving DecidableEq

/-- What happened to a property. -/
inductive PropertyState
  | newValue
  | deleted
  deriving DecidableEq

/-- Events. -/
inductive XEvent
  | selectionRequest (requestor : Window) (selection target property : Atom)
  | selectionNotify (requestor : Window) (selection target : Atom) (property : Option Atom)
  | selectionClear (selection : Atom)
  | propertyNotify (window : Window) (atom : Atom) (state : PropertyState)
  deriving DecidableEq

/-- What `XGetWindowProperty` returns: the type, the data that was asked for, and how many bytes of
    the property come after it. -/
structure PropertyReply where
  type : Option Atom
  value : PropertyData
  bytesAfter : Nat
  deriving DecidableEq

/-- The answer about a property, if there is one, of which at most `length` units are returned. -/
def PropertyReply.of (length : Nat) : Option Property → PropertyReply
  | none => ⟨none, .bytes [], 0⟩
  | some p => ⟨some p.type, p.value.take length, p.value.size - 4 * length⟩

/-! ### Requests -/

/-- The requests of a client. -/
inductive Request
  | selectInput (w : Window)
  | setSelectionOwner (selection : Atom) (w : Option Window)
  | convertSelection (selection target property : Atom) (requestor : Window)
  | changeProperty (w : Window) (property : Atom) (p : Property)
  | deleteProperty (w : Window) (property : Atom)
  | getWindowProperty (w : Window) (property : Atom) (length : Nat)
  | sendEvent (w : Window) (e : XEvent)
  | nextEvent

/-- What a request returns. -/
def Request.Resp : Request → Type
  | .getWindowProperty _ _ _ => PropertyReply
  | .nextEvent => XEvent
  | .selectInput _ | .setSelectionOwner _ _ | .convertSelection _ _ _ _ | .changeProperty _ _ _
  | .deleteProperty _ _ | .sendEvent _ _ => Unit

/-- The signature of X clients. -/
abbrev Requests : Sig := ⟨Request, Request.Resp⟩

/-- A program of an X client. -/
abbrev XProg := Prog Requests

/-- `XSelectInput` with `PropertyChangeMask`. -/
def selectInput (w : Window) : XProg Unit := Prog.ask (S := Requests) (.selectInput w) id

/-- `XSetSelectionOwner`. -/
def setSelectionOwner (selection : Atom) (w : Window) : XProg Unit :=
  Prog.ask (S := Requests) (.setSelectionOwner selection (some w)) id

/-- `XConvertSelection`. -/
def convertSelection (selection target property : Atom) (requestor : Window) : XProg Unit :=
  Prog.ask (S := Requests) (.convertSelection selection target property requestor) id

/-- `XChangeProperty` with `PropModeReplace`. -/
def changeProperty (w : Window) (property : Atom) (p : Property) : XProg Unit :=
  Prog.ask (S := Requests) (.changeProperty w property p) id

/-- `XDeleteProperty`. -/
def deleteProperty (w : Window) (property : Atom) : XProg Unit :=
  Prog.ask (S := Requests) (.deleteProperty w property) id

/-- `XGetWindowProperty` from offset 0, for any type, without deleting the property. -/
def getWindowProperty (w : Window) (property : Atom) (length : Nat) : XProg PropertyReply :=
  Prog.ask (S := Requests) (.getWindowProperty w property length) id

/-- `XSendEvent` to the client that made the window. -/
def sendEvent (w : Window) (e : XEvent) : XProg Unit := Prog.ask (S := Requests) (.sendEvent w e) id

/-- `XNextEvent`. -/
def nextEvent : XProg XEvent := Prog.ask (S := Requests) .nextEvent id

section Bind

variable {α : Type} (w : Window) (sel target a : Atom)

@[simp] theorem selectInput_bind (f : Unit → XProg α) :
    (selectInput w >>= f) = .call (.selectInput w) f := rfl
@[simp] theorem setSelectionOwner_bind (f : Unit → XProg α) :
    (setSelectionOwner sel w >>= f) = .call (.setSelectionOwner sel (some w)) f := rfl
@[simp] theorem convertSelection_bind (f : Unit → XProg α) :
    (convertSelection sel target a w >>= f) = .call (.convertSelection sel target a w) f := rfl
@[simp] theorem changeProperty_bind (p : Property) (f : Unit → XProg α) :
    (changeProperty w a p >>= f) = .call (.changeProperty w a p) f := rfl
@[simp] theorem deleteProperty_bind (f : Unit → XProg α) :
    (deleteProperty w a >>= f) = .call (.deleteProperty w a) f := rfl
@[simp] theorem getWindowProperty_bind (length : Nat) (f : PropertyReply → XProg α) :
    (getWindowProperty w a length >>= f) = .call (.getWindowProperty w a length) f := rfl
@[simp] theorem sendEvent_bind (e : XEvent) (f : Unit → XProg α) :
    (sendEvent w e >>= f) = .call (.sendEvent w e) f := rfl
@[simp] theorem nextEvent_bind (f : XEvent → XProg α) :
    (nextEvent >>= f) = .call .nextEvent f := rfl

end Bind

/-! ### What there is to know of a server -/

/-- The state of a server, as far as selections are concerned. -/
structure Server where
  property : Window → Atom → Option Property
  queue : Window → List XEvent
  /-- Is the client told when a property of the window changes? -/
  watching : Window → Window → Bool
  owner : Atom → Option Window

namespace Server

/-- No properties, no events and no owners. -/
def empty : Server := ⟨fun _ _ => none, fun _ => [], fun _ _ => false, fun _ => none⟩

variable (s : Server)

/-- An event for one client. -/
def post (c : Window) (e : XEvent) : Server :=
  { s with queue := Function.update s.queue c (s.queue c ++ [e]) }

/-- A change of a property, and the event for those who are told about it. -/
def change (w : Window) (a : Atom) (p : Option Property) (st : PropertyState) : Server :=
  { s with
    property := Function.update s.property w (Function.update (s.property w) a p)
    queue := fun c =>
      if s.watching c w then s.queue c ++ [.propertyNotify w a st] else s.queue c }

/-- A client loses a selection. -/
def clear (selection : Atom) (c : Window) : Server :=
  ({ s with owner := Function.update s.owner selection none }).post c (.selectionClear selection)

/-- A selection gets a new owner, or none; the one that it had is told about it. -/
def own (selection : Atom) (w : Option Window) : Server :=
  let s' := match s.owner selection with
    | none => s
    | some c => if w = some c then s else s.clear selection c
  { s' with owner := Function.update s'.owner selection w }

/-- A client is told about changes of the properties of a window. -/
def watch (me w : Window) : Server :=
  { s with watching := Function.update s.watching me (Function.update (s.watching me) w true) }

/-- A client has taken its next event. -/
def took (me : Window) (q : List XEvent) : Server :=
  { s with queue := Function.update s.queue me q }

variable {s} {selection : Atom} {w : Option Window}

theorem own_property : (s.own selection w).property = s.property := by
  unfold own
  split
  · rfl
  · dsimp only
    split <;> rfl

theorem own_watching : (s.own selection w).watching = s.watching := by
  unfold own
  split
  · rfl
  · dsimp only
    split <;> rfl

theorem own_owner : (s.own selection w).owner selection = w := Function.update_self _ _ _

/-- Only the client that loses the selection is told about it. -/
theorem own_queue {c : Window} (h : s.owner selection = some c → w = some c) :
    (s.own selection w).queue c = s.queue c := by
  unfold own
  cases howner : s.owner selection with
  | none => rfl
  | some c' =>
    dsimp only
    split
    · rfl
    · rename_i hne
      have hc : c ≠ c' := fun hc => hne (hc ▸ h (hc ▸ howner))
      exact Function.update_of_ne hc _ _

end Server

/-! ### Servers -/

/-- An X server: its states, what it does with the requests of a client, and what there is to know
    of a state. -/
structure XServer where
  State : Type
  serve : Window → Waiting Requests State
  view : State → Server

/-- What is documented about the requests. -/
structure XServer.Documented (X : XServer) : Prop where
  selectInput : ∀ me w s, ∃ s', X.serve me (.selectInput w) s = some ((), s') ∧
    X.view s' = (X.view s).watch me w
  setSelectionOwner : ∀ me sel w s, ∃ s', X.serve me (.setSelectionOwner sel w) s = some ((), s') ∧
    X.view s' = (X.view s).own sel w
  /-- The owner is asked for the selection. -/
  convertSelection : ∀ me sel target a w s c, (X.view s).owner sel = some c →
    ∃ s', X.serve me (.convertSelection sel target a w) s = some ((), s') ∧
      X.view s' = (X.view s).post c (.selectionRequest w sel target a)
  /-- Without an owner the server refuses. -/
  convertSelection_none : ∀ me sel target a w s, (X.view s).owner sel = none →
    ∃ s', X.serve me (.convertSelection sel target a w) s = some ((), s') ∧
      X.view s' = (X.view s).post w (.selectionNotify w sel target none)
  changeProperty : ∀ me w a p s, ∃ s', X.serve me (.changeProperty w a p) s = some ((), s') ∧
    X.view s' = (X.view s).change w a (some p) .newValue
  deleteProperty : ∀ me w a s p, (X.view s).property w a = some p →
    ∃ s', X.serve me (.deleteProperty w a) s = some ((), s') ∧
      X.view s' = (X.view s).change w a none .deleted
  deleteProperty_none : ∀ me w a s, (X.view s).property w a = none →
    ∃ s', X.serve me (.deleteProperty w a) s = some ((), s') ∧ X.view s' = X.view s
  getWindowProperty : ∀ me w a length s, ∃ s',
    X.serve me (.getWindowProperty w a length) s =
      some (PropertyReply.of length ((X.view s).property w a), s') ∧ X.view s' = X.view s
  sendEvent : ∀ me w e s, ∃ s', X.serve me (.sendEvent w e) s = some ((), s') ∧
    X.view s' = (X.view s).post w e
  nextEvent : ∀ me s e q, (X.view s).queue me = e :: q →
    ∃ s', X.serve me .nextEvent s = some (e, s') ∧ X.view s' = (X.view s).took me q
  /-- A client without an event has to wait for one. -/
  nextEvent_nil : ∀ me s, (X.view s).queue me = [] → X.serve me .nextEvent s = none

/-- A server that does just that: the requests of the client `me`. -/
def serve (me : Window) : Waiting Requests Server
  | .selectInput w, s => some ((), s.watch me w)
  | .setSelectionOwner selection w, s => some ((), s.own selection w)
  | .convertSelection selection target property requestor, s =>
      match s.owner selection with
      | some c => some ((), s.post c (.selectionRequest requestor selection target property))
      | none => some ((), s.post requestor (.selectionNotify requestor selection target none))
  | .changeProperty w a p, s => some ((), s.change w a (some p) .newValue)
  | .deleteProperty w a, s =>
      match s.property w a with
      | some _ => some ((), s.change w a none .deleted)
      | none => some ((), s)
  | .getWindowProperty w a length, s => some (PropertyReply.of length (s.property w a), s)
  | .sendEvent w e, s => some ((), s.post w e)
  | .nextEvent, s =>
      match s.queue me with
      | e :: q => some (e, s.took me q)
      | [] => none

section Serve

variable {me w c : Window} {a sel target : Atom} {s : Server}

theorem serve_nextEvent {e : XEvent} {q : List XEvent} (h : s.queue me = e :: q) :
    serve me .nextEvent s = some (e, s.took me q) := by
  simp only [serve, h]
  rfl

theorem serve_nextEvent_nil (h : s.queue me = []) : serve me .nextEvent s = none := by
  simp only [serve, h]

theorem serve_deleteProperty {p : Property} (h : s.property w a = some p) :
    serve me (.deleteProperty w a) s = some ((), s.change w a none .deleted) := by
  simp only [serve, h]
  rfl

theorem serve_deleteProperty_none (h : s.property w a = none) :
    serve me (.deleteProperty w a) s = some ((), s) := by
  simp only [serve, h]
  rfl

theorem serve_convertSelection (h : s.owner sel = some c) :
    serve me (.convertSelection sel target a w) s
      = some ((), s.post c (.selectionRequest w sel target a)) := by
  simp only [serve, h]
  rfl

theorem serve_convertSelection_none (h : s.owner sel = none) :
    serve me (.convertSelection sel target a w) s
      = some ((), s.post w (.selectionNotify w sel target none)) := by
  simp only [serve, h]
  rfl

/-- Only a client that asks for its next event may have to wait. -/
theorem serve_ne_none {c : Request} (h : c = .nextEvent → s.queue me ≠ []) :
    serve me c s ≠ none := by
  cases c with
  | nextEvent =>
    obtain ⟨e, q, hq⟩ := List.exists_cons_of_ne_nil (h rfl)
    rw [serve_nextEvent hq]
    nofun
  | convertSelection sel target a w =>
    simp only [serve]
    split <;> nofun
  | deleteProperty w a =>
    simp only [serve]
    split <;> nofun
  | _ => nofun

end Serve

/-- The server that has no other state. -/
abbrev XServer.plain : XServer := ⟨Server, X11.serve, id⟩

theorem plain_documented : XServer.plain.Documented where
  selectInput _ _ _ := ⟨_, rfl, rfl⟩
  setSelectionOwner _ _ _ _ := ⟨_, rfl, rfl⟩
  convertSelection me _ _ _ _ _ _ h := ⟨_, (serve_convertSelection h : serve me _ _ = _), rfl⟩
  convertSelection_none me _ _ _ _ _ h :=
    ⟨_, (serve_convertSelection_none h : serve me _ _ = _), rfl⟩
  changeProperty _ _ _ _ _ := ⟨_, rfl, rfl⟩
  deleteProperty me _ _ _ _ h := ⟨_, (serve_deleteProperty h : serve me _ _ = _), rfl⟩
  deleteProperty_none me _ _ _ h := ⟨_, (serve_deleteProperty_none h : serve me _ _ = _), rfl⟩
  getWindowProperty _ _ _ _ _ := ⟨_, rfl, rfl⟩
  sendEvent _ _ _ _ := ⟨_, rfl, rfl⟩
  nextEvent _ _ _ _ h := ⟨_, serve_nextEvent h, rfl⟩
  nextEvent_nil _ _ h := serve_nextEvent_nil h

/-- What is known of an answer and of the state after it. -/
theorem XServer.map_view {X : XServer} {α : Type} {o : Option (α × X.State)} {r : α} {v : Server}
    (h : ∃ s', o = some (r, s') ∧ X.view s' = v) :
    o.map (fun r => (r.1, X.view r.2)) = some (r, v) := by
  obtain ⟨s', rfl, rfl⟩ := h
  rfl

/-- **Every server looks like that one**: to the requests, and to what there is to know of it after
    them. -/
theorem XServer.Documented.serve_view {X : XServer} (hX : X.Documented) (me : Window) (c : Request)
    (s : X.State) :
    (X.serve me c s).map (fun r => (r.1, X.view r.2)) = X11.serve me c (X.view s) := by
  cases c with
  | selectInput w => exact map_view (hX.selectInput me w s)
  | setSelectionOwner sel w => exact map_view (hX.setSelectionOwner me sel w s)
  | convertSelection sel target a w =>
    cases howner : (X.view s).owner sel with
    | none =>
      rw [serve_convertSelection_none howner]
      exact map_view (hX.convertSelection_none me sel target a w s howner)
    | some c =>
      rw [serve_convertSelection howner]
      exact map_view (hX.convertSelection me sel target a w s c howner)
  | changeProperty w a p => exact map_view (hX.changeProperty me w a p s)
  | deleteProperty w a =>
    cases hp : (X.view s).property w a with
    | none =>
      rw [serve_deleteProperty_none hp]
      exact map_view (hX.deleteProperty_none me w a s hp)
    | some p =>
      rw [serve_deleteProperty hp]
      exact map_view (hX.deleteProperty me w a s p hp)
  | getWindowProperty w a length => exact map_view (hX.getWindowProperty me w a length s)
  | sendEvent w e => exact map_view (hX.sendEvent me w e s)
  | nextEvent =>
    cases hq : (X.view s).queue me with
    | nil =>
      rw [serve_nextEvent_nil hq, hX.nextEvent_nil me s hq]
      rfl
    | cons e q =>
      rw [serve_nextEvent hq]
      exact map_view (hX.nextEvent me s e q hq)

end X11
