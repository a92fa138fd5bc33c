import ClipShare.Server.Config
import ClipShare.X11.Server

namespace ClipShare

open Interaction X11
open Posix (Bytes ascii)

/-!
# Handing selections over (`xclib.c`)

* `xcin` — what the owner of a selection does about an event: it puts the data in a property of the
  requestor, all at once or, if there is more than a quarter of the maximum request size, in chunks;
* `xcout` — what a requestor does: it asks for the selection, and collects the chunks.
-/

/-! ### Memory -/

/-- `MAX_BUF_LEN`. -/
def maxBufLen : Nat := 16777216

/-- The checks that `xcmalloc` and `xcrealloc` make; they end the process with `error_exit`. -/
def checkSize (cfg : Config) (size : Nat) : XProg Unit :=
  if size = 0 then .spin
  else if maxBufLen < size ∧ cfg.maxTextLength.toNat < size then .spin
  else return

/-- `xcmalloc`. -/
def xcmalloc (cfg : Config) (size : Nat) : XProg Unit := checkSize cfg size

/-- `xcrealloc`. -/
def xcrealloc (cfg : Config) (size : Nat) : XProg Unit := checkSize cfg size

/-! ### Requestors -/

/-- The property `XCLIP_OUT`. -/
def xclipOutProperty : Atom := ascii "XCLIP_OUT"

/-- The contexts of `xcout`. -/
inductive XcoutContext
  | none
  | sentConvSel
  | incr
  | badTarget
  | selectionRefused
  deriving DecidableEq

/-- What `doOut` keeps from one event to the next: the target, and what it passes to `xcout` by
    reference.  `txt` is the buffer `*txt_p` with its `*len_p` bytes. -/
structure Retrieval where
  target : Atom
  type : Option Atom
  txt : List Item
  context : XcoutContext

/-- `xcout`, for the selection `sel`; `evt` is not set in the first call. -/
def xcout (cfg : Config) (win : Window) (evt : Option XEvent) (sel : Atom) (st : Retrieval) :
    XProg (Retrieval × Bool) :=
  match st.context, evt with
  | .none, _ => do
      convertSelection sel st.target xclipOutProperty win
      return ({ st with txt := [], context := .sentConvSel }, false)
  | .sentConvSel, some (.selectionNotify _ _ _ none) =>
      return ({ st with context := .badTarget }, false)
  | .sentConvSel, some (.selectionNotify _ _ _ (some _)) => do
      let size ← getWindowProperty win xclipOutProperty 0
      if size.type = some xaIncr then
        deleteProperty win xclipOutProperty
        return ({ st with type := size.type, context := .incr }, false)
      let data ← getWindowProperty win xclipOutProperty size.bytesAfter
      deleteProperty win xclipOutProperty
      if 0 < machSize data.value.items then xcmalloc cfg (machSize data.value.items)
      return ({ st with type := data.type, txt := data.value.items, context := .none }, true)
  | .incr, some (.propertyNotify _ _ .newValue) => do
      let size ← getWindowProperty win xclipOutProperty 0
      if size.bytesAfter = 0 then
        deleteProperty win xclipOutProperty
        return ({ st with type := size.type, context := .none }, true)
      let data ← getWindowProperty win xclipOutProperty size.bytesAfter
      if 0 < machSize data.value.items then
        if machSize st.txt = 0 then xcmalloc cfg (machSize data.value.items)
        else xcrealloc cfg (machSize st.txt + machSize data.value.items)
      deleteProperty win xclipOutProperty
      return ({ st with type := data.type, txt := st.txt ++ data.value.items }, false)
  | _, _ => return (st, false)

/-! ### Owners -/

/-- The maximum request sizes of a connection to the X server, in units of four bytes. -/
structure Display where
  extendedMaxRequestSize : Nat
  maxRequestSize : Nat

/-- The bytes in a chunk. -/
def Display.chunkSize (dpy : Display) : Nat :=
  if dpy.extendedMaxRequestSize / 4 = 0 then dpy.maxRequestSize / 4
  else dpy.extendedMaxRequestSize / 4

/-- The contexts of `xcin`. -/
inductive XcinContext
  | none
  | incr
  deriving DecidableEq

/-- What `doIn` keeps from one event to the next: the window and the property of the requestor, and
    the position in the text. -/
structure Transfer where
  clear : Bool
  context : XcinContext
  pos : Nat
  win : Window
  pty : Atom

/-- The length of the chunk at a position of a text. -/
def chunkLen (chunkSize len pos : Nat) : Nat :=
  if len < pos then 0 else if len < pos + chunkSize then len - pos else chunkSize

/-- `xcin`, for the text `txt` that is offered under `target`. -/
def xcin (dpy : Display) (evt : XEvent) (target : Atom) (txt : Bytes) (st : Transfer) :
    XProg (Transfer × Bool) :=
  match st.context, evt with
  | .none, .selectionRequest requestor selection requested property => do
      let st : Transfer := { st with win := requestor, pty := property, pos := 0 }
      let st ←
        if requested = xaTargets then do
          changeProperty requestor property ⟨xaAtom, .atoms [xaTargets, target]⟩
          pure st
        else if dpy.chunkSize < txt.length then do
          changeProperty requestor property ⟨xaIncr, .atoms []⟩
          selectInput requestor
          pure { st with context := .incr }
        else do
          changeProperty requestor property ⟨target, .bytes txt⟩
          pure st
      sendEvent requestor (.selectionNotify requestor selection requested (some property))
      -- a list of targets is no transfer of the text
      if requested = xaTargets then return (st, false)
      return (st, !decide (dpy.chunkSize < txt.length))
  | .incr, .propertyNotify _ _ .deleted => do
      -- neither the window nor the property of the event is looked at
      let n := chunkLen dpy.chunkSize txt.length st.pos
      changeProperty st.win st.pty ⟨target, .bytes ((txt.drop st.pos).take n)⟩
      let context := if n = 0 then .none else st.context
      return ({ st with context := context, pos := st.pos + dpy.chunkSize }, n == 0)
  | _, _ => return (st, false)

end ClipShare
