import ClipShare.Server.Buffers
import ClipShare.Server.Xclib

namespace ClipShare

open Interaction X11
open Posix (Bytes ascii)

/-!
# The clipboard of the X server (`xclip.c`)

* `doIn` — own the clipboard and answer requests until another client owns it and no transfer is
  going on;
* `doOut` — get the data of the clipboard, or the names of the targets it is offered under;
* `xclipUtilStart`, `xclipUtilResult` — `xclip_util` up to the first round of `doOut`, and what it
  makes of the result.
-/

/-! ### Owning the clipboard -/

/-- One round of the loop of `doIn`.  Where `xcin` has finished, the inner loop of the source ends
    and the outer one begins it again. -/
def doInRound (dpy : Display) (target : Atom) (buf : Bytes) (st : Transfer) :
    XProg (Transfer ⊕ Status) := do
  let evt ← nextEvent
  let r ← xcin dpy evt target buf st
  let st := match evt with
    | .selectionClear _ => { r.1 with clear := true }
    | _ => r.1
  if st.context = .none ∧ st.clear = true then return .inr .success
  return .inl st

/-- The static variables of `doIn` at first. -/
def Transfer.init : Transfer := ⟨false, .none, 0, 0, []⟩

/-- `doIn` up to the end of its first round; `chdirOk` tells if `chdir("/")` succeeds. -/
def doIn (dpy : Display) (chdirOk : Bool) (win : Window) (target : Atom) (buf : Bytes) :
    XProg (Transfer ⊕ Status) := do
  setSelectionOwner xaClipboard win
  if chdirOk then doInRound dpy target buf .init else return .inr .failure

/-! ### Getting the clipboard -/

/-- The atom that an element is. -/
def itemAtom : Item → Option Atom
  | .long a => some a
  | .char _ => none

/-- The atoms of a buffer. -/
def atomsOf (txt : List Item) : List Atom := txt.filterMap itemAtom

/-- What `*buf_ptr` points to: a copy of the selection and a NUL, or the names of the targets. -/
inductive Buffer
  | copy (txt : List Item)
  | names (block : Bytes)
  deriving DecidableEq

/-- What `doOut` returns, with `*len_ptr` and `*buf_ptr`. -/
structure Output where
  status : Status
  len : Nat
  buf : Option Buffer
  deriving DecidableEq

/-- `doOut` fails. -/
def Output.failed : Output := ⟨.failure, 0, none⟩

/-- `doOut` after its loop, with the data in `sel_buf`. -/
def doOutEnd (cfg : Config) (txt : List Item) : XProg Output :=
  if 0 < machSize txt ∧ machSize txt < 0x7FFFFFFF then do
    xcmalloc cfg (machSize txt + 1)
    return ⟨.success, machSize txt, some (.copy txt)⟩
  else return ⟨.success, machSize txt, none⟩

/-- `doOut` when it has got the targets; it does not come back from a write outside of its
    buffer. -/
def doOutNames (junk : Nat → UInt8) (txt : List Item) : XProg Output :=
  match doOutTargets junk (atomsOf txt) with
  | some (outLen, outBuf) => return ⟨.success, outLen, some (.names outBuf)⟩
  | none => .spin

/-- The rest of a round of the loop of `doOut`, after `xcout`. -/
def doOutNext (cfg : Config) (junk : Nat → UInt8) (isTargets : Bool) (st : Retrieval) :
    XProg (Retrieval ⊕ Output) :=
  if st.context = .selectionRefused then return .inr .failed
  else if isTargets = true ∧ st.type = some xaAtom then Sum.inr <$> doOutNames junk st.txt
  else if st.context = .badTarget then
    if st.target = xaUtf8String then return .inl { st with context := .none, target := xaString }
    else return .inr .failed
  else if st.context = .none then Sum.inr <$> doOutEnd cfg st.txt
  else return .inl st

/-- One round of the loop of `doOut`: it waits for an event unless it begins with a request. -/
def doOutRound (cfg : Config) (junk : Nat → UInt8) (win : Window) (isTargets : Bool)
    (st : Retrieval) : XProg (Retrieval ⊕ Output) := do
  let evt ← if st.context = .none then pure none else some <$> nextEvent
  let r ← xcout cfg win evt xaClipboard st
  doOutNext cfg junk isTargets r.1

/-- The target that `xclip_util` asks for. -/
def targetOf (atomName : Option Bytes) : Atom := atomName.getD xaUtf8String

/-- `xclip_util` with `XCLIP_OUT`, up to the end of the first round of `doOut`. -/
def xclipUtilStart (cfg : Config) (junk : Nat → UInt8) (win : Window) (atomName : Option Bytes) :
    XProg (Retrieval ⊕ Output) := do
  selectInput win
  doOutRound cfg junk win (atomName == some xaTargets) ⟨targetOf atomName, none, [], .none⟩

/-- `xclip_util` with `XCLIP_IN`, up to the end of the first round of `doIn`. -/
def xclipUtilInStart (dpy : Display) (chdirOk : Bool) (win : Window) (atomName : Option Bytes)
    (buf : Bytes) : XProg (Transfer ⊕ Status) := do
  selectInput win
  doIn dpy chdirOk win (targetOf atomName) buf

/-- The buffer begins with these bytes. -/
def Buffer.startsWith (magic : Bytes) : Buffer → Bool
  | .copy txt => (magic.map Item.char).isPrefixOf txt
  | .names block => magic.isPrefixOf block

/-- What an image begins with. -/
def magicOf (atomName : Option Bytes) : Bytes :=
  if atomName = some (ascii "image/png") then [0x89, 0x50, 0x4e, 0x47, 0x0d, 0x0a, 0x1a, 0x0a]
  else if atomName = some (ascii "image/jpeg") then [0xff, 0xd8, 0xff]
  else []

/-- What `xclip_util` with `XCLIP_OUT` returns after `doOut`: the length and the buffer. -/
def xclipUtilResult (atomName : Option Bytes) (o : Output) : Option (Nat × Buffer) :=
  match o.status, o.buf with
  | .success, some buf =>
      if 0xFFFFFFFF ≤ o.len then none
      else if o.len < (magicOf atomName).length ∨ !buf.startsWith (magicOf atomName) then none
      else some (o.len, buf)
  | _, _ => none

end ClipShare
