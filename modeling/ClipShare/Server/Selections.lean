import ClipShare.Server.Xclip

namespace ClipShare

open Interaction X11
open Posix (Bytes)

/-!
# A clipboard and the processes that use it

One process owns the clipboard (`xclip_util` with `XCLIP_IN`), others want it (`xclip_util` with
`XCLIP_OUT`), and another client may take it away.  Every request to the X server is one step, and
the steps interleave in any way.  The X server is a parameter.
-/

/-- What the processes are started with. -/
structure Scene (ι : Type) where
  cfg : Config
  dpy : Display
  junk : Nat → UInt8
  /-- The window of the owner, the target under which it offers the clipboard, and the text. -/
  ownerWin : Window
  ownerName : Option Bytes
  text : Bytes
  /-- The windows of the others, and the targets they want. -/
  win : ι → Window
  name : ι → Option Bytes
  /-- The window of another client. -/
  otherWin : Window
  /-- Windows have different identifiers. -/
  win_inj : Function.Injective win
  win_ne : ∀ i, win i ≠ ownerWin

/-- The state of the processes, and of an X server with states `σ`. -/
structure Clipboard (ι σ : Type) where
  server : σ
  owner : Process Requests Transfer Status
  requestor : ι → Process Requests Retrieval Output

/-- What there is to know of the server. -/
def Clipboard.seen {ι : Type} (X : XServer) (s : Clipboard ι X.State) : Clipboard ι Server where
  server := X.view s.server
  owner := s.owner
  requestor := s.requestor

/-- Who takes a step. -/
inductive Party (ι : Type)
  | owner
  | requestor (i : ι)
  | other
  deriving DecidableEq

namespace Scene

variable {ι : Type} (P : Scene ι)

/-- The target under which the clipboard is offered. -/
def target : Atom := targetOf P.ownerName

/-- A round of the owner. -/
def ownerRound (st : Transfer) : XProg (Transfer ⊕ Status) :=
  doInRound P.dpy P.target P.text st

/-- A round of a process that wants the clipboard. -/
def requestorRound (i : ι) (st : Retrieval) : XProg (Retrieval ⊕ Output) :=
  doOutRound P.cfg P.junk (P.win i) (P.name i == some xaTargets) st

/-- What a process that wants the clipboard begins with. -/
def retrieval (i : ι) : Retrieval := ⟨targetOf (P.name i), none, [], .none⟩

/-- Nobody has taken a step. -/
def start {σ : Type} (server : σ) : Clipboard ι σ where
  server := server
  owner := ⟨.init, xclipUtilInStart P.dpy true P.ownerWin P.ownerName P.text⟩
  requestor i := ⟨P.retrieval i, xclipUtilStart P.cfg P.junk (P.win i) (P.name i)⟩

/-- The steps.  Another client takes the clipboard away from the owner: it leaves it without one. -/
def step [DecidableEq ι] (X : XServer) : Steps (Party ι) (Clipboard ι X.State)
  | .owner, s =>
      (s.owner.advance (X.serve P.ownerWin) P.ownerRound s.server).map fun r =>
        { s with owner := r.1, server := r.2 }
  | .requestor i, s =>
      ((s.requestor i).advance (X.serve (P.win i)) (P.requestorRound i) s.server).map fun r =>
        { s with requestor := Function.update s.requestor i r.1, server := r.2 }
  | .other, s =>
      if (X.view s.server).owner xaClipboard = some P.ownerWin then
        (X.serve P.otherWin (.setSelectionOwner xaClipboard none) s.server).map fun r =>
          { s with server := r.2 }
      else none

section Other

variable {P} [DecidableEq ι] {X : XServer} {s : Clipboard ι X.State}

theorem step_other (howner : (X.view s.server).owner xaClipboard = some P.ownerWin) :
    P.step X .other s = (X.serve P.otherWin (.setSelectionOwner xaClipboard none) s.server).map
      fun r => { s with server := r.2 } := if_pos howner

theorem step_other_none (howner : (X.view s.server).owner xaClipboard ≠ some P.ownerWin) :
    P.step X .other s = none := if_neg howner

end Other

/-- The windows of the processes are new: their properties are not set, nobody is told about changes
    of them, no event is there for them, and no process that wants the clipboard owns it. -/
structure Fresh (sv : Server) : Prop where
  property : ∀ i, sv.property (P.win i) xclipOutProperty = none
  watching : ∀ i c, sv.watching c (P.win i) = false
  queue : ∀ i, sv.queue (P.win i) = []
  ownerQueue : sv.queue P.ownerWin = []
  owner : ∀ i, sv.owner xaClipboard ≠ some (P.win i)

/-- The owner has issued its first two requests and has got the clipboard; nobody else has taken a
    step. -/
def Opened [DecidableEq ι] (X : XServer) (s : Clipboard ι X.State) : Prop :=
  ∃ server, P.Fresh (X.view server) ∧
    Run (P.step X) (fun _ _ => True) (P.start server) [.owner, .owner] s

/-- What `xclip_util` returns to a process, if it has got there. -/
def returned {σ : Type} (s : Clipboard ι σ) (i : ι) : Option (Option (Nat × Buffer)) :=
  (s.requestor i).result.map (xclipUtilResult (P.name i))

end Scene

end ClipShare
