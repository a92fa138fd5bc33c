import ClipShare.Interaction.Program
import ClipShare.Posix.Strings

namespace ClipShare

open Posix Interaction

/-!
# The listening process

`get_connection`, `_close_socket` and the accept loop of `clip_share`.  The listening process
has a signature of its own: the system and TLS calls that these functions issue, and the
accesses to `req_cnt`, which the handler of `SIGCHLD` changes in between.

* `getConnection` / `closeConnection` — accepting and closing one connection;
* `dispatch` / `acceptOne` — one round of the accept loop, and `acceptLoop` — some number of rounds;
* `Listening` / `answer` — the state of the process and what the calls do.  Descriptors are
  numbered in the order in which `accept` returns them, so that a number stands for one
  connection even when the system uses a descriptor again;
* `Certificate.checkPeerCerts` — what decides the call of the same name;
* `Sessions` / `Sessions.Step` — the same loop beside its children, with the handler
  `decrement_req_cnt` started by a signal between any two calls.
-/

/-- What `fork` answers. -/
inductive Fork
  | parent
  | child
  | failed
  deriving DecidableEq, Repr

/-- The calls of the listening process. -/
inductive ListenerCall
  | accept
  | setsockopt (fd : Nat)
  | sslSetFd (fd : Nat)
  | sslAccept (fd : Nat)
  | checkPeerCerts (fd : Nat)
  | sslFree (fd : Nat)
  | recv (fd : Nat)
  | sslRead (fd : Nat)
  | sslShutdown (fd : Nat)
  | closeSock (fd : Nat)
  | fork
  | readReqCnt
  | addReqCnt (n : Int)
  deriving DecidableEq, Repr

/-- The answers: `accept` delivers a descriptor, the calls that can fail say whether they
    succeeded, and `SSL_read` says whether the connection may still be shut down. -/
@[reducible] def ListenerCall.Resp : ListenerCall → Type
  | .accept => Option Nat
  | .setsockopt _ => Bool
  | .sslSetFd _ => Bool
  | .sslAccept _ => Bool
  | .checkPeerCerts _ => Bool
  | .sslRead _ => Bool
  | .fork => Fork
  | .readReqCnt => Int
  | .sslFree _ | .recv _ | .sslShutdown _ | .closeSock _ | .addReqCnt _ => Unit

/-- The signature of the listening process. -/
abbrev ListenerCalls : Sig := ⟨ListenerCall, ListenerCall.Resp⟩

/-- A program of the listening process. -/
abbrev ListenerProc := Prog ListenerCalls

/-! ### The calls as programs -/

def accept : ListenerProc (Option Nat) := Prog.ask (S := ListenerCalls) .accept id
def setsockopt (fd : Nat) : ListenerProc Bool := Prog.ask (S := ListenerCalls) (.setsockopt fd) id
def sslSetFd (fd : Nat) : ListenerProc Bool := Prog.ask (S := ListenerCalls) (.sslSetFd fd) id
def sslAccept (fd : Nat) : ListenerProc Bool := Prog.ask (S := ListenerCalls) (.sslAccept fd) id
def checkPeerCerts (fd : Nat) : ListenerProc Bool :=
  Prog.ask (S := ListenerCalls) (.checkPeerCerts fd) id
def sslFree (fd : Nat) : ListenerProc Unit := Prog.ask (S := ListenerCalls) (.sslFree fd) id
def recv (fd : Nat) : ListenerProc Unit := Prog.ask (S := ListenerCalls) (.recv fd) id
def sslRead (fd : Nat) : ListenerProc Bool := Prog.ask (S := ListenerCalls) (.sslRead fd) id
def sslShutdown (fd : Nat) : ListenerProc Unit :=
  Prog.ask (S := ListenerCalls) (.sslShutdown fd) id
def closeSock (fd : Nat) : ListenerProc Unit := Prog.ask (S := ListenerCalls) (.closeSock fd) id
def fork : ListenerProc Fork := Prog.ask (S := ListenerCalls) .fork id
def readReqCnt : ListenerProc Int := Prog.ask (S := ListenerCalls) .readReqCnt id
def addReqCnt (n : Int) : ListenerProc Unit := Prog.ask (S := ListenerCalls) (.addReqCnt n) id

/-- The type of a socket: is it valid, and does it use TLS? -/
structure SocketType where
  valid : Bool
  ssl : Bool
  deriving DecidableEq, Repr

/-- `socket_t`: the descriptor is the socket itself or the one installed in its `SSL`. -/
structure Socket where
  type : SocketType
  fd : Option Nat
  deriving DecidableEq, Repr

/-- `NULL_SOCK`. -/
def SocketType.null : SocketType := ⟨false, false⟩

/-- A socket whose type is `NULL_SOCK`. -/
def Socket.null : Socket := ⟨.null, none⟩

/-- `_close_socket`: a socket of type `NULL_SOCK` is left alone. -/
def closeConnection (socket : Socket) (await shutdown : Bool) : ListenerProc Unit := do
  if !socket.type.valid then return ()
  else match socket.fd with
    | none => return ()
    | some fd =>
      if !socket.type.ssl then do
        if await then recv fd
        closeSock fd
      else do
        let intact  ← if await then sslRead fd else pure true
        if shutdown ∧ intact then sslShutdown fd
        sslFree fd
        closeSock fd

/-- `get_connection` for a listener of a given type. -/
def getConnection (listener : SocketType) : ListenerProc Socket := do
  let sock := Socket.null
  if !listener.valid then return sock
  else match ← accept with
    | none => return sock
    | some fd =>
      let rcv  ← setsockopt fd
      let snd  ← if rcv then setsockopt fd else pure false
      if !snd then do
        closeSock fd
        return sock
      else if !listener.ssl then return ⟨listener, some fd⟩
      else do
        let installed  ← sslSetFd fd
        if !installed then do
          sslFree fd
          closeSock fd
          return sock
        else do
          let accepted  ← sslAccept fd
          if !accepted then do
            sslFree fd
            closeSock fd
            return sock
          else do
            let verified  ← checkPeerCerts fd
            if !verified then do
              sslFree fd
              closeConnection sock false true
              return sock
            else return ⟨listener, some fd⟩

/-- The part of the accept loop that handles a valid connection.  The answer tells whether the
    process goes on listening: after `fork` the child leaves the loop and serves the connection. -/
def dispatch (connectSock : Socket) : ListenerProc Bool := do
  if (← readReqCnt) ≥ 64 then do
    closeConnection connectSock false true
    return true
  else do
    addReqCnt 1
    match ← fork with
    | .parent => do
        closeConnection connectSock false false
        return true
    | .child => return false
    | .failed => do
        closeConnection connectSock false true
        addReqCnt (-1)
        return true

/-- One round of the accept loop. -/
def acceptOne (listener : SocketType) : ListenerProc Bool := do
  let connectSock ← getConnection listener
  if !connectSock.type.valid then do
    closeConnection connectSock false true
    return true
  else dispatch connectSock

/-- Some number of rounds of the accept loop. -/
def acceptLoop (listener : SocketType) : Nat → ListenerProc Bool
  | 0 => return true
  | n + 1 => do
      match ← acceptLoop listener n with
      | true => acceptOne listener
      | false => return false

/-! ### The state of the process -/

/-- What the surroundings answer to the `k`-th call, and how many children have ended and are
    reaped by the handler of `SIGCHLD` just before it. -/
structure ListenerOracle where
  ok : Nat → Bool
  fork : Nat → Fork
  reap : Nat → Nat

/-- The state of the listening process: how many connections were accepted, the descriptors
    that were closed, the children that were not reaped yet, and `req_cnt`. -/
structure Listening where
  oracle : ListenerOracle
  calls : Nat
  accepted : Nat
  closed : List Nat
  children : Nat
  reqCnt : Int

/-- The state before the first round. -/
def Listening.start (oracle : ListenerOracle) : Listening := ⟨oracle, 0, 0, [], 0, 0⟩

/-- `decrement_req_cnt`, as often as the oracle says. -/
def Listening.reap (s : Listening) : Listening :=
  let n := min (s.oracle.reap s.calls) s.children
  { s with calls := s.calls + 1, children := s.children - n, reqCnt := s.reqCnt - n }

@[simp] theorem Listening.reap_oracle (s : Listening) : s.reap.oracle = s.oracle := rfl
@[simp] theorem Listening.reap_calls (s : Listening) : s.reap.calls = s.calls + 1 := rfl
@[simp] theorem Listening.reap_accepted (s : Listening) : s.reap.accepted = s.accepted := rfl
@[simp] theorem Listening.reap_closed (s : Listening) : s.reap.closed = s.closed := rfl

/-- What a call does. -/
def answer : Machine ListenerCalls Listening
  | .accept, s =>
      if s.oracle.ok s.calls then (some s.accepted, { s.reap with accepted := s.accepted + 1 })
      else (none, s.reap)
  | .setsockopt _, s => (s.oracle.ok s.calls, s.reap)
  | .sslSetFd _, s => (s.oracle.ok s.calls, s.reap)
  | .sslAccept _, s => (s.oracle.ok s.calls, s.reap)
  | .checkPeerCerts _, s => (s.oracle.ok s.calls, s.reap)
  | .sslFree _, s => ((), s.reap)
  | .recv _, s => ((), s.reap)
  | .sslRead _, s => (s.oracle.ok s.calls, s.reap)
  | .sslShutdown _, s => ((), s.reap)
  | .closeSock fd, s => ((), { s.reap with closed := s.closed ++ [fd] })
  | .fork, s => (s.oracle.fork s.calls, match s.oracle.fork s.calls with
      | .parent => { s.reap with children := s.reap.children + 1 }
      | _ => s.reap)
  | .readReqCnt, s => (s.reap.reqCnt, s.reap)
  | .addReqCnt n, s => ((), { s.reap with reqCnt := s.reap.reqCnt + n })

/-! ### Certificates -/

/-- The part of a client certificate that is looked at: the common name of its subject, if it has
    one. -/
structure Certificate where
  commonName : Option Bytes
  deriving DecidableEq

/-- `X509_NAME_get_text_by_NID(name, NID_commonName, buf, len)`: what `buf` holds afterwards.  At
    most `len - 1` bytes and a NUL are copied; without a common name the buffer is left alone. -/
def Certificate.getTextByNid (cert : Certificate) (buf : Bytes) (len : Nat) : Bytes :=
  match cert.commonName with
  | none => buf
  | some name => name.take (len - 1) ++ 0 :: buf.drop ((name.take (len - 1)).length + 1)

/-- Are two C strings equal (`strcmp`)? -/
def streq (s t : Bytes) : Bool := cstr s == cstr t

/-- `check_peer_certs`, where `stack` is what the buffer of 256 bytes holds before it is used. -/
def Certificate.checkPeerCerts (stack : Bytes) (cert : Option Certificate)
    (allowedClients : List Bytes) : Bool :=
  match cert with
  | none => false
  | some cert =>
      let buf := (cert.getTextByNid stack 255).set 255 0
      allowedClients.any fun client => streq buf client

/-! ### Children and signals -/

/-- Where `decrement_req_cnt` is: not running, before `waitpid`, or before `req_cnt--`. -/
inductive ReapPoint
  | idle
  | waiting
  | reaped
  deriving DecidableEq, Repr

/-- The listening process beside its children: what is left of the round, whether a connection
    has been counted while the result of `fork` is not handled yet, the children that run, the
    children that ended and wait for `waitpid`, whether `SIGCHLD` is pending, the handler, and
    `req_cnt`. -/
structure Sessions where
  prog : ListenerProc Bool
  counted : Bool
  running : Nat
  ended : Nat
  sigchld : Bool
  handler : ReapPoint
  reqCnt : Int

/-- The listener of the accept loop: `VALID_SOCK` and the kind of socket. -/
def listenerType (ssl : Bool) : SocketType := ⟨true, ssl⟩

/-- The end of a round is the start of the next one. -/
def again (ssl : Bool) : ListenerProc Bool → ListenerProc Bool
  | .ret true => acceptOne (listenerType ssl)
  | p => p

/-- The process when it enters the loop, just after the handler was installed. -/
def Sessions.start (ssl : Bool) : Sessions :=
  ⟨acceptOne (listenerType ssl), false, 0, 0, false, .idle, 0⟩

/-- The answers that the process gets which goes on listening: the child of a `fork` is followed
    no further. -/
def isParent : (c : ListenerCall) → c.Resp → Prop
  | .fork, r => r ≠ .child
  | _, _ => True

/-- The answers that a call can get: `req_cnt` is read as it is, and all other calls can succeed
    or fail at any time. -/
def Sessions.Answers (s : Sessions) : (c : ListenerCall) → c.Resp → Prop
  | .readReqCnt, r => r = s.reqCnt
  | c, r => isParent c r

/-- What a call changes.  A successful `fork` hands the counted connection to the child, which
    runs from then on; the counter is changed by `req_cnt++` and `req_cnt--`. -/
def Sessions.afterCall (s : Sessions) : (c : ListenerCall) → c.Resp → Sessions
  | .addReqCnt n, _ => { s with reqCnt := s.reqCnt + n, counted := 0 < n }
  | .fork, .parent => { s with running := s.running + 1, counted := false }
  | _, _ => s

/-- Who takes a step. -/
inductive Actor
  | loop (c : ListenerCall)
  | child
  | sender
  | kernel
  | handler
  deriving DecidableEq

/-- The steps.  While the handler runs the loop stands still; a child can end at any time, also
    in the middle of the handler; a pending `SIGCHLD` is delivered once, whatever the number of
    children that ended, and not while the handler runs. -/
inductive Sessions.Step (ssl : Bool) : Actor → Sessions → Sessions → Prop
  | call {s : Sessions} {c : ListenerCall} {k : c.Resp → ListenerProc Bool} {r : c.Resp}
      (hh : s.handler = .idle) (hp : s.prog = Prog.call (S := ListenerCalls) c k)
      (hr : s.Answers c r) :
      Step ssl (.loop c) s { s.afterCall c r with prog := again ssl (k r) }
  | exit {s : Sessions} (h : 0 < s.running) :
      Step ssl .child s
        { s with running := s.running - 1, ended := s.ended + 1, sigchld := true }
  -- `SIGCHLD` that no exit caused: a child stopped, or some process sent it
  | send {s : Sessions} : Step ssl .sender s { s with sigchld := true }
  | deliver {s : Sessions} (hh : s.handler = .idle) (hs : s.sigchld = true) :
      Step ssl .kernel s { s with sigchld := false, handler := .waiting }
  -- `waitpid(-1, NULL, WNOHANG) > 0`
  | reap {s : Sessions} (hh : s.handler = .waiting) (he : 0 < s.ended) :
      Step ssl .handler s { s with ended := s.ended - 1, handler := .reaped }
  -- `req_cnt--`
  | decrement {s : Sessions} (hh : s.handler = .reaped) :
      Step ssl .handler s { s with reqCnt := s.reqCnt - 1, handler := .waiting }
  -- no child is left to wait for
  | done {s : Sessions} (hh : s.handler = .waiting) (he : s.ended = 0) :
      Step ssl .handler s { s with handler := .idle }

/-- The states that the process can be in. -/
inductive Sessions.Reachable (ssl : Bool) : Sessions → Prop
  | start : Reachable ssl (.start ssl)
  | step {a : Actor} {s t : Sessions} : Reachable ssl s → Sessions.Step ssl a s t → Reachable ssl t

/-- The children that have not been reaped. -/
def Sessions.unreaped (s : Sessions) : Nat := s.running + s.ended

/-- The slot of a connection between `req_cnt++` and the handling of what `fork` returned. -/
def Sessions.slot (s : Sessions) : Nat := if s.counted then 1 else 0

end ClipShare
