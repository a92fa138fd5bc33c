import ClipShare.Interaction.Ensures
import ClipShare.Server.NetUtils

namespace ClipShare

open Interaction Posix

/-!
# The transport below the connection

`write_sock` and `read_sock` repeat calls to `send` and `recv`, or to `SSL_write` and `SSL_read`,
until all bytes are transferred.  A call may move less than it was asked to, move nothing, or fail
for good.

* `Wire` / `transport` — the bytes on both sides, and a machine that answers each call as a given
  sequence of results says;
* `Transport.transferRound` — one round of either loop;
* `Transport.writeSock`, `Transport.readSock` — the loops;
* `Transport.sendSize`, `Transport.readSize` — the size field over them.

The names are those of the connection, in a namespace of their own.
-/

/-- How a call to the transport ends: it moves up to `k + 1` bytes, it moves nothing, or it sets
    `*fatal_p`. -/
inductive Result
  | moved (k : Nat)
  | stalled
  | fatal
  deriving DecidableEq, Repr

/-- A connection: what the peer has sent and was not received yet, what was sent to the peer, the
    buffer of `read_sock`, and how the calls ended. -/
structure Wire where
  input : Bytes
  output : Bytes
  buffer : Bytes
  history : List Result
  deriving DecidableEq, Repr

/-- The calls: `send` of some bytes, `recv` of up to `n` bytes to a position of the buffer, and
    reading the buffer. -/
inductive WireCall
  | send (data : Bytes)
  | recv (ptr n : Nat)
  | buffer

/-- A transfer answers how many bytes it moved (0 also for a negative result), and `*fatal_p`. -/
def WireCall.Resp : WireCall → Type
  | .send _ => Nat × Bool
  | .recv .. => Nat × Bool
  | .buffer => Bytes

abbrev WireCalls : Sig := ⟨WireCall, WireCall.Resp⟩

/-- A program on a connection. -/
abbrev WireProg := Prog WireCalls

namespace Wire

variable (w : Wire)

/-- A call that moved nothing. -/
def ended (r : Result) : Wire := { w with history := w.history ++ [r] }

/-- A call that sent some bytes. -/
def sent (r : Result) (data : Bytes) : Wire := { w.ended r with output := w.output ++ data }

/-- A call that received some bytes. -/
def received (r : Result) (ptr : Nat) (data : Bytes) : Wire :=
  { w.ended r with input := w.input.drop data.length, buffer := w.buffer.take ptr ++ data }

end Wire

/-- The machine: the `i`-th call ends as the `i`-th result says.  At the end of the stream `recv`
    returns 0, which is fatal. -/
def transport (results : Nat → Result) : Machine WireCalls Wire
  | .send data, w => match results w.history.length with
    | .moved k => ((min (k + 1) data.length, false), w.sent (.moved k) (data.take (k + 1)))
    | .stalled => ((0, false), w.ended .stalled)
    | .fatal => ((0, true), w.ended .fatal)
  | .recv ptr n, w => match results w.history.length with
    | .moved k =>
        let data := w.input.take (min (k + 1) n)
        if data = [] then ((0, true), w.ended .fatal)
        else ((data.length, false), w.received (.moved k) ptr data)
    | .stalled => ((0, false), w.ended .stalled)
    | .fatal => ((0, true), w.ended .fatal)
  | .buffer, w => (w.buffer, w)

section

variable {results : Nat → Result} {w : Wire} {k ptr n : Nat} {data : Bytes}

theorem transport_send_moved (h : results w.history.length = .moved k) :
    transport results (.send data) w =
      ((min (k + 1) data.length, false), w.sent (.moved k) (data.take (k + 1))) := by
  simp only [transport, h]
  rfl

theorem transport_send_stalled (h : results w.history.length = .stalled) :
    transport results (.send data) w = ((0, false), w.ended .stalled) := by
  simp only [transport, h]
  rfl

theorem transport_send_fatal (h : results w.history.length = .fatal) :
    transport results (.send data) w = ((0, true), w.ended .fatal) := by
  simp only [transport, h]
  rfl

theorem transport_recv_moved (h : results w.history.length = .moved k) :
    transport results (.recv ptr n) w =
      if w.input.take (min (k + 1) n) = [] then ((0, true), w.ended .fatal)
      else (((w.input.take (min (k + 1) n)).length, false),
        w.received (.moved k) ptr (w.input.take (min (k + 1) n))) := by
  simp only [transport, h]
  rfl

theorem transport_recv_stalled (h : results w.history.length = .stalled) :
    transport results (.recv ptr n) w = ((0, false), w.ended .stalled) := by
  simp only [transport, h]
  rfl

theorem transport_recv_fatal (h : results w.history.length = .fatal) :
    transport results (.recv ptr n) w = ((0, true), w.ended .fatal) := by
  simp only [transport, h]
  rfl

end

namespace Transport

def send (data : Bytes) : WireProg (Nat × Bool) := Prog.ask (S := WireCalls) (.send data) id

def recv (ptr n : Nat) : WireProg (Nat × Bool) := Prog.ask (S := WireCalls) (.recv ptr n) id

def buffer : WireProg Bytes := Prog.ask (S := WireCalls) .buffer id

/-- One round of `write_sock` and `read_sock`, with `cnt` and `total_written` or `total_sz_read`.
    Progress sets `cnt` to 0, and every round increments it. -/
def transferRound (size : Nat) (transfer : Nat → Nat → WireProg (Nat × Bool))
    (counters : Nat × Nat) : WireProg ((Nat × Nat) ⊕ Status) :=
  if counters.2 < size then do
    let reqSz := min (size - counters.2) 0x7FFFFFFF
    let (sz, fatal) ← transfer counters.2 reqSz
    if sz > 0 then return .inl (0 + 1, counters.2 + sz)
    else if counters.1 > 10 ∨ fatal then return .inr .failure
    else return .inl (counters.1 + 1, counters.2)
  else return .inr .success

/-- `write_sock`. -/
def writeSock (fuel : Nat) (buf : Bytes) : WireProg Status :=
  Prog.loop fuel (transferRound buf.length fun ptr n => send ((buf.drop ptr).take n)) (0, 0)

/-- `read_sock`. -/
def readSock (fuel size : Nat) : WireProg Status :=
  Prog.loop fuel (transferRound size fun ptr n => recv ptr n) (0, 0)

/-- `send_size`. -/
def sendSize (fuel : Nat) (size : Int) : WireProg Status := writeSock fuel (sizeBytes 8 size)

/-- `read_size`. -/
def readSize (fuel : Nat) : WireProg (Option Int) := do
  match ← readSock fuel 8 with
  | .failure => return none
  | .success => return some (sizeOfBytes ((← buffer).take 8))

end Transport

end ClipShare
