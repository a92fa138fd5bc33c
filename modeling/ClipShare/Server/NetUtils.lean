import ClipShare.Server.World
import Mathlib.Tactic.Ring

namespace ClipShare

open Interaction Posix

/-!
# The connection

The functions of `net_utils.c` that the protocol is written with.

* `Status` — the exit status of a function;
* `writeSock`, `readSock`, `closeSocket` — the calls on the socket, as programs;
* `sizeBytes` / `sizeOfBytes` — the codec of the 8-byte size field, with its round trip;
* `sendSize` / `readSize` — the size field on the socket.
-/

/-- `EXIT_SUCCESS` and `EXIT_FAILURE`. -/
inductive Status
  | success
  | failure
  deriving DecidableEq, Repr

/-- The status of a call that says whether it succeeded. -/
def Status.ofBool : Bool → Status
  | true => .success
  | false => .failure

/-- `write_sock`. -/
def writeSock (data : Bytes) : Proc Bool := Prog.ask (S := Calls) (.writeSock data) id

/-- `read_sock`. -/
def readSock (n : Nat) : Proc (Option Bytes) := Prog.ask (S := Calls) (.readSock n) id

/-- `close_socket`. -/
def closeSocket : Proc Unit := Prog.ask (S := Calls) (.closeSocket true true) id

/-- `close_socket_no_wait`. -/
def closeSocketNoWait : Proc Unit := Prog.ask (S := Calls) (.closeSocket false true) id

/-! ### The size field -/

/-- The last `k` bytes of a size, most significant first. -/
def sizeBytes : Nat → Int → Bytes
  | 0, _ => []
  | k + 1, sz => sizeBytes k (sz / 256) ++ [UInt8.ofNat (sz % 256).toNat]

/-- The size that bytes stand for, in 64-bit two's complement. -/
def sizeOfBytes (buf : Bytes) : Int :=
  buf.foldl (fun size b => Int.bmod (size * 256 + b.toNat) (2 ^ 64)) 0

/-- `send_size`. -/
def sendSize (size : Int) : Proc Bool := writeSock (sizeBytes 8 size)

/-- `read_size`. -/
def readSize : Proc (Option Int) := do
  match ← readSock 8 with
  | none => return none
  | some buf => return some (sizeOfBytes buf)

@[simp] theorem length_sizeBytes (k : Nat) (sz : Int) : (sizeBytes k sz).length = k := by
  induction k generalizing sz with
  | zero => rfl
  | succ k ih => simp [sizeBytes, ih]

/-- Decoding `k` bytes of a size yields the size modulo `2 ^ 64`, up to the multiple of `256 ^ k`
    that the bytes left out. -/
theorem sizeOfBytes_sizeBytes_aux (k : Nat) (sz : Int) :
    sizeOfBytes (sizeBytes k sz) = Int.bmod (sz % 256 ^ k) (2 ^ 64) := by
  induction k generalizing sz with
  | zero => simp [sizeBytes, sizeOfBytes]
  | succ k ih =>
    have hdigit : ((UInt8.ofNat (sz % 256).toNat).toNat : Int) = sz % 256 := by
      rw [UInt8.toNat_ofNat']
      omega
    have hstep : sizeOfBytes (sizeBytes (k + 1) sz)
        = Int.bmod (sizeOfBytes (sizeBytes k (sz / 256)) * 256 + sz % 256) (2 ^ 64) := by
      simp only [sizeOfBytes, sizeBytes, List.foldl_append, List.foldl_cons, List.foldl_nil, hdigit]
    have hsplit : sz % 256 ^ (k + 1) = sz / 256 % 256 ^ k * 256 + sz % 256 := by
      rw [Int.emod_def, Int.emod_def, Int.emod_def, pow_succ',
        ← Int.ediv_ediv_of_nonneg (by norm_num)]
      ring
    rw [hstep, ih, hsplit]
    rw [Int.add_bmod, Int.mul_bmod, Int.bmod_bmod, ← Int.mul_bmod, ← Int.add_bmod]

/-- **Round trip of the size field** for every signed 64-bit number. -/
theorem sizeOfBytes_sizeBytes {sz : Int} (hlo : -2 ^ 63 ≤ sz) (hhi : sz < 2 ^ 63) :
    sizeOfBytes (sizeBytes 8 sz) = sz := by
  rw [sizeOfBytes_sizeBytes_aux]
  have : (256 : Int) ^ 8 = ((2 ^ 64 : Nat) : Int) := by norm_num
  rw [this, Int.emod_bmod]
  exact Int.bmod_eq_of_le (by omega) (by omega)

end ClipShare
