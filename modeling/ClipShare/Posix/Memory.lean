import ClipShare.Interaction.Ensures
import ClipShare.Posix.Strings

namespace Posix

open Interaction

/-!
# Memory, one byte at a time

Functions that change a block of memory in place are programs that load and store single bytes.
The machine remembers which bytes were stored to.

* `MemCalls` — the signature: `load`, `store`, and `realloc` of the whole block;
* `Memory` — the bytes of the block, its size, and what was stored to;
* `MemCall.Inside` / `MemCall.Fresh` — a call that stays inside the block, and one that does not
  read what the program has written itself;
* `MemCall.Within` — a call that stays inside a part of the block;
* `Memory.Shows` / `Memory.Holds` — the bytes at a position, and the string with its NUL;
* `strnlenFrom`, `loadBytes`, `loadString`, `matchesAt`, `strchrAt`, `strsepAt` — the library
  functions for strings.
-/

/-- One access to a block of memory. -/
inductive MemCall
  | load (i : Nat)
  | store (i : Nat) (b : UInt8)
  | realloc (size : Nat)

/-- A load answers the byte, a `realloc` whether it succeeded. -/
def MemCall.Resp : MemCall → Type
  | .load _ => UInt8
  | .store .. => Unit
  | .realloc _ => Bool

abbrev MemCalls : Sig := ⟨MemCall, MemCall.Resp⟩

/-- A program on a block of memory. -/
abbrev MemProg := Prog MemCalls

def load (i : Nat) : MemProg UInt8 := Prog.ask (S := MemCalls) (.load i) id

def put (i : Nat) (b : UInt8) : MemProg Unit := Prog.ask (S := MemCalls) (.store i b) id

def resize (size : Nat) : MemProg Bool := Prog.ask (S := MemCalls) (.realloc size) id

/-- A block of memory, and which of its bytes the program has stored to. -/
@[ext] structure Memory where
  byte : Nat → UInt8
  size : Nat
  stored : Nat → Bool

/-- How `realloc` behaves: what new bytes hold, and how much can be had. -/
structure Allocator where
  junk : Nat → UInt8
  room : Nat

namespace Memory

/-- The block with these bytes. -/
def ofBlock (block : Bytes) : Memory := ⟨fun i => block.getD i 0, block.length, fun _ => false⟩

/-- One byte is stored. -/
def set (m : Memory) (i : Nat) (b : UInt8) : Memory :=
  { m with byte := Function.update m.byte i b, stored := Function.update m.stored i true }

/-- The block is given another size. -/
def grow (m : Memory) (junk : Nat → UInt8) (size : Nat) : Memory :=
  { m with byte := fun i => if i < m.size then m.byte i else junk i, size := size }

end Memory

/-- The machine.  A `realloc` that fails leaves a block that nobody may use. -/
def memory (A : Allocator) : Machine MemCalls Memory
  | .load i, m => (m.byte i, m)
  | .store i b, m => ((), m.set i b)
  | .realloc size, m =>
      if size ≤ A.room then (true, m.grow A.junk size) else (false, { m with size := 0 })

/-- The call stays inside the block. -/
def MemCall.Inside (m : Memory) : MemCall → Prop
  | .load i => i < m.size
  | .store i _ => i < m.size
  | .realloc _ => True

/-- The call does not read a byte that was overwritten. -/
def MemCall.Fresh (m : Memory) : MemCall → Prop
  | .load i => m.stored i = false
  | _ => True

/-- The call concerns one of the `n + 1` bytes from position `i` on. -/
def MemCall.Within (i n : Nat) : MemCall → Prop
  | .load j => i ≤ j ∧ j ≤ i + n
  | .store j _ => i ≤ j ∧ j ≤ i + n
  | .realloc _ => False

/-- A part of a part. -/
theorem MemCall.Within.mono {i j k n : Nat} {c : MemCall} (hc : c.Within j k) (hi : i ≤ j)
    (hn : j + k ≤ i + n) : c.Within i n := by
  cases c with
  | load l =>
    obtain ⟨hl, hl'⟩ := hc
    exact ⟨by omega, by omega⟩
  | store l b =>
    obtain ⟨hl, hl'⟩ := hc
    exact ⟨by omega, by omega⟩
  | realloc size => exact hc

variable {A : Allocator} {P : MemCall → Memory → Prop} {m : Memory} {α β : Type}

@[simp] theorem load_bind (i : Nat) (f : UInt8 → MemProg α) :
    (load i >>= f) = .call (S := MemCalls) (.load i) f := rfl

@[simp] theorem put_bind (i : Nat) (b : UInt8) (f : Unit → MemProg α) :
    (put i b >>= f) = .call (S := MemCalls) (.store i b) f := rfl

@[simp] theorem resize_bind (size : Nat) (f : Bool → MemProg α) :
    (resize size >>= f) = .call (S := MemCalls) (.realloc size) f := rfl

@[simp] theorem ensures_load {i : Nat} {k : UInt8 → MemProg α} {Q : α → Memory → Prop} :
    (Prog.call (S := MemCalls) (.load i) k).Ensures (memory A) P m Q ↔
      P (.load i) m ∧ (k (m.byte i)).Ensures (memory A) P m Q := Iff.rfl

@[simp] theorem ensures_store {i : Nat} {b : UInt8} {k : Unit → MemProg α}
    {Q : α → Memory → Prop} :
    (Prog.call (S := MemCalls) (.store i b) k).Ensures (memory A) P m Q ↔
      P (.store i b) m ∧ (k ()).Ensures (memory A) P (m.set i b) Q := Iff.rfl

/-- A `realloc` that succeeds. -/
theorem ensures_realloc {size : Nat} {k : Bool → MemProg α} {Q : α → Memory → Prop}
    (hroom : size ≤ A.room) :
    (Prog.call (S := MemCalls) (.realloc size) k).Ensures (memory A) P m Q ↔
      P (.realloc size) m ∧ (k true).Ensures (memory A) P (m.grow A.junk size) Q := by
  have hans : memory A (.realloc size) m = (true, m.grow A.junk size) := if_pos hroom
  show P _ m ∧ (k (memory A (.realloc size) m).1).Ensures _ P (memory A (.realloc size) m).2 Q ↔ _
  rw [hans]

/-! ### One step -/

namespace Memory

@[simp] theorem set_size (m : Memory) (i : Nat) (b : UInt8) : (m.set i b).size = m.size := rfl

@[simp] theorem set_byte (m : Memory) (i : Nat) (b : UInt8) :
    (m.set i b).byte = Function.update m.byte i b := rfl

@[simp] theorem set_stored (m : Memory) (i : Nat) (b : UInt8) :
    (m.set i b).stored = Function.update m.stored i true := rfl

@[simp] theorem grow_size (m : Memory) (junk : Nat → UInt8) (n : Nat) :
    (m.grow junk n).size = n := rfl

@[simp] theorem grow_stored (m : Memory) (junk : Nat → UInt8) (n : Nat) :
    (m.grow junk n).stored = m.stored := rfl

theorem byte_grow_of_lt {i : Nat} (h : i < m.size) (junk : Nat → UInt8) (n : Nat) :
    (m.grow junk n).byte i = m.byte i := if_pos h

/-! ### Strings -/

/-- At position `i` there are the bytes of `s`. -/
def Shows (m : Memory) (i : Nat) (s : Bytes) : Prop := ∀ k c, s[k]? = some c → m.byte (i + k) = c

/-- At position `i` there are the bytes of `s` and a NUL. -/
def Holds (m : Memory) : Nat → Bytes → Prop
  | i, [] => m.byte i = 0
  | i, c :: s => m.byte i = c ∧ m.Holds (i + 1) s

@[simp] theorem holds_nil {i : Nat} : m.Holds i [] ↔ m.byte i = 0 := Iff.rfl

@[simp] theorem holds_cons {i : Nat} {c : UInt8} {s : Bytes} :
    m.Holds i (c :: s) ↔ m.byte i = c ∧ m.Holds (i + 1) s := Iff.rfl

theorem shows_nil {i : Nat} : m.Shows i [] := fun k c hk => by simp at hk

theorem shows_cons {i : Nat} {c : UInt8} {s : Bytes} :
    m.Shows i (c :: s) ↔ m.byte i = c ∧ m.Shows (i + 1) s := by
  have hadd : ∀ k, i + 1 + k = i + (k + 1) := fun k => by omega
  constructor
  · intro h
    refine ⟨h 0 c rfl, fun k d hk => ?_⟩
    rw [hadd]
    exact h (k + 1) d hk
  · rintro ⟨hfirst, hrest⟩ k d hk
    cases k with
    | zero =>
      rw [List.getElem?_cons_zero] at hk
      cases hk
      exact hfirst
    | succ k =>
      rw [List.getElem?_cons_succ] at hk
      rw [← hadd]
      exact hrest k d hk

/-- A string is its bytes and its NUL. -/
theorem holds_iff {i : Nat} {s : Bytes} :
    m.Holds i s ↔ m.Shows i s ∧ m.byte (i + s.length) = 0 := by
  induction s generalizing i with
  | nil => exact ⟨fun h => ⟨shows_nil, h⟩, fun h => h.2⟩
  | cons c s ih =>
    have hlen : i + (c :: s).length = i + 1 + s.length := by
      rw [List.length_cons]
      omega
    rw [holds_cons, ih, shows_cons, hlen, and_assoc]

theorem shows_append {i : Nat} {s t : Bytes} :
    m.Shows i (s ++ t) ↔ m.Shows i s ∧ m.Shows (i + s.length) t := by
  induction s generalizing i with
  | nil => exact ⟨fun h => ⟨shows_nil, h⟩, fun h => h.2⟩
  | cons c s ih =>
    have hlen : i + (c :: s).length = i + 1 + s.length := by
      rw [List.length_cons]
      omega
    rw [List.cons_append, shows_cons, ih, shows_cons, hlen, and_assoc]

theorem holds_append {i : Nat} {s t : Bytes} :
    m.Holds i (s ++ t) ↔ m.Shows i s ∧ m.Holds (i + s.length) t := by
  rw [holds_iff, holds_iff, shows_append, List.length_append, Nat.add_assoc, and_assoc]

/-- A string in memory, with its NUL. -/
theorem Holds.shows {i : Nat} {s : Bytes} (hs : m.Holds i s) : m.Shows i (s ++ [0]) := by
  rw [shows_append, shows_cons]
  exact ⟨(holds_iff.mp hs).1, (holds_iff.mp hs).2, shows_nil⟩

/-- A buffer holds the string that it begins with. -/
theorem Shows.holds_cstr {i : Nat} {s : Bytes} (hs : m.Shows i (s ++ [0])) :
    m.Holds i (cstr s) := by
  induction s generalizing i with
  | nil => exact (shows_cons.mp hs).1
  | cons c s ih =>
    rw [List.cons_append, shows_cons] at hs
    unfold cstr at ih ⊢
    by_cases hc : c = 0
    · rw [List.takeWhile_cons_of_neg (by simpa using hc)]
      exact hs.1.trans hc
    · rw [List.takeWhile_cons_of_pos (by simpa using hc)]
      exact ⟨hs.1, ih hs.2⟩

/-- The bytes depend on their own places only. -/
theorem Shows.congr {m' : Memory} {i : Nat} {s : Bytes} (h : m.Shows i s)
    (hm : ∀ k, i ≤ k → k < i + s.length → m'.byte k = m.byte k) : m'.Shows i s := by
  intro k c hk
  have hlt : k < s.length := (List.getElem?_eq_some_iff.mp hk).1
  rw [hm _ (by omega) (by omega)]
  exact h k c hk

theorem Holds.congr {m' : Memory} {i : Nat} {s : Bytes} (h : m.Holds i s)
    (hm : ∀ k, i ≤ k → k ≤ i + s.length → m'.byte k = m.byte k) : m'.Holds i s := by
  rw [holds_iff] at h ⊢
  refine ⟨h.1.congr fun k hk hk' => hm k hk (by omega), ?_⟩
  rw [hm _ (by omega) le_rfl]
  exact h.2

/-- A store outside of a string leaves it alone. -/
theorem Holds.set_of_lt {i j : Nat} {s : Bytes} {b : UInt8} (h : m.Holds i s) (hj : j < i) :
    (m.set j b).Holds i s :=
  h.congr fun k hk _ => Function.update_of_ne (by omega) _ _

/-- The bytes in front of a store stay. -/
theorem Shows.set_of_le {i j : Nat} {s : Bytes} {b : UInt8} (h : m.Shows i s)
    (hj : i + s.length ≤ j) : (m.set j b).Shows i s :=
  h.congr fun k _ hk => Function.update_of_ne (by omega) _ _

/-- A store right behind some bytes. -/
theorem Shows.set_append {i j : Nat} {s : Bytes} {b : UInt8} (h : m.Shows i s)
    (hj : j = i + s.length) : (m.set j b).Shows i (s ++ [b]) := by
  rw [shows_append, shows_cons]
  refine ⟨h.set_of_le (by omega), ?_, shows_nil⟩
  rw [hj]
  exact Function.update_self _ _ _

/-- A NUL right behind some bytes. -/
theorem Shows.set_nul {i j : Nat} {s : Bytes} (h : m.Shows i s) (hj : j = i + s.length) :
    (m.set j 0).Holds i s := by
  rw [holds_iff]
  refine ⟨h.set_of_le (by omega), ?_⟩
  rw [hj]
  exact Function.update_self _ _ _

/-- A store right before a string. -/
theorem Holds.set_cons {i : Nat} {s : Bytes} {b : UInt8} (h : m.Holds (i + 1) s) :
    (m.set i b).Holds i (b :: s) :=
  ⟨Function.update_self _ _ _, h.set_of_lt (by omega)⟩

/-- The first byte of a string, which may be its NUL. -/
theorem Holds.byte_eq {i : Nat} {s : Bytes} (h : m.Holds i s) : m.byte i = s.head?.getD 0 := by
  cases s with
  | nil => exact h
  | cons c s => exact h.1

/-- A store to one of some bytes. -/
theorem Shows.set_mem {i j : Nat} {s : Bytes} {b : UInt8} (h : m.Shows i s) :
    (m.set (i + j) b).Shows i (s.set j b) := by
  intro k c hk
  rw [List.getElem?_set] at hk
  by_cases hjk : j = k
  · have hlt : j < s.length := by
      by_contra hge
      rw [if_pos hjk, if_neg hge] at hk
      cases hk
    rw [if_pos hjk, if_pos hlt] at hk
    cases hk
    rw [hjk]
    exact Function.update_self _ _ _
  · rw [if_neg hjk] at hk
    exact (Function.update_of_ne (by omega) _ _).trans (h k c hk)

/-- A call that stays inside a part of the block does not change the others. -/
theorem byte_of_within {i n : Nat} {c : MemCall} (hc : c.Within i n) {j : Nat}
    (hj : j < i ∨ i + n < j) : (memory A c m).2.byte j = m.byte j := by
  cases c with
  | load k => rfl
  | store k b =>
    have hne : j ≠ k := by
      obtain ⟨hk, hk'⟩ := hc
      omega
    exact Function.update_of_ne hne _ _
  | realloc size => exact hc.elim

/-- A block that begins with a string. -/
theorem holds_ofBlock (s rest : Bytes) : (ofBlock (s ++ 0 :: rest)).Holds 0 s := by
  rw [holds_iff]
  constructor
  · intro k c hk
    have hlt : k < s.length := (List.getElem?_eq_some_iff.mp hk).1
    show (s ++ 0 :: rest).getD (0 + k) 0 = c
    rw [Nat.zero_add, List.getD_eq_getElem?_getD, List.getElem?_append_left hlt, hk]
    rfl
  · show (s ++ 0 :: rest).getD (0 + s.length) 0 = 0
    rw [Nat.zero_add, List.getD_eq_getElem?_getD, List.getElem?_append_right le_rfl, Nat.sub_self]
    rfl

end Memory

/-! ### Library functions -/

/-- `strnlen` from position `i`, with at most `n` bytes to look at: the position of the NUL. -/
def strnlenFrom : Nat → Nat → MemProg Nat
  | 0, i => return i
  | n + 1, i => do
      if (← load i) = 0 then return i else strnlenFrom n (i + 1)

/-- The `n` bytes from position `i` on. -/
def loadBytes : Nat → Nat → MemProg Bytes
  | 0, _ => return []
  | n + 1, i => do
      let c ← load i
      let s ← loadBytes n (i + 1)
      return c :: s

/-- The string at position `i`, of fewer than `fuel` bytes. -/
def loadString : Nat → Nat → MemProg Bytes
  | 0, _ => Prog.spin
  | fuel + 1, i => do
      let c ← load i
      if c = 0 then return []
      else do
        let s ← loadString fuel (i + 1)
        return c :: s

/-- One round of `strchr`. -/
def strchrRound (c : UInt8) (i : Nat) : MemProg (Nat ⊕ Option Nat) := do
  let d ← load i
  if d = c then return .inr (some i)
  else if d = 0 then return .inr none
  else return .inl (i + 1)

/-- `strchr`: the first position of a byte in the string at position `i`. -/
def strchrAt (fuel : Nat) (c : UInt8) (i : Nat) : MemProg (Option Nat) :=
  Prog.loop fuel (strchrRound c) i

/-- `strncmp` of what is at position `i` with as many bytes as a literal has. -/
def matchesAt : Bytes → Nat → MemProg Bool
  | [], _ => return true
  | c :: lit, i => do
      if (← load i) = c then matchesAt lit (i + 1) else return false

/-- One round of `strsep`. -/
def strsepRound (delim : UInt8) (i : Nat) : MemProg (Nat ⊕ Option Nat) := do
  let c ← load i
  if c = 0 then return .inr none
  else if c = delim then do
    put i 0
    return .inr (some (i + 1))
  else return .inl (i + 1)

/-- `strsep`: the token that begins where the pointer points to, and the pointer afterwards. -/
def strsepAt (fuel : Nat) (delim : UInt8) : Option Nat → MemProg (Option Nat × Option Nat)
  | none => return (none, none)
  | some token => do
      let next ← Prog.loop fuel (strsepRound delim) token
      return (some token, next)

/-- `strnlen` finds the NUL. -/
theorem ensures_strnlenFrom {s : Bytes} {n i : Nat} (hs : m.Holds i s) (h0 : (0 : UInt8) ∉ s)
    (hn : s.length < n) (hP : ∀ k, i ≤ k → k ≤ i + s.length → P (.load k) m) :
    (strnlenFrom n i).Ensures (memory A) P m fun len m' => len = i + s.length ∧ m' = m := by
  induction n generalizing i s with
  | zero => omega
  | succ n ih =>
    unfold strnlenFrom
    rw [load_bind, ensures_load]
    refine ⟨hP i le_rfl (by omega), ?_⟩
    cases s with
    | nil =>
      rw [if_pos (Memory.holds_nil.mp hs)]
      exact ⟨rfl, rfl⟩
    | cons c s =>
      rw [List.mem_cons, not_or] at h0
      rw [List.length_cons] at hn hP ⊢
      have hc : m.byte i ≠ 0 := fun e => h0.1 (e.symm.trans hs.1)
      rw [if_neg hc]
      refine (ih hs.2 h0.2 (by omega) fun k hk hk' => hP k (by omega) (by omega)).mono ?_
      rintro len m' ⟨hlen, hm⟩
      exact ⟨by omega, hm⟩

/-- The bytes that are there. -/
theorem ensures_loadBytes {s : Bytes} {i : Nat} (hs : m.Shows i s)
    (hP : ∀ k, i ≤ k → k < i + s.length → P (.load k) m) :
    (loadBytes s.length i).Ensures (memory A) P m fun r m' => r = s ∧ m' = m := by
  induction s generalizing i with
  | nil => exact ⟨rfl, rfl⟩
  | cons c s ih =>
    rw [Memory.shows_cons] at hs
    rw [List.length_cons] at hP ⊢
    unfold loadBytes
    rw [load_bind, ensures_load]
    refine ⟨hP i le_rfl (by omega), ?_⟩
    refine (ih hs.2 fun k hk hk' => hP k (by omega) (by omega)).bind ?_
    rintro _ m' ⟨rfl, rfl⟩
    rw [hs.1]
    exact ⟨rfl, rfl⟩

/-- The string that is there. -/
theorem ensures_loadString {s : Bytes} {fuel i : Nat} (hs : m.Holds i s) (h0 : (0 : UInt8) ∉ s)
    (hfuel : s.length < fuel) (hP : ∀ k, i ≤ k → k ≤ i + s.length → P (.load k) m) :
    (loadString fuel i).Ensures (memory A) P m fun r m' => r = s ∧ m' = m := by
  induction s generalizing i fuel with
  | nil =>
    obtain ⟨fuel, rfl⟩ := Nat.exists_eq_succ_of_ne_zero (Nat.ne_of_gt hfuel)
    unfold loadString
    rw [load_bind, ensures_load, if_pos (Memory.holds_nil.mp hs)]
    exact ⟨hP i le_rfl (Nat.le_add_right _ _), rfl, rfl⟩
  | cons c s ih =>
    rw [List.mem_cons, not_or] at h0
    rw [List.length_cons] at hfuel hP
    obtain ⟨fuel, rfl⟩ := Nat.exists_eq_succ_of_ne_zero (Nat.ne_zero_of_lt hfuel)
    have hc : m.byte i ≠ 0 := fun e => h0.1 (e.symm.trans hs.1)
    unfold loadString
    rw [load_bind, ensures_load, if_neg hc]
    refine ⟨hP i le_rfl (by omega), ?_⟩
    refine (ih hs.2 h0.2 (by omega) fun k hk hk' => hP k (by omega) (by omega)).bind ?_
    rintro _ m' ⟨rfl, rfl⟩
    rw [hs.1]
    exact ⟨rfl, rfl⟩

/-- The byte is not in the string. -/
theorem ensures_strchrAt_none {s : Bytes} {c : UInt8} {fuel i : Nat} (hs : m.Holds i s)
    (hc : c ∉ s) (hc0 : c ≠ 0) (h0 : (0 : UInt8) ∉ s) (hfuel : s.length < fuel)
    (hP : ∀ k, i ≤ k → k ≤ i + s.length → P (.load k) m) :
    (strchrAt fuel c i).Ensures (memory A) P m fun r m' => r = none ∧ m' = m := by
  unfold strchrAt
  induction s generalizing i fuel with
  | nil =>
    obtain ⟨fuel, rfl⟩ := Nat.exists_eq_succ_of_ne_zero (Nat.ne_of_gt hfuel)
    have hbyte : m.byte i = 0 := hs
    refine Prog.Ensures.loop_succ ?_
    unfold strchrRound
    rw [load_bind, ensures_load, hbyte, if_neg hc0.symm, if_pos rfl]
    exact ⟨hP i le_rfl (Nat.le_add_right _ _), rfl, rfl⟩
  | cons d s ih =>
    rw [List.mem_cons, not_or] at hc h0
    rw [List.length_cons] at hfuel hP
    obtain ⟨fuel, rfl⟩ := Nat.exists_eq_succ_of_ne_zero (Nat.ne_zero_of_lt hfuel)
    have hd : m.byte i ≠ c := fun e => hc.1 (e.symm.trans hs.1)
    have hd0 : m.byte i ≠ 0 := fun e => h0.1 (e.symm.trans hs.1)
    refine Prog.Ensures.loop_succ ?_
    unfold strchrRound
    rw [load_bind, ensures_load, if_neg hd, if_neg hd0]
    refine ⟨hP i le_rfl (by omega), ?_⟩
    exact ih hs.2 hc.2 h0.2 (by omega) fun k hk hk' => hP k (by omega) (by omega)

/-- The first such byte of the string. -/
theorem ensures_strchrAt_some {s t : Bytes} {c : UInt8} {fuel i : Nat}
    (hs : m.Holds i (s ++ c :: t)) (hc : c ∉ s) (h0 : (0 : UInt8) ∉ s) (hfuel : s.length < fuel)
    (hP : ∀ k, i ≤ k → k ≤ i + s.length → P (.load k) m) :
    (strchrAt fuel c i).Ensures (memory A) P m fun r m' => r = some (i + s.length) ∧ m' = m := by
  unfold strchrAt
  induction s generalizing i fuel with
  | nil =>
    obtain ⟨fuel, rfl⟩ := Nat.exists_eq_succ_of_ne_zero (Nat.ne_of_gt hfuel)
    refine Prog.Ensures.loop_succ ?_
    unfold strchrRound
    rw [load_bind, ensures_load, if_pos hs.1]
    exact ⟨hP i le_rfl (Nat.le_add_right _ _), rfl, rfl⟩
  | cons d s ih =>
    rw [List.mem_cons, not_or] at hc h0
    rw [List.length_cons] at hfuel hP
    obtain ⟨fuel, rfl⟩ := Nat.exists_eq_succ_of_ne_zero (Nat.ne_zero_of_lt hfuel)
    have hd : m.byte i ≠ c := fun e => hc.1 (e.symm.trans hs.1)
    have hd0 : m.byte i ≠ 0 := fun e => h0.1 (e.symm.trans hs.1)
    have hlen : i + (d :: s).length = i + 1 + s.length := by
      rw [List.length_cons]
      omega
    refine Prog.Ensures.loop_succ ?_
    unfold strchrRound
    rw [load_bind, ensures_load, if_neg hd, if_neg hd0, hlen]
    refine ⟨hP i le_rfl (by omega), ?_⟩
    exact ih hs.2 hc.2 h0.2 (by omega) fun k hk hk' => hP k (by omega) (by omega)

/-- The comparison stops at the NUL of the string, unless the literal ends there as well. -/
theorem ensures_matchesAt {lit s : Bytes} {i : Nat} (hs : m.Holds i s)
    (hlit : (0 : UInt8) ∉ lit.dropLast) (hP : ∀ k, i ≤ k → k ≤ i + s.length → P (.load k) m) :
    (matchesAt lit i).Ensures (memory A) P m fun r m' =>
      r = lit.isPrefixOf (s ++ [0]) ∧ m' = m := by
  induction lit generalizing i s with
  | nil => exact ⟨rfl, rfl⟩
  | cons c lit ih =>
    unfold matchesAt
    rw [load_bind, ensures_load]
    refine ⟨hP i le_rfl (by omega), ?_⟩
    have hrest : (0 : UInt8) ∉ lit.dropLast := by
      cases lit with
      | nil => exact List.not_mem_nil
      | cons d lit => exact fun h => hlit (List.mem_cons_of_mem _ h)
    cases s with
    | nil =>
      by_cases hc : m.byte i = c
      · -- the literal has its NUL here
        have hc0 : c = 0 := hc.symm.trans hs
        have hend : lit = [] := by
          cases lit with
          | nil => rfl
          | cons d lit => exact absurd (hc0 ▸ List.mem_cons_self) hlit
        rw [if_pos hc, hend, hc0]
        exact ⟨rfl, rfl⟩
      · have hne : (c == 0) = false := beq_false_of_ne fun e => hc (hs.trans e.symm)
        rw [if_neg hc, List.nil_append, List.isPrefixOf_cons_cons, hne]
        exact ⟨rfl, rfl⟩
    | cons b s =>
      rw [List.length_cons] at hP
      rw [List.cons_append, List.isPrefixOf_cons_cons, ← hs.1]
      by_cases hc : m.byte i = c
      · rw [if_pos hc, hc, beq_self_eq_true, Bool.true_and]
        exact ih hs.2 hrest fun k hk hk' => hP k (by omega) (by omega)
      · rw [if_neg hc, beq_false_of_ne (Ne.symm hc), Bool.false_and]
        exact ⟨rfl, rfl⟩

variable {delim : UInt8} {tok rest : Bytes} {fuel i : Nat}

/-- `strsep` goes on until the token ends. -/
theorem ensures_strsep {Q : Option Nat → Memory → Prop} {t : Bytes} (hs : m.Holds i (tok ++ t))
    (h0 : (0 : UInt8) ∉ tok) (hd : delim ∉ tok) (hfuel : tok.length < fuel)
    (hP : ∀ k, i ≤ k → k < i + tok.length → P (.load k) m)
    (hend : (strsepRound delim (i + tok.length)).Ensures (memory A) P m fun r m' =>
      ∃ next, r = .inr next ∧ Q next m') :
    (Prog.loop fuel (strsepRound delim) i).Ensures (memory A) P m Q := by
  refine Prog.Ensures.loop
    (I := fun j m' => m' = m ∧ ∃ b, m.Holds j (b ++ t) ∧ (0 : UInt8) ∉ b ∧ delim ∉ b ∧ i ≤ j ∧
      j + b.length = i + tok.length)
    (μ := fun j => i + tok.length - j) ?_ (by omega) ⟨rfl, tok, hs, h0, hd, le_rfl, rfl⟩
  rintro j m' ⟨rfl, b, hb, hb0, hbd, hij, hlen⟩
  cases b with
  | nil =>
    rw [List.length_nil, Nat.add_zero] at hlen
    rw [hlen]
    refine hend.mono ?_
    rintro r m' ⟨next, rfl, hQ⟩
    exact hQ
  | cons c b =>
    rw [List.mem_cons, not_or] at hb0 hbd
    rw [List.length_cons] at hlen
    unfold strsepRound
    rw [load_bind, ensures_load]
    refine ⟨hP j hij (by omega), ?_⟩
    have hc0 : m'.byte j ≠ 0 := fun e => hb0.1 (e.symm.trans hb.1)
    have hcd : m'.byte j ≠ delim := fun e => hbd.1 (e.symm.trans hb.1)
    rw [if_neg hc0, if_neg hcd]
    exact ⟨⟨rfl, b, hb.2, hb0.2, hbd.2, by omega, by omega⟩, by omega⟩

/-- The token ends with a delimiter, which is replaced by a NUL. -/
theorem ensures_strsepAt_delim (hs : m.Holds i (tok ++ delim :: rest)) (h0 : (0 : UInt8) ∉ tok)
    (hd : delim ∉ tok) (hd0 : delim ≠ 0) (hfuel : tok.length < fuel)
    (hP : ∀ k, i ≤ k → k ≤ i + tok.length → P (.load k) m)
    (hput : P (.store (i + tok.length) 0) m) :
    (strsepAt fuel delim (some i)).Ensures (memory A) P m fun r m' =>
      r = (some i, some (i + tok.length + 1)) ∧ m' = m.set (i + tok.length) 0 := by
  have hbyte : m.byte (i + tok.length) = delim := (Memory.holds_append.mp hs).2.1
  refine Prog.Ensures.bind
    (Q := fun next m' => next = some (i + tok.length + 1) ∧ m' = m.set (i + tok.length) 0)
    (ensures_strsep hs h0 hd hfuel (fun k hk hk' => hP k hk (by omega)) ?_) ?_
  · unfold strsepRound
    rw [load_bind, ensures_load, hbyte, if_neg hd0, if_pos rfl, put_bind, ensures_store]
    exact ⟨hP _ (by omega) le_rfl, hput, _, rfl, rfl, rfl⟩
  · rintro next m' ⟨rfl, rfl⟩
    exact ⟨rfl, rfl⟩

/-- The token ends with the string. -/
theorem ensures_strsepAt_last (hs : m.Holds i tok) (h0 : (0 : UInt8) ∉ tok) (hd : delim ∉ tok)
    (hfuel : tok.length < fuel) (hP : ∀ k, i ≤ k → k ≤ i + tok.length → P (.load k) m) :
    (strsepAt fuel delim (some i)).Ensures (memory A) P m fun r m' =>
      r = (some i, none) ∧ m' = m := by
  have hbyte : m.byte (i + tok.length) = 0 := (Memory.holds_iff.mp hs).2
  have hs' : m.Holds i (tok ++ []) := by
    rw [List.append_nil]
    exact hs
  refine Prog.Ensures.bind (Q := fun next m' => next = none ∧ m' = m)
    (ensures_strsep hs' h0 hd hfuel (fun k hk hk' => hP k hk (by omega)) ?_) ?_
  · unfold strsepRound
    rw [load_bind, ensures_load, hbyte, if_pos rfl]
    exact ⟨hP _ (by omega) le_rfl, none, rfl, rfl, rfl⟩
  · rintro next m' ⟨rfl, rfl⟩
    exact ⟨rfl, rfl⟩

end Posix
