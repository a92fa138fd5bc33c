import ClipShare.Posix.Strings
import Mathlib.Data.List.Infix

namespace Posix

/-!
# Blocks of memory

A block that was allocated is the list of its bytes.  A write names a position; it is a fault if
it does not stay inside the block.

* `malloc` / `realloc` — a fresh block, and a block of another size with the same contents;
* `store` — a write, which fails outside of the block;
* `strncpy` / `snprintf` — the writes of the library functions for strings;
* `strstr` / `strnlen` — searches in the string that a block holds;
* `HoldsString` — the string at a position of a block.
-/

/-- A fresh block; nobody has set its bytes. -/
def malloc (junk : Nat → UInt8) (size : Nat) : Bytes := (List.range size).map junk

/-- The block with another size: what fits of the old bytes, and bytes that nobody has set. -/
def realloc (junk : Nat → UInt8) (block : Bytes) (size : Nat) : Bytes :=
  block.take size ++ malloc junk (size - block.length)

/-- Write `b` at position `i` of a block; none if that is outside of the block. -/
def store (block : Bytes) (i : Nat) (b : Bytes) : Option Bytes :=
  if i + b.length ≤ block.length then some (block.take i ++ b ++ block.drop (i + b.length))
  else none

/-- What `strncpy` writes for a string: at most `n` bytes of it, and NULs up to `n` bytes. -/
def strncpy (block : Bytes) (i : Nat) (src : Bytes) (n : Nat) : Option Bytes :=
  store block i ((cstr src).take n ++ List.replicate (n - (cstr src).length) 0)

/-- What `snprintf` writes for a text at a position with room for `size` bytes: as much of the text
    as fits with its NUL. -/
def snprintf (block : Bytes) (i size : Nat) (text : Bytes) : Option Bytes :=
  if size = 0 then some block else store block i (text.take (size - 1) ++ [0])

/-- The position of the first `needle` in the string of a block. -/
def strstr (block needle : Bytes) : Option Nat :=
  (cstr block).tails.findIdx? fun t => needle.isPrefixOf t

/-- The length of the string of a block, of which at most `n` bytes are looked at. -/
def strnlen (block : Bytes) (n : Nat) : Nat := (cstr (block.take n)).length

theorem length_malloc (junk : Nat → UInt8) (size : Nat) : (malloc junk size).length = size := by
  unfold malloc
  rw [List.length_map, List.length_range]

theorem length_realloc (junk : Nat → UInt8) (block : Bytes) (size : Nat) :
    (realloc junk block size).length = size := by
  unfold realloc
  rw [List.length_append, List.length_take, length_malloc]
  omega

/-! ### Writes -/

variable {block block' b : Bytes} {i : Nat}

/-- A write succeeds exactly if it stays inside the block. -/
theorem store_eq_none_iff : store block i b = none ↔ block.length < i + b.length := by
  unfold store
  split
  · rename_i h
    exact ⟨nofun, fun h' => absurd h (by omega)⟩
  · rename_i h
    exact ⟨fun _ => by omega, fun _ => rfl⟩

/-- A write does not change the size of the block. -/
theorem length_store (h : store block i b = some block') : block'.length = block.length := by
  unfold store at h
  split at h
  · cases h
    rw [List.length_append, List.length_append, List.length_take, List.length_drop]
    omega
  · cases h

/-- A write after what is in use. -/
theorem store_append (s b free : Bytes) (h : b.length ≤ free.length) :
    store (s ++ free) s.length b = some (s ++ b ++ free.drop b.length) := by
  have hroom : s.length + b.length ≤ (s ++ free).length := by
    rw [List.length_append]
    omega
  unfold store
  rw [if_pos hroom, List.take_left, List.drop_length_add_append]

/-- A write that stays inside the block. -/
theorem store_of_le (h : i + b.length ≤ block.length) :
    store block i b = some (block.take i ++ b ++ block.drop (i + b.length)) := if_pos h

/-- A string that is shorter than what `strncpy` may write is written with its NUL. -/
theorem strncpy_of_length (block : Bytes) (i : Nat) (b : Bytes) (h : (0 : UInt8) ∉ b) :
    strncpy block i b (b.length + 1) = store block i (b ++ [0]) := by
  unfold strncpy
  rw [cstr_of_not_mem h, List.take_of_length_le (Nat.le_succ _), Nat.add_sub_cancel_left]
  rfl

/-- `strncpy` does not change the size of the block. -/
theorem length_strncpy {src : Bytes} {n : Nat} (h : strncpy block i src n = some block') :
    block'.length = block.length := length_store h

/-- A write at the start of what is left of a block. -/
theorem store_eq_append {s b free : Bytes} (hi : s.length = i)
    (h : store (s ++ free) i b = some block') : block' = s ++ b ++ free.drop b.length := by
  subst hi
  have hroom : b.length ≤ free.length := by
    by_contra hlt
    rw [store_eq_none_iff.mpr (by rw [List.length_append]; omega)] at h
    cases h
  rw [store_append s b free hroom] at h
  exact (Option.some.inj h).symm

/-! ### Strings in a block -/

/-- From position `i` on the block holds the string `s`. -/
structure HoldsString (block : Bytes) (i : Nat) (s : Bytes) : Prop where
  nul : (0 : UInt8) ∉ s
  drop : ∃ rest, block.drop i = s ++ 0 :: rest

namespace HoldsString

variable {s src dest : Bytes} {j n : Nat}

/-- A string with its NUL, at the front of a block. -/
theorem of_not_mem (h0 : (0 : UInt8) ∉ s) (rest : Bytes) : HoldsString (s ++ 0 :: rest) 0 s :=
  ⟨h0, rest, rfl⟩

/-- The string of a block that begins with bytes and a NUL. -/
theorem of_append (s rest : Bytes) : HoldsString (s ++ 0 :: rest) 0 (cstr s) := by
  refine ⟨zero_not_mem_cstr s, ?_⟩
  by_cases h0 : (0 : UInt8) ∈ s
  · obtain ⟨u, v, rfl, hu⟩ := List.eq_append_cons_of_mem h0
    rw [cstr_append_zero, cstr_of_not_mem hu]
    exact ⟨v ++ 0 :: rest, by simp⟩
  · rw [cstr_of_not_mem h0]
    exact ⟨rest, rfl⟩

/-- A string with more than one NUL behind it. -/
theorem of_padded (h0 : (0 : UInt8) ∉ s) (n : Nat) (rest : Bytes) :
    HoldsString (s ++ List.replicate n 0 ++ 0 :: rest) 0 s := by
  have hcstr : cstr (s ++ List.replicate n 0) = s := by
    cases n with
    | zero => rw [List.replicate_zero, List.append_nil, cstr_of_not_mem h0]
    | succ n => rw [List.replicate_succ, cstr_append_zero, cstr_of_not_mem h0]
  have := of_append (s ++ List.replicate n 0) rest
  rwa [hcstr] at this

theorem cstr_drop (h : HoldsString block i s) : cstr (block.drop i) = s := by
  obtain ⟨rest, hrest⟩ := h.drop
  rw [hrest, cstr_append_zero, cstr_of_not_mem h.nul]

/-- The string and its NUL are inside the block. -/
theorem length_lt (h : HoldsString block i s) : i + s.length < block.length := by
  obtain ⟨rest, hrest⟩ := h.drop
  have hlen := congrArg List.length hrest
  rw [List.length_drop, List.length_append, List.length_cons] at hlen
  omega

/-- The string from a later position on. -/
theorem drop_add (h : HoldsString block i s) {k : Nat} (hk : k ≤ s.length) :
    HoldsString block (i + k) (s.drop k) := by
  obtain ⟨rest, hrest⟩ := h.drop
  refine ⟨fun h0 => h.nul (List.mem_of_mem_drop h0), rest, ?_⟩
  rw [← List.drop_drop, hrest, List.drop_append_of_le_length hk]

/-- A string that was written with its NUL. -/
theorem of_store (h0 : (0 : UInt8) ∉ s) {t : Bytes}
    (h : store block i (s ++ 0 :: t) = some block') : HoldsString block' i s := by
  unfold store at h
  split at h
  · rename_i hroom
    cases h
    refine ⟨h0, t ++ block.drop (i + (s ++ 0 :: t).length), ?_⟩
    have hi : (block.take i).length = i := List.length_take_of_le (by omega)
    rw [List.append_assoc, List.drop_left' hi]
    simp
  · cases h

/-- `strnlen` of a string that is shorter than what it may look at. -/
theorem strnlen_eq (h : HoldsString block i s) (hn : s.length < n) :
    strnlen (block.drop i) n = s.length := by
  obtain ⟨rest, hrest⟩ := h.drop
  obtain ⟨k, rfl⟩ := Nat.exists_eq_add_of_lt hn
  unfold strnlen
  rw [hrest, List.take_append, List.take_of_length_le (by omega),
    show s.length + k + 1 - s.length = k + 1 by omega, List.take_succ_cons, cstr_append_zero,
    cstr_of_not_mem h.nul]

/-- `strncpy` of a string that is shorter than what it may write. -/
theorem strncpy_eq (h : HoldsString src j s) (hn : s.length < n) (dest : Bytes) (i : Nat) :
    strncpy dest i (src.drop j) n = store dest i (s ++ List.replicate (n - s.length) 0) := by
  unfold strncpy
  rw [h.cstr_drop, List.take_of_length_le hn.le]

end HoldsString

/-! ### Searches -/

/-- A string that is short enough is measured to its end. -/
theorem strnlen_of_length_le {s : Bytes} {n : Nat} (h0 : (0 : UInt8) ∉ s) (hn : s.length ≤ n) :
    strnlen s n = s.length := by
  unfold strnlen
  rw [List.take_of_length_le hn, cstr_of_not_mem h0]

/-- The search succeeds exactly if the needle is in the string. -/
theorem strstr_isSome_iff {needle : Bytes} :
    (strstr block needle).isSome ↔ needle <:+: cstr block := by
  unfold strstr
  rw [List.findIdx?_isSome, List.any_eq_true, List.infix_iff_prefix_suffix]
  constructor
  · rintro ⟨t, ht, hp⟩
    exact ⟨t, List.isPrefixOf_iff_prefix.mp hp, (List.mem_tails _ _).mp ht⟩
  · rintro ⟨t, hp, ht⟩
    exact ⟨t, (List.mem_tails _ _).mpr ht, List.isPrefixOf_iff_prefix.mpr hp⟩

/-- What is found lies inside the string. -/
theorem strstr_bound {needle : Bytes} (h : strstr block needle = some i) :
    i + needle.length ≤ (cstr block).length := by
  unfold strstr at h
  obtain ⟨hi, hp, -⟩ := List.findIdx?_eq_some_iff_getElem.mp h
  rw [List.getElem_tails] at hp
  have hlen := (List.isPrefixOf_iff_prefix.mp hp).length_le
  rw [List.length_tails] at hi
  rw [List.length_drop] at hlen
  omega

/-- The needle is found where it occurs first. -/
theorem strstr_eq {needle a t : Bytes} (hne : needle ≠ [])
    (hblock : cstr block = a ++ (needle ++ t)) (hfirst : ¬ needle <:+: a ++ needle.dropLast) :
    strstr block needle = some a.length := by
  unfold strstr
  rw [List.findIdx?_eq_some_iff_getElem]
  have hlen : a.length < (cstr block).tails.length := by
    rw [List.length_tails, hblock, List.length_append]
    omega
  refine ⟨hlen, ?_, fun j hj => ?_⟩
  · rw [List.getElem_tails, hblock, List.drop_left, List.isPrefixOf_iff_prefix]
    exact List.prefix_append _ _
  · rw [List.getElem_tails, hblock]
    intro hp
    obtain ⟨u, hu⟩ := List.isPrefixOf_iff_prefix.mp hp
    -- what is found earlier ends before the last byte of the needle
    apply hfirst
    have hpos := List.length_pos_iff.mpr hne
    have hwhole : a ++ (needle ++ t) = (a ++ needle.dropLast) ++ (needle.getLast hne :: t) := by
      rw [List.append_assoc, ← List.singleton_append, ← List.append_assoc needle.dropLast,
        List.dropLast_append_getLast]
    have hsplit : a ++ (needle ++ t) = ((a ++ (needle ++ t)).take j ++ needle) ++ u := by
      rw [List.append_assoc, hu, List.take_append_drop]
    have hpre : (a ++ (needle ++ t)).take j ++ needle <+: a ++ needle.dropLast := by
      refine List.prefix_of_prefix_length_le ⟨u, hsplit.symm⟩ ⟨_, hwhole.symm⟩ ?_
      simp only [List.length_append, List.length_take, List.length_dropLast]
      omega
    exact (List.infix_append' _ needle []).trans (by simpa using hpre.isInfix)

end Posix
