import ClipShare.Posix.Growing
import ClipShare.Server.ListUtils
import Mathlib.Data.List.Infix

namespace ClipShare

open Posix

/-!
# The growing list keeps its elements

`list2` is a list that grows by doubling up to `UINT32_MAX` elements: whatever `realloc` does, its
cells hold the elements that it had room for.

* `List2.Models` — the record and its block stand for a `Growing`;
* `List2.append_models` — one call of `append`;
* `List2.appendAll_keeps` — any number of calls.
-/

variable {α : Type} (junk : Nat → α) {lst : List2 α} {ok : Bool}

/-- `UINT32_MAX`. -/
def uint32Max : Nat := 4294967295

theorem toNat_le_uint32Max (n : UInt32) : n.toNat ≤ uint32Max := by
  have hn := n.toNat_lt
  unfold uint32Max
  omega

/-- The number of bytes does not wrap around. -/
theorem cellCount_arrayBytes (n : UInt32) : cellCount (arrayBytes n) = n.toNat := by
  have hn := n.toNat_lt
  have hbytes : (arrayBytes n).toNat = 8 * n.toNat := by
    unfold arrayBytes
    rw [UInt64.toNat_mul, UInt32.toNat_toUInt64]
    have h8 : (8 : UInt64).toNat = 8 := rfl
    rw [h8]
    omega
  unfold cellCount
  omega

/-! ### The growth rule -/

/-- A list refuses to grow only at the limit. -/
theorem newCapacity_eq_none_iff (c : UInt32) : newCapacity c = none ↔ c.toNat = uint32Max := by
  have hc := toNat_le_uint32Max c
  have hhalf : c ≤ 0x7FFFFFFF ↔ c.toNat ≤ 0x7FFFFFFF := UInt32.le_iff_toNat_le
  have hmax : c ≥ 0xFFFFFFFF ↔ 0xFFFFFFFF ≤ c.toNat := UInt32.le_iff_toNat_le
  unfold newCapacity uint32Max at *
  split
  · rename_i h
    exact ⟨nofun, fun e => absurd (hhalf.mp h) (by omega)⟩
  · split
    · rename_i h
      exact ⟨fun _ => by have := hmax.mp h; omega, fun _ => rfl⟩
    · rename_i h
      exact ⟨nofun, fun e => absurd (hmax.mpr (by omega)) h⟩

/-- The capacity doubles, or it goes up to the limit. -/
theorem toNat_newCapacity {c newCap : UInt32} (h : newCapacity c = some newCap) :
    newCap.toNat = min (2 * c.toNat) uint32Max := by
  have hc := c.toNat_lt
  have hhalf : c ≤ 0x7FFFFFFF ↔ c.toNat ≤ 0x7FFFFFFF := UInt32.le_iff_toNat_le
  unfold newCapacity at h
  unfold uint32Max
  split at h
  · rename_i hle
    cases h
    have htwo : (c * 2).toNat = c.toNat * 2 % 2 ^ 32 := UInt32.toNat_mul c 2
    have := hhalf.mp hle
    omega
  · rename_i hgt
    rw [hhalf] at hgt
    split at h
    · cases h
    · cases h
      have hmax : (0xFFFFFFFF : UInt32).toNat = 4294967295 := rfl
      omega

/-! ### The list and its block -/

namespace List2

/-- The record and its block hold the elements and the capacity of a growing list. -/
structure Models (lst : List2 α) (g : Growing α uint32Max) : Prop where
  len : lst.len.toNat = g.elems.length
  capacity : lst.capacity.toNat = g.capacity
  block : lst.array.length = g.capacity
  cells : g.elems <+: lst.array

variable {g : Growing α uint32Max}

/-- The cells in use. -/
theorem Models.take_len (h : lst.Models g) : lst.array.take lst.len.toNat = g.elems := by
  rw [h.len]
  exact (List.prefix_iff_eq_take.mp h.cells).symm

theorem Models.len_le (h : lst.Models g) : lst.len ≤ lst.capacity := by
  rw [UInt32.le_iff_toNat_le, h.len, h.capacity]
  exact g.fits

/-- A list is full exactly if there is no room for an element. -/
theorem Models.full_iff (h : lst.Models g) :
    lst.len ≥ lst.capacity ↔ ¬ g.elems.length < g.capacity := by
  rw [ge_iff_le, UInt32.le_iff_toNat_le, h.len, h.capacity, Nat.not_lt]

/-- The list cannot grow: it returns as it is. -/
theorem makeRoom_eq_none (h : lst.Models g) (hcan : ¬ g.CanAdd ok) :
    lst.makeRoom junk ok = none := by
  have hfull := h.full_iff.mpr fun hroom => hcan (.inl hroom)
  unfold makeRoom
  rw [if_pos hfull]
  cases hnew : newCapacity lst.capacity with
  | none => rfl
  | some newCap =>
    have hlimit : g.capacity < uint32Max := by
      have hne : lst.capacity.toNat ≠ uint32Max := by
        rw [Ne, ← newCapacity_eq_none_iff, hnew]
        nofun
      have hle := toNat_le_uint32Max lst.capacity
      rw [h.capacity] at hne hle
      omega
    have hok : ¬ ok = true := fun hok => hcan (.inr ⟨hok, hlimit⟩)
    exact if_neg hok

/-- The list has room, or it grows: the elements stay where they are. -/
theorem makeRoom_models (h : lst.Models g) (hcan : g.CanAdd ok) :
    ∃ lst', lst.makeRoom junk ok = some lst' ∧ lst'.len = lst.len ∧ lst'.capacity.toNat = g.room ∧
      lst'.array.length = g.room ∧ g.elems <+: lst'.array := by
  unfold makeRoom Growing.room
  by_cases hroom : g.elems.length < g.capacity
  · have hnot : ¬ lst.len ≥ lst.capacity := fun hfull => h.full_iff.mp hfull hroom
    rw [if_neg hnot, if_pos hroom]
    exact ⟨lst, rfl, rfl, h.capacity, h.block, h.cells⟩
  · obtain ⟨hok, hlimit⟩ := hcan.resolve_left hroom
    rw [if_pos (h.full_iff.mpr hroom), if_neg hroom]
    cases hnew : newCapacity lst.capacity with
    | none =>
      rw [newCapacity_eq_none_iff, h.capacity] at hnew
      omega
    | some newCap =>
      have hcap := toNat_newCapacity hnew
      rw [h.capacity] at hcap
      -- the whole of the old block fits
      have htake : lst.array.take newCap.toNat = lst.array :=
        List.take_of_length_le (by rw [h.block]; have := g.pos; omega)
      refine ⟨_, if_pos hok, rfl, hcap, ?_, ?_⟩
      · rw [cellCount_arrayBytes, htake, List.length_append, List.length_map, List.length_range,
          h.block]
        have := g.pos
        omega
      · rw [cellCount_arrayBytes, htake]
        exact h.cells.trans (List.prefix_append _ _)

/-- **Step lemma.**  `append` adds the element if it fits or the list can grow; otherwise the list
    stays as it is. -/
theorem append_models (h : lst.Models g) (ok : Bool) (elem : α) :
    ∃ lst', lst.append junk ok elem = some lst' ∧ lst'.Models (g.add ok elem) ∧
      (¬ g.CanAdd ok → lst' = lst) := by
  unfold append
  by_cases hcan : g.CanAdd ok
  · obtain ⟨room, hroom, hlen, hcap, hblock, hcells⟩ := makeRoom_models junk h hcan
    obtain ⟨hfree, -, hmax⟩ := Growing.room_bounds hcan
    have hstore : room.len.toNat < room.array.length := by
      rw [hlen, h.len, hblock]
      exact hfree
    obtain ⟨behind, hbehind⟩ := hcells
    have hset : room.array.set g.elems.length elem = g.elems ++ behind.set 0 elem := by
      rw [← hbehind, List.set_append_right _ _ (Nat.le_refl _), Nat.sub_self]
    have hne : behind ≠ [] := by
      rintro rfl
      rw [List.append_nil] at hbehind
      rw [← hbehind] at hblock
      omega
    obtain ⟨b, bs, rfl⟩ := List.exists_cons_of_ne_nil hne
    rw [hroom]
    refine ⟨_, if_pos hstore, ⟨?_, ?_, ?_, ?_⟩, fun hnot => absurd hcan hnot⟩
    · have hone : (room.len + 1).toNat = (room.len.toNat + 1) % 2 ^ 32 := UInt32.toNat_add _ 1
      rw [Growing.elems_add hcan, List.length_append, List.length_singleton]
      have hlimit : uint32Max = 4294967295 := rfl
      rw [hone, hlen, h.len]
      omega
    · rw [Growing.capacity_add hcan]
      exact hcap
    · rw [Growing.capacity_add hcan, List.length_set]
      exact hblock
    · rw [Growing.elems_add hcan, hlen, h.len, hset, List.set_cons_zero]
      exact ⟨bs, by rw [List.append_assoc]; rfl⟩
  · rw [makeRoom_eq_none junk h hcan, Growing.add_of_not hcan]
    exact ⟨lst, rfl, h, fun _ => rfl⟩

/-- **Run lemma.** -/
theorem appendAll_models (h : lst.Models g) (calls : List (α × Bool)) :
    ∃ lst', lst.appendAll junk calls = some lst' ∧ lst'.Models (g.addAll calls) := by
  unfold appendAll Growing.addAll
  induction calls generalizing lst g with
  | nil => exact ⟨lst, rfl, h⟩
  | cons call calls ih =>
    obtain ⟨mid, hmid, hmodels, -⟩ := append_models junk h call.2 call.1
    obtain ⟨lst', hrun, hlst'⟩ := ih hmodels
    refine ⟨lst', ?_, hlst'⟩
    rw [List.foldlM_cons, hmid]
    exact hrun

/-- A list that `init_list` has made. -/
theorem models_initList {mallocOk arrayOk : Bool} {cap : UInt32} (hcap : 0 < cap.toNat)
    (h : initList junk mallocOk arrayOk cap = some lst) :
    lst.Models (Growing.empty cap.toNat hcap (toNat_le_uint32Max cap)) := by
  unfold initList at h
  split at h
  · cases h
    refine ⟨rfl, rfl, ?_, List.nil_prefix⟩
    rw [List.length_map, List.length_range, cellCount_arrayBytes]
    rfl
  · cases h

/-- What becomes of a list with room for `cap` elements. -/
def grown (cap : UInt32) (hcap : 0 < cap.toNat) (calls : List (α × Bool)) : Growing α uint32Max :=
  (Growing.empty cap.toNat hcap (toNat_le_uint32Max cap)).addAll calls

/-- **Elements are kept.**  After any number of calls of `append`, the cells in use hold the
    elements that there was room for or room could be had for, in order; the length stays within the
    capacity and the capacity within `UINT32_MAX`, and an append that cannot grow the list changes
    nothing. -/
theorem appendAll_keeps {mallocOk arrayOk : Bool} {cap : UInt32} (hcap : 0 < cap.toNat)
    (hlst : initList junk mallocOk arrayOk cap = some lst) (calls : List (α × Bool)) :
    ∃ lst', lst.appendAll junk calls = some lst' ∧ lst'.len ≤ lst'.capacity ∧
      lst'.array.length = lst'.capacity.toNat ∧
      lst'.capacity.toNat = (grown cap hcap calls).capacity ∧
      lst'.array.take lst'.len.toNat = (grown cap hcap calls).elems ∧
      ∀ elem reallocOk, lst'.len = lst'.capacity →
        (reallocOk = false ∨ newCapacity lst'.capacity = none) →
        lst'.append junk reallocOk elem = some lst' := by
  obtain ⟨lst', hrun, h⟩ := appendAll_models junk (models_initList junk hcap hlst) calls
  refine ⟨lst', hrun, h.len_le, h.block.trans h.capacity.symm, h.capacity, h.take_len, ?_⟩
  intro elem reallocOk hfull hrefused
  obtain ⟨lst'', happend, -, hsame⟩ := append_models junk h reallocOk elem
  rw [happend]
  refine congrArg some (hsame ?_)
  rintro (hroom | ⟨hok, hlimit⟩)
  · refine h.full_iff.mp ?_ hroom
    rw [hfull]
    exact UInt32.le_refl _
  · rcases hrefused with hfailed | hnone
    · rw [hok] at hfailed
      cases hfailed
    · rw [newCapacity_eq_none_iff, h.capacity] at hnone
      omega

/-- Three elements in a list of one cell; memory for the second growth cannot be had. -/
theorem appendAll_keeps_two :
    ∃ lst', List2.appendAll (fun _ => 0) ⟨0, 1, [0]⟩ [(7, true), (8, true), (9, false)] =
        some lst' ∧
      lst'.array.take lst'.len.toNat = [7, 8] := by
  have hlst : initList (fun _ => 0) true true 1 = some (⟨0, 1, [0]⟩ : List2 Nat) := rfl
  obtain ⟨lst', hrun, -, -, -, hcells, -⟩ :=
    appendAll_keeps (fun _ => 0) (by decide) hlst [(7, true), (8, true), (9, false)]
  exact ⟨lst', hrun, hcells.trans (by decide)⟩

end List2

end ClipShare
