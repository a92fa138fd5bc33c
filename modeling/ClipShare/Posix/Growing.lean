import Mathlib.Data.List.Basic

namespace Posix

/-!
# Lists that grow by doubling

What a growing array is for, apart from its cells: the elements it was given, in order, and how
many fit.  A full one doubles, up to a limit, if its surroundings let it.

* `Growing` — the elements and the capacity, with the bounds that always hold;
* `Growing.CanAdd` — is there room for one more, or can room be had?
* `Growing.add`, `Growing.addAll` — one element, and one after the other.
-/

/-- The elements of a growing list and its capacity, which is never more than `limit`. -/
structure Growing (α : Type) (limit : Nat) where
  elems : List α
  capacity : Nat
  pos : 0 < capacity
  le_limit : capacity ≤ limit
  fits : elems.length ≤ capacity

namespace Growing

variable {α : Type} {limit : Nat}

/-- Without elements. -/
def empty (capacity : Nat) (pos : 0 < capacity) (le_limit : capacity ≤ limit) : Growing α limit :=
  ⟨[], capacity, pos, le_limit, Nat.zero_le _⟩

/-- One more element fits, or the list can grow; `mayGrow` says whether memory can be had. -/
def CanAdd (g : Growing α limit) (mayGrow : Bool) : Prop :=
  g.elems.length < g.capacity ∨ mayGrow = true ∧ g.capacity < limit

instance (g : Growing α limit) (mayGrow : Bool) : Decidable (g.CanAdd mayGrow) :=
  inferInstanceAs (Decidable (_ ∨ _))

/-- The capacity that one more element needs. -/
def room (g : Growing α limit) : Nat :=
  if g.elems.length < g.capacity then g.capacity else min (2 * g.capacity) limit

theorem room_bounds {g : Growing α limit} {mayGrow : Bool} (h : g.CanAdd mayGrow) :
    g.elems.length < g.room ∧ g.capacity ≤ g.room ∧ g.room ≤ limit := by
  have hpos := g.pos
  have hle := g.le_limit
  have hfits := g.fits
  unfold room
  rcases h with hroom | ⟨-, hlimit⟩ <;> split <;> omega

/-- Add an element; without room for it the list stays as it is. -/
def add (g : Growing α limit) (mayGrow : Bool) (a : α) : Growing α limit :=
  if h : g.CanAdd mayGrow then
    { elems := g.elems ++ [a]
      capacity := g.room
      pos := Nat.lt_of_lt_of_le g.pos (room_bounds h).2.1
      le_limit := (room_bounds h).2.2
      fits := by
        rw [List.length_append, List.length_singleton]
        exact (room_bounds h).1 }
  else g

/-- One element after the other, each with whether memory can be had. -/
def addAll (g : Growing α limit) (calls : List (α × Bool)) : Growing α limit :=
  calls.foldl (fun g call => g.add call.2 call.1) g

theorem add_of_not {g : Growing α limit} {mayGrow : Bool} (h : ¬ g.CanAdd mayGrow) (a : α) :
    g.add mayGrow a = g := dif_neg h

theorem elems_add {g : Growing α limit} {mayGrow : Bool} (h : g.CanAdd mayGrow) (a : α) :
    (g.add mayGrow a).elems = g.elems ++ [a] := by
  unfold add
  rw [dif_pos h]

theorem capacity_add {g : Growing α limit} {mayGrow : Bool} (h : g.CanAdd mayGrow) (a : α) :
    (g.add mayGrow a).capacity = g.room := by
  unfold add
  rw [dif_pos h]

end Growing

end Posix
