import Mathlib.Data.List.Basic

namespace ClipShare

/-!
# The growing list

`list_utils.c`: a list of pointers in one block, which grows by doubling.  The block is the list of
its cells, of which the first `len` are in use; `junk` is what a cell holds before it is set.  An
access outside of the block is a fault (`none`).

* `List2` — `list2`;
* `initList` — `init_list`;
* `List2.append` — `append`, and `List2.appendAll` for a sequence of calls.
-/

/-- `list2`. -/
structure List2 (α : Type) where
  len : UInt32
  capacity : UInt32
  array : List α

/-- `sizeof(void *) * n`, in a `size_t` of 64 bits. -/
def arrayBytes (n : UInt32) : UInt64 := 8 * n.toUInt64

/-- The number of cells in so many bytes. -/
def cellCount (bytes : UInt64) : Nat := bytes.toNat / 8

variable {α : Type}

/-- `init_list`; the two calls of `malloc` may fail. -/
def initList (junk : Nat → α) (mallocOk arrayOk : Bool) (len : UInt32) : Option (List2 α) :=
  if mallocOk ∧ arrayOk then
    some ⟨0, len, (List.range (cellCount (arrayBytes len))).map junk⟩
  else none

/-- The capacity of a full list after it has grown; none if it has to stay as it is. -/
def newCapacity (capacity : UInt32) : Option UInt32 :=
  if capacity ≤ 0x7FFFFFFF then some (capacity * 2)
  else if capacity ≥ 0xFFFFFFFF then none
  else some 0xFFFFFFFF

namespace List2

/-- The first half of `append`: the list with room for an element; none where `append` returns. -/
def makeRoom (junk : Nat → α) (reallocOk : Bool) (lst : List2 α) : Option (List2 α) :=
  if lst.len ≥ lst.capacity then
    match newCapacity lst.capacity with
    | none => none
    | some newCap =>
      if reallocOk then
        let size := cellCount (arrayBytes newCap)
        -- `realloc` keeps the cells that fit
        some { lst with
          capacity := newCap
          array := lst.array.take size ++ (List.range (size - lst.array.length)).map junk }
      else none
  else some lst

/-- `lst->array[lst->len] = elem; lst->len++`. -/
def push (lst : List2 α) (elem : α) : Option (List2 α) :=
  if lst.len.toNat < lst.array.length then
    some { lst with len := lst.len + 1, array := lst.array.set lst.len.toNat elem }
  else none

/-- `append`. -/
def append (junk : Nat → α) (reallocOk : Bool) (lst : List2 α) (elem : α) : Option (List2 α) :=
  match lst.makeRoom junk reallocOk with
  | none => some lst
  | some lst => lst.push elem

/-- One call of `append` after the other; each element comes with the outcome that `realloc` has
    if it is called. -/
def appendAll (junk : Nat → α) (lst : List2 α) (calls : List (α × Bool)) : Option (List2 α) :=
  calls.foldlM (fun lst call => lst.append junk call.2 call.1) lst

end List2

end ClipShare
