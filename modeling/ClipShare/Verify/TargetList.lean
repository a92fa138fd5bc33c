import ClipShare.Server.Buffers
import ClipShare.Verify.Targets

namespace ClipShare

open Posix

/-!
# The list of targets in memory

`doOut` grows its buffer for a name that does not fit, but not by enough, and leaves the name out.

* `doOutTargets_eq` — on its block, `doOut` does what `listTargets` says, and stays inside of it;
* `length_listTargets_lt` — a list that does not fit the first buffer comes out shorter;
* `targetsComplete_iff` — no name is lost exactly if all of them fit the first buffer.
-/

/-! ### The block -/

/-- A step of the loop: the buffer after it was grown, if it was. -/
theorem grown_spec (junk : Nat → UInt8) {out free : Bytes} {n capacity : Nat}
    (hcap : (out ++ free).length = capacity) :
    ∃ free', (if n + out.length + 1 ≥ capacity then
        realloc junk (out ++ free) (if n + out.length + 1 ≥ capacity then n + out.length + 1
          else capacity) else out ++ free) = out ++ free' ∧
      (out ++ free').length
        = (if n + out.length + 1 ≥ capacity then n + out.length + 1 else capacity) := by
  by_cases hgrow : n + out.length + 1 ≥ capacity
  · rw [if_pos hgrow, if_pos hgrow]
    refine ⟨free ++ malloc junk (n + out.length + 1 - (out ++ free).length), ?_, ?_⟩
    · unfold realloc
      rw [List.take_of_length_le (by omega), List.append_assoc]
    · rw [← List.append_assoc, List.length_append, length_malloc]
      omega
  · rw [if_neg hgrow, if_neg hgrow]
    exact ⟨free, rfl, hcap⟩

/-- What `snprintf` leaves of a text behind what is in use, when there is room for its NUL. -/
theorem snprintf_append (out free text : Bytes) (hfree : free ≠ []) :
    ∃ rest, snprintf (out ++ free) out.length free.length text
      = some (out ++ text.take (free.length - 1) ++ 0 :: rest) ∧
      (out ++ text.take (free.length - 1) ++ 0 :: rest).length = (out ++ free).length := by
  have hpos := List.length_pos_of_ne_nil hfree
  have hle : (text.take (free.length - 1) ++ [0]).length ≤ free.length := by
    rw [List.length_append, List.length_take, List.length_singleton]
    omega
  have hstore := store_append out (text.take (free.length - 1) ++ [0]) free hle
  refine ⟨free.drop (text.take (free.length - 1) ++ [0]).length, ?_, ?_⟩
  · unfold snprintf
    rw [if_neg (by omega), hstore]
    simp
  · rw [← length_store hstore]
    simp

/-- **Step and run.**  The loop of `doOut` on its block.  The invariant: the text, what the last
    name left behind it, and a NUL are inside the block. -/
theorem doOutLoop_eq (junk : Nat → UInt8) {names : List Bytes}
    (hnames : ∀ name ∈ names, (0 : UInt8) ∉ name) {out left rest : Bytes} {capacity : Nat}
    (hcap : (out ++ left ++ 0 :: rest).length = capacity) :
    ∃ rest', doOutLoop junk names out.length capacity (out ++ left ++ 0 :: rest)
      = some ((listTargets names out left capacity).1.length,
          (listTargets names out left capacity).1 ++ (listTargets names out left capacity).2
            ++ 0 :: rest') := by
  induction names generalizing out left rest capacity with
  | nil => exact ⟨rest, rfl⟩
  | cons name names ih =>
    have hname : (0 : UInt8) ∉ name := hnames name List.mem_cons_self
    have hlen : strnlen name 511 = min name.length 511 := by
      unfold strnlen
      rw [cstr_of_not_mem fun h => hname (List.mem_of_mem_take h), List.length_take, Nat.min_comm]
    rw [List.append_assoc] at hcap
    have hroom : out.length < capacity := by
      rw [← hcap, List.length_append, List.length_append, List.length_cons]
      omega
    obtain ⟨n, hn⟩ : ∃ n, min name.length 511 = n := ⟨_, rfl⟩
    -- after it was grown, the block has room for one byte at least: the NUL
    obtain ⟨free, hgrown, hcap'⟩ := grown_spec junk (n := n) hcap
    unfold doOutLoop listTargets
    rw [cstr_of_not_mem hname, List.append_assoc out left]
    dsimp only
    rw [hlen, hn]
    rw [hgrown]
    obtain ⟨cap, hc⟩ : ∃ cap, (if n + out.length + 1 ≥ capacity then n + out.length + 1
      else capacity) = cap := ⟨_, rfl⟩
    have hlt : out.length < cap := by
      rw [← hc]
      split
      · omega
      · exact hroom
    rw [hc] at hcap' ⊢
    rw [List.length_append] at hcap'
    have hsize : cap - out.length = free.length := by omega
    have hfree : free ≠ [] := List.ne_nil_of_length_pos (by omega)
    obtain ⟨line, hline⟩ : ∃ line, name ++ [0x0a] = line := ⟨_, rfl⟩
    obtain ⟨rest', hwritten, hlength⟩ := snprintf_append out free line hfree
    rw [hline, if_pos hlt.le, hsize, hwritten]
    show ∃ rest', doOutLoop junk names _ cap _ = _
    have hblock : (out ++ free).length = cap := by rw [List.length_append, hcap']
    rw [hblock] at hlength
    have hnext := fun name hname => hnames name (List.mem_cons_of_mem _ hname)
    by_cases hfits : line.length < free.length
    · -- the line is there, and counts as far as the length of the name is known
      have hcount : (out ++ line.take (n + 1)).length = out.length + n + 1 := by
        rw [List.length_append, List.length_take, ← hline, List.length_append,
          List.length_singleton]
        omega
      have hsplit : out ++ line.take (free.length - 1)
          = (out ++ line.take (n + 1)) ++ line.drop (n + 1) := by
        rw [List.take_of_length_le (by omega), List.append_assoc, List.take_append_drop]
      rw [if_neg (not_le.mpr hfits), if_pos hfits, ← hcount, hsplit]
      rw [hsplit] at hlength
      exact ih hnext hlength
    · -- the line is cut, and the next name will be written over it
      rw [if_pos (not_lt.mp hfits), if_neg hfits]
      exact ih hnext hlength

/-- **The list of targets on its block.**  Every write stays inside. -/
theorem doOutTargets_eq (junk : Nat → UInt8) {names : List Bytes}
    (hnames : ∀ name ∈ names, (0 : UInt8) ∉ name) :
    ∃ rest, doOutTargets junk names = some ((listTargets names [] [] 128).1.length,
      (listTargets names [] [] 128).1 ++ (listTargets names [] [] 128).2 ++ 0 :: rest) := by
  have hfirst := store_append [] [0] (malloc junk 128) (by rw [length_malloc]; decide)
  have hlen := length_store hfirst
  rw [List.nil_append, List.nil_append, length_malloc] at hlen
  unfold doOutTargets
  rw [show store (malloc junk 128) 0 [0] = _ from hfirst]
  exact @doOutLoop_eq junk names hnames [] [] _ 128 hlen

/-! ### The names that are kept -/

theorem length_targetLines (names : List Bytes) :
    (targetLines names).length = (names.map fun name => name.length + 1).sum := by
  unfold targetLines
  rw [List.length_flatMap]
  simp

/-- As long as everything fits the first buffer, every name is listed. -/
theorem listTargets_of_lt {names : List Bytes} (hnames : ∀ name ∈ names, (0 : UInt8) ∉ name)
    {out : Bytes} (hfit : out.length + (targetLines names).length < 128) :
    listTargets names out [] 128 = (out ++ targetLines names, []) := by
  induction names generalizing out with
  | nil => simp [listTargets, targetLines]
  | cons name names ih =>
    have hname := cstr_of_not_mem (hnames name List.mem_cons_self)
    have hcons : targetLines (name :: names) = (name ++ [0x0a]) ++ targetLines names := rfl
    rw [hcons, List.length_append, List.length_append, List.length_singleton] at hfit
    rw [listTargets_cons (by rw [hname]; omega), hname, if_pos (by omega), hcons,
      ih fun n hn => hnames n (List.mem_cons_of_mem _ hn), List.append_assoc]
    rw [List.length_append, List.length_append, List.length_singleton]
    omega

/-- Nothing is added to the names. -/
theorem length_listTargets_le {names : List Bytes}
    (hnames : ∀ name ∈ names, name.length ≤ 510 ∧ (0 : UInt8) ∉ name)
    (out left : Bytes) (capacity : Nat) :
    (listTargets names out left capacity).1.length ≤ out.length + (targetLines names).length := by
  induction names generalizing out left capacity with
  | nil => simp [listTargets, targetLines]
  | cons name names ih =>
    have hnext := ih fun n hn => hnames n (List.mem_cons_of_mem _ hn)
    obtain ⟨hshort, hnul⟩ := hnames name List.mem_cons_self
    have hname := cstr_of_not_mem hnul
    have hcons : targetLines (name :: names) = (name ++ [0x0a]) ++ targetLines names := rfl
    rw [listTargets_cons (by rw [hname]; exact hshort), hname, hcons, List.length_append]
    split
    · refine (hnext _ _ _).trans ?_
      rw [List.length_append]
      omega
    · refine (hnext _ _ _).trans ?_
      omega

/-- **A name is lost** when the names do not fit the first buffer. -/
theorem length_listTargets_lt {names : List Bytes}
    (hnames : ∀ name ∈ names, name.length ≤ 510 ∧ (0 : UInt8) ∉ name)
    {out left : Bytes} (hout : out.length < 128)
    (hlong : 128 ≤ out.length + (targetLines names).length) :
    (listTargets names out left 128).1.length < out.length + (targetLines names).length := by
  induction names generalizing out left with
  | nil => exact absurd hlong (not_le.mpr hout)
  | cons name names ih =>
    have hrest := fun n hn => hnames n (List.mem_cons_of_mem name hn)
    obtain ⟨hshort, hnul⟩ := hnames name List.mem_cons_self
    have hname := cstr_of_not_mem hnul
    have hcons : targetLines (name :: names) = (name ++ [0x0a]) ++ targetLines names := rfl
    rw [hcons, List.length_append, List.length_append, List.length_singleton] at hlong ⊢
    rw [listTargets_cons (by rw [hname]; exact hshort), hname]
    by_cases hfits : name.length + out.length + 1 < 128
    · have hkept : (out ++ (name ++ [0x0a])).length = out.length + (name.length + 1) := by simp
      have hnext := @ih hrest (out ++ (name ++ [0x0a])) [] (by omega) (by omega)
      rw [if_pos hfits]
      omega
    · -- this name is left out
      rw [if_neg hfits]
      have := length_listTargets_le hrest out name (name.length + out.length + 1)
      omega

/-- `doOut` returns the names of all targets, each with a newline, as a string of the length that it
    tells, and does not write outside of its buffer. -/
def TargetsComplete (names : List Bytes) : Prop :=
  ∀ junk, ∃ rest, doOutTargets junk names
    = some ((targetLines names).length, targetLines names ++ 0 :: rest)

/-- **No target is lost** exactly if all of them fit the first buffer. -/
theorem targetsComplete_iff {names : List Bytes}
    (hnames : ∀ name ∈ names, name.length ≤ 510 ∧ (0 : UInt8) ∉ name) :
    TargetsComplete names ↔ (names.map fun name => name.length + 1).sum < 128 := by
  rw [← length_targetLines]
  constructor
  · intro h
    by_contra hlong
    obtain ⟨rest, hcomplete⟩ := h fun _ => 0
    obtain ⟨rest', hlist⟩ := doOutTargets_eq (fun _ => 0) fun name hname => (hnames name hname).2
    have hlt := @length_listTargets_lt names hnames [] [] (by decide) (by simpa using hlong)
    rw [hcomplete] at hlist
    have hlen := congrArg Prod.fst (Option.some.inj hlist)
    dsimp only at hlen
    rw [List.length_nil, Nat.zero_add] at hlt
    omega
  · intro hfit junk
    obtain ⟨rest, hlist⟩ := doOutTargets_eq junk fun name hname => (hnames name hname).2
    rw [listTargets_of_lt (fun name hname => (hnames name hname).2) (by simpa using hfit)] at hlist
    exact ⟨rest, by simpa using hlist⟩

theorem targetsComplete_two : TargetsComplete [ascii "TARGETS", ascii "UTF8_STRING"] :=
  (targetsComplete_iff (by decide)).mpr (by decide)

/-- A name of 127 bytes is left out. -/
theorem targets_incomplete :
    (∀ name ∈ [List.replicate 127 (0x61 : UInt8)], 1 ≤ name.length ∧ name.length ≤ 510 ∧
      (0 : UInt8) ∉ name) ∧ ¬ TargetsComplete [List.replicate 127 0x61] := by
  refine ⟨by decide +kernel, fun h => ?_⟩
  obtain ⟨rest, hcomplete⟩ := h fun _ => 0
  have hlost : (doOutTargets (fun _ => 0) [List.replicate 127 0x61]).map Prod.fst = some 0 := by
    decide +kernel
  rw [hcomplete] at hlost
  have hlen : (targetLines [List.replicate 127 0x61]).length = 0 := Option.some.inj hlost
  exact absurd hlen (by decide +kernel)

end ClipShare
