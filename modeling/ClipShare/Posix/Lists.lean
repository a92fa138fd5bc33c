import Mathlib.Data.List.Basic
import Mathlib.Tactic.Common

namespace Posix

/-!
# Lists that are worked through

Loops over a list that may fail, and lists that come in pieces.

* `bind_eq_ok` — a computation in two steps;
* `Judged` — whether a step fails depends on its element alone, and what that says about a whole
  fold (`Judged.foldlM_ok_iff`, `Judged.foldlM_error_iff`);
* `cutEvery` — the pieces of a list, all of one length but for the last one.
-/

/-- A computation that delivers a value in two steps. -/
theorem bind_eq_ok {ε α β : Type} {x : Except ε α} {f : α → Except ε β} {b : β} :
    (x >>= f) = .ok b ↔ ∃ a, x = .ok a ∧ f a = .ok b := by
  cases x with
  | error e => exact ⟨nofun, fun ⟨a, ha, _⟩ => nomatch ha⟩
  | ok a =>
    constructor
    · exact fun h => ⟨a, rfl, h⟩
    · rintro ⟨a', ha, h⟩
      cases ha
      exact h

/-! ### Folds that may fail -/

section Folds

variable {α β ε : Type}

/-- Whether a step fails, and how, depends on the element alone. -/
def Judged (step : β → α → Except ε β) (verdict : α → Option ε) : Prop :=
  ∀ b a e, step b a = .error e ↔ verdict a = some e

variable {step : β → α → Except ε β} {verdict : α → Option ε}

/-- A step that does not fail succeeds. -/
theorem Judged.ok (h : Judged step verdict) {b : β} {a : α} (ha : verdict a = none) :
    ∃ b', step b a = .ok b' := by
  cases hstep : step b a with
  | ok b' => exact ⟨b', rfl⟩
  | error e =>
    have := (h b a e).mp hstep
    simp [ha] at this

theorem Judged.of_ok (h : Judged step verdict) {b b' : β} {a : α} (hstep : step b a = .ok b') :
    verdict a = none := by
  cases ha : verdict a with
  | none => rfl
  | some e =>
    have := (h b a e).mpr ha
    simp [hstep] at this

/-- The fold succeeds if no element is rejected. -/
theorem Judged.foldlM_ok_iff (h : Judged step verdict) {l : List α} {b : β} :
    (∃ d, l.foldlM step b = .ok d) ↔ ∀ a ∈ l, verdict a = none := by
  induction l generalizing b with
  | nil => exact ⟨fun _ _ ha => absurd ha List.not_mem_nil, fun _ => ⟨b, rfl⟩⟩
  | cons a l ih =>
    rw [List.forall_mem_cons]
    constructor
    · rintro ⟨d, hd⟩
      rw [List.foldlM_cons] at hd
      obtain ⟨b', hstep, hrest⟩ := bind_eq_ok.mp hd
      exact ⟨h.of_ok hstep, ih.mp ⟨d, hrest⟩⟩
    · rintro ⟨ha, hl⟩
      obtain ⟨b', hstep⟩ := h.ok ha
      obtain ⟨d, hd⟩ := ih.mpr hl
      refine ⟨d, ?_⟩
      rw [List.foldlM_cons, hstep]
      exact hd

/-- The fold fails as the first element that is rejected does. -/
theorem Judged.foldlM_error_iff (h : Judged step verdict) {l : List α} {b : β} {e : ε} :
    l.foldlM step b = .error e ↔
      ∃ front a rest, l = front ++ a :: rest ∧ (∀ x ∈ front, verdict x = none) ∧
        verdict a = some e := by
  constructor
  · intro hfold
    induction l generalizing b with
    | nil => cases hfold
    | cons a l ih =>
      rw [List.foldlM_cons] at hfold
      cases hstep : step b a with
      | error e' =>
        have he : e' = e := by
          rw [hstep] at hfold
          exact Except.error.inj hfold
        exact ⟨[], a, l, rfl, fun _ hx => absurd hx List.not_mem_nil,
          (h b a e).mp (by rw [hstep, he])⟩
      | ok b' =>
        rw [hstep] at hfold
        obtain ⟨front, x, rest, rfl, hfront, hx⟩ := ih hfold
        refine ⟨a :: front, x, rest, rfl, ?_, hx⟩
        rw [List.forall_mem_cons]
        exact ⟨h.of_ok hstep, hfront⟩
  · rintro ⟨front, a, rest, rfl, hfront, ha⟩
    obtain ⟨b', hb'⟩ := (h.foldlM_ok_iff (b := b)).mpr hfront
    rw [List.foldlM_append, hb']
    show (List.cons a rest).foldlM step b' = _
    rw [List.foldlM_cons, (h b' a e).mpr ha]
    rfl

end Folds

/-! ### Pieces -/

/-- The pieces of `n` elements each, but for the last one, that a list consists of. -/
def cutEvery {α : Type} (n : Nat) (l : List α) : List (List α) :=
  (List.range ((l.length + (n - 1)) / n)).map fun i => (l.drop (n * i)).take n

section Pieces

variable {α : Type} {n : Nat}

theorem cutEvery_nil (hn : 0 < n) : cutEvery n ([] : List α) = [] := by
  have hcount : (([] : List α).length + (n - 1)) / n = 0 := by
    apply Nat.div_eq_of_lt
    simp only [List.length_nil]
    omega
  unfold cutEvery
  rw [hcount]
  rfl

/-- A piece of full length is the first one. -/
theorem cutEvery_append (hn : 0 < n) {a : List α} (ha : a.length = n) (l : List α) :
    cutEvery n (a ++ l) = a :: cutEvery n l := by
  have hcount : ((a ++ l).length + (n - 1)) / n = (l.length + (n - 1)) / n + 1 := by
    rw [List.length_append, ha, ← Nat.add_div_right _ hn]
    congr 1
    omega
  unfold cutEvery
  rw [hcount, List.range_succ_eq_map, List.map_cons, List.map_map]
  congr 1
  · rw [Nat.mul_zero, List.drop_zero, List.take_append_of_le_length (by omega), ← ha,
      List.take_length]
  · apply List.map_congr_left
    intro i _
    show ((a ++ l).drop (n * (i + 1))).take n = _
    rw [List.drop_append, Nat.mul_succ, ha, Nat.add_sub_cancel,
      List.drop_eq_nil_of_le (by rw [ha]; exact Nat.le_add_left _ _), List.nil_append]

/-- A short list is one piece. -/
theorem cutEvery_of_le {l : List α} (hne : l ≠ []) (hl : l.length ≤ n) : cutEvery n l = [l] := by
  have hpos : 0 < l.length := List.length_pos_iff.mpr hne
  have hcount : (l.length + (n - 1)) / n = 1 := by
    apply Nat.div_eq_of_lt_le <;> omega
  unfold cutEvery
  rw [hcount]
  show [(l.drop (n * 0)).take n] = _
  rw [Nat.mul_zero, List.drop_zero, List.take_of_length_le hl]

end Pieces

end Posix
