import ClipShare.Server.Config
import Mathlib.Data.Nat.Digits.Defs
import Mathlib.Tactic.Linarith

namespace ClipShare

open Posix

/-!
# Numbers of the configuration

What `set_uint32` and `set_int64` make of a value that starts with a digit, compared with what a
number with a unit means.

* `decimalValue` / `Denotes` — the meaning: a numeral and at most one unit;
* `strtoull_digits` — what `strtoull` reads, saturated;
* `setUint32_exact` — `set_uint32` accepts exactly the numbers of its range;
* `setInt64_exact_iff` — when `set_int64` does.
-/

/-! ### The meaning of a value -/

/-- The number that a string of decimal digits writes. -/
def decimalValue (ds : Bytes) : Nat := Nat.ofDigits 10 (ds.reverse.map fun b => b.toNat - 0x30)

/-- The factor of the units k, m and g, in either case. -/
def unitFactor (c : UInt8) : Option Nat :=
  if c = 0x6b ∨ c = 0x4b then some 1000
  else if c = 0x6d ∨ c = 0x4d then some 1000000
  else if c = 0x67 ∨ c = 0x47 then some 1000000000
  else none

/-- The factor of the units k, m, g and t, in either case. -/
def unitFactor64 (c : UInt8) : Option Nat :=
  if c = 0x74 ∨ c = 0x54 then some 1000000000000 else unitFactor c

/-- The string is a numeral, followed by at most one unit, and stands for `n`. -/
def Denotes (factor : UInt8 → Option Nat) (str : Bytes) (n : Nat) : Prop :=
  ∃ ds, ds ≠ [] ∧ (∀ b ∈ ds, isDigit b) ∧
    ((str = ds ∧ n = decimalValue ds) ∨
      ∃ c f, factor c = some f ∧ str = ds ++ [c] ∧ n = decimalValue ds * f)

/-- The first byte is a digit. -/
def StartsWithDigit (str : Bytes) : Prop := ∃ b t, str = b :: t ∧ isDigit b

/-! ### What `strtoull` reads -/

/-- The library function computes the number that the digits write. -/
theorem digitsValue_eq (ds : Bytes) : digitsValue ds = decimalValue ds := by
  unfold digitsValue decimalValue
  induction ds using List.reverseRecOn with
  | nil => rfl
  | append_singleton ds b ih =>
    rw [List.foldl_append, ih, List.reverse_append, List.map_append, Nat.ofDigits_append]
    simp only [List.foldl_cons, List.foldl_nil, List.reverse_singleton, List.map_singleton,
      Nat.ofDigits_singleton, List.length_singleton, pow_one]
    ring

/-- A string that starts with a digit is a numeral and the rest. -/
theorem StartsWithDigit.split {str : Bytes} (h : StartsWithDigit str) :
    ∃ ds rest, str = ds ++ rest ∧ ds ≠ [] ∧ (∀ b ∈ ds, isDigit b) ∧
      ∀ c ∈ rest.head?, isDigit c = false := by
  obtain ⟨b, t, rfl, hb⟩ := h
  refine ⟨(b :: t).takeWhile isDigit, (b :: t).dropWhile isDigit,
    (List.takeWhile_append_dropWhile ..).symm, ?_, fun c hc => List.mem_takeWhile_imp hc,
    fun c hc => ?_⟩
  · rw [List.takeWhile_cons_of_pos hb]
    exact List.cons_ne_nil _ _
  · have := List.head?_dropWhile_not isDigit (b :: t)
    rw [Option.mem_def.mp hc] at this
    simpa using this

section Digits

variable {ds rest : Bytes}

theorem isSpace_of_isDigit {b : UInt8} (h : isDigit b = true) : isSpace b = false := by
  simp only [isDigit, Bool.and_eq_true, decide_eq_true_eq, UInt8.le_iff_toNat_le] at h
  have h30 : 0x30 ≤ b.toNat := h.1
  have hne : b ≠ 0x20 := by
    rintro rfl
    exact absurd h30 (by decide)
  have hlt : ¬ b ≤ 0x0d := by
    rw [UInt8.le_iff_toNat_le]
    show ¬ b.toNat ≤ 0x0d
    omega
  simp [isSpace, hne, hlt]

theorem scanNumber_digits (hne : ds ≠ []) (hds : ∀ b ∈ ds, isDigit b)
    (hrest : ∀ c ∈ rest.head?, isDigit c = false) :
    scanNumber (ds ++ rest) = (false, decimalValue ds, rest) := by
  have htake : (ds ++ rest).takeWhile isDigit = ds := by
    rw [List.takeWhile_append_of_pos hds]
    cases rest with
    | nil => simp
    | cons c t => rw [List.takeWhile_cons_of_neg (by simp [hrest c rfl]), List.append_nil]
  have hdrop : (ds ++ rest).dropWhile isDigit = rest := by
    rw [List.dropWhile_append_of_pos hds]
    cases rest with
    | nil => rfl
    | cons c t => rw [List.dropWhile_cons_of_neg (by simp [hrest c rfl])]
  obtain ⟨b, t, rfl⟩ := List.exists_cons_of_ne_nil hne
  have hb : isDigit b = true := hds b List.mem_cons_self
  have hspace : ((b :: t) ++ rest).dropWhile isSpace = (b :: t) ++ rest := by
    rw [List.cons_append, List.dropWhile_cons_of_neg (by simp [isSpace_of_isDigit hb])]
  -- a digit is no sign
  have hsign : b ≠ 0x2d ∧ b ≠ 0x2b := by
    constructor <;> rintro rfl <;> exact absurd hb (by decide)
  unfold scanNumber
  rw [hspace]
  simp only [List.cons_append] at htake hdrop ⊢
  simp [hsign.1, hsign.2, htake, hdrop, digitsValue_eq]

/-- `strtoull` on a string that starts with digits. -/
theorem strtoull_digits (hne : ds ≠ []) (hds : ∀ b ∈ ds, isDigit b)
    (hrest : ∀ c ∈ rest.head?, isDigit c = false) :
    strtoull (ds ++ rest)
      = (Int.bmod (min (decimalValue ds) (2 ^ 64 - 1) : Nat) (2 ^ 64), rest) := by
  unfold strtoull
  rw [scanNumber_digits hne hds hrest]
  simp only [Bool.false_eq_true, if_false]
  by_cases h : 2 ^ 64 ≤ decimalValue ds
  · rw [if_pos h, Nat.min_eq_right (by omega)]
  · rw [if_neg h, Nat.min_eq_left (by omega)]

end Digits

/-! ### What a string denotes -/

/-- The factor that follows the digits. -/
def unitsOf (factor : UInt8 → Option Nat) : Bytes → Option Nat
  | [] => some 1
  | [c] => factor c
  | _ => none

theorem not_digit_nil : ∀ c ∈ ([] : Bytes).head?, isDigit c = false := by simp

/-- The digits of a string can only end in one place. -/
theorem digits_cut {ds rest es us : Bytes} (hds : ∀ b ∈ ds, isDigit b)
    (hrest : ∀ c ∈ rest.head?, isDigit c = false) (hes : ∀ b ∈ es, isDigit b)
    (hus : ∀ c ∈ us.head?, isDigit c = false) (heq : ds ++ rest = es ++ us) :
    ds = es ∧ rest = us := by
  have hscan : ∀ {es us : Bytes}, (∀ b ∈ es, isDigit b) → (∀ c ∈ us.head?, isDigit c = false) →
      (es ++ us).takeWhile isDigit = es := by
    intro es us hes hus
    rw [List.takeWhile_append_of_pos hes]
    cases us with
    | nil => simp
    | cons c t => rw [List.takeWhile_cons_of_neg (by simp [hus c rfl]), List.append_nil]
  have hsame : ds = es := by rw [← hscan hds hrest, heq, hscan hes hus]
  subst hsame
  exact ⟨rfl, List.append_cancel_left heq⟩

/-- What comes after the digits decides what the string denotes. -/
theorem denotes_iff {factor : UInt8 → Option Nat} {ds rest : Bytes} {n : Nat} (hne : ds ≠ [])
    (hds : ∀ b ∈ ds, isDigit b) (hrest : ∀ c ∈ rest.head?, isDigit c = false)
    (hfactor : ∀ c f, factor c = some f → isDigit c = false) :
    Denotes factor (ds ++ rest) n ↔
      ∃ f, unitsOf factor rest = some f ∧ n = decimalValue ds * f := by
  constructor
  · rintro ⟨es, -, hes, ⟨heq, hn⟩ | ⟨c, f, hf, heq, hn⟩⟩
    · have hnil : ds ++ rest = es ++ [] := by rw [heq, List.append_nil]
      obtain ⟨rfl, rfl⟩ := digits_cut hds hrest hes not_digit_nil hnil
      exact ⟨1, rfl, by rw [hn, mul_one]⟩
    · have hc : ∀ d ∈ [c].head?, isDigit d = false := by
        rintro d ⟨⟩
        exact hfactor c f hf
      obtain ⟨rfl, rfl⟩ := digits_cut hds hrest hes hc heq
      exact ⟨f, hf, hn⟩
  · rintro ⟨f, hf, hn⟩
    refine ⟨ds, hne, hds, ?_⟩
    match rest, hf with
    | [], hf =>
      cases hf
      exact .inl ⟨List.append_nil ds, by rw [hn, mul_one]⟩
    | [c], hf => exact .inr ⟨c, f, hf, rfl, hn⟩

theorem unitFactor_not_digit (c : UInt8) (f : Nat) (h : unitFactor c = some f) :
    isDigit c = false := by
  unfold unitFactor at h
  split_ifs at h
  all_goals rcases ‹_ ∨ _› with rfl | rfl <;> rfl

theorem unitFactor64_not_digit (c : UInt8) (f : Nat) (h : unitFactor64 c = some f) :
    isDigit c = false := by
  unfold unitFactor64 at h
  split_ifs at h with ht
  · rcases ht with rfl | rfl <;> rfl
  · exact unitFactor_not_digit c f h

/-! ### `set_uint32` -/

/-- The string is a number of the documented range. -/
def InRange (factor : UInt8 → Option Nat) (max : Nat) (str : Bytes) (n : Nat) : Prop :=
  Denotes factor str n ∧ 1 ≤ n ∧ n ≤ max

/-- The process ends with a message. -/
def Exits {α : Type} (r : Except Stop α) : Prop := ∃ msg, r = .error (.exit msg)

theorem exits_errorExit {α : Type} (msg : Bytes) : Exits (errorExit msg : Except Stop α) :=
  ⟨msg, rfl⟩

/-- The part that `set_uint32` and `set_int64` share: the byte after the digits is a unit whose
    factor may be used up to a limit. -/
def scaledBy (factor : UInt8 → Option Nat) (limit : Int) (value : Int) :
    Bytes → Except Stop Int
  | [] => .ok value
  | c :: _ => match factor c with
    | some f => scaled value (limit / f) f
    | none => errorExit (ascii "Error: config value has invalid suffix")

section Set

variable {str ds rest : Bytes} {value : Int} {f : Nat}

theorem setUint32_eq (h : strtoull str = (value, rest)) : setUint32 str =
    if value < 0 ∨ value > 4294967294 then
      errorExit (ascii "Error: config value not in range 0-4294967294")
    else scaledBy unitFactor 4294967294 value rest >>= fun value =>
      if rest.length > 1 then errorExit (ascii "Error: config value has invalid suffix")
      else if value ≤ 0 ∨ 4294967295 ≤ value then errorExit (ascii "Error: invalid config value")
      else .ok (UInt32.ofNat value.toNat) := by
  unfold setUint32
  rw [h]
  dsimp only
  by_cases hneg : value < 0 ∨ value > 4294967294
  · rw [if_pos hneg, if_pos hneg]
  · rw [if_neg hneg, if_neg hneg]
    cases rest with
    | nil => rfl
    | cons c t =>
      simp only [List.head?_cons, scaledBy, unitFactor]
      split_ifs <;> rfl

theorem setInt64_eq (h : strtoull str = (value, rest)) : setInt64 str =
    scaledBy unitFactor64 (2 ^ 61) value rest >>= fun value =>
    if rest.length > 1 then errorExit (ascii "Error: config value has invalid suffix")
    else if value ≤ 0 then errorExit (ascii "Error: invalid config value")
    else .ok value := by
  unfold setInt64
  rw [h]
  dsimp only
  cases rest with
  | nil => rfl
  | cons c t =>
    simp only [List.head?_cons, scaledBy, unitFactor64, unitFactor]
    by_cases ht : c = 0x74 ∨ c = 0x54
    · rw [if_pos ht, if_neg, if_neg, if_neg, if_pos ht]
      · rfl
      all_goals rcases ht with rfl | rfl <;> decide
    · rw [if_neg ht]
      split_ifs <;> rfl

theorem unitFactor_gt (c : UInt8) (f : Nat) (h : unitFactor c = some f) : 1 < f := by
  unfold unitFactor at h
  split_ifs at h <;> cases h <;> norm_num

theorem unitFactor64_gt (c : UInt8) (f : Nat) (h : unitFactor64 c = some f) : 1 < f := by
  unfold unitFactor64 at h
  split_ifs at h
  · cases h
    norm_num
  · exact unitFactor_gt c f h

/-- The factors that occur. -/
theorem unitsOf_unitFactor (h : unitsOf unitFactor rest = some f) :
    f = 1 ∨ f = 1000 ∨ f = 1000000 ∨ f = 1000000000 := by
  match rest, h with
  | [], h => exact .inl (Option.some.inj h).symm
  | [c], h =>
    have h : unitFactor c = some f := h
    unfold unitFactor at h
    split_ifs at h <;> cases h <;> simp

theorem unitsOf_unitFactor64 (h : unitsOf unitFactor64 rest = some f) :
    f = 1 ∨ f = 1000 ∨ f = 1000000 ∨ f = 1000000000 ∨ f = 1000000000000 := by
  match rest, h with
  | [], h => exact .inl (Option.some.inj h).symm
  | [c], h =>
    have h : unitFactor64 c = some f := h
    unfold unitFactor64 unitFactor at h
    split_ifs at h <;> cases h <;> simp

theorem unitsOf_length {factor : UInt8 → Option Nat} (h : unitsOf factor rest = some f) :
    ¬ rest.length > 1 := by
  match rest, h with
  | [], _ => simp
  | [c], _ => simp

theorem Exits.bind {α β : Type} {r : Except Stop α} (h : Exits r) (g : α → Except Stop β) :
    Exits (r >>= g) := by
  obtain ⟨msg, rfl⟩ := h
  exact ⟨msg, rfl⟩

/-- More than one byte after the digits is an error. -/
theorem exits_of_long {α : Type} (factor : UInt8 → Option Nat) (limit value : Int)
    (h : rest.length > 1) (msg : Bytes) (g : Int → Except Stop α) :
    Exits (scaledBy factor limit value rest >>= fun value =>
      if rest.length > 1 then errorExit msg else g value) := by
  simp only [if_pos h]
  match rest with
  | c :: t =>
    simp only [scaledBy, scaled]
    split
    · split_ifs <;> exact ⟨_, rfl⟩
    · exact ⟨_, rfl⟩

/-- What follows the digits is a unit that leaves the value within its limit, one that does not, or
    no unit. -/
theorem scaledBy_cases (factor : UInt8 → Option Nat) (limit value : Int) (rest : Bytes)
    (hlimit : ∀ c f, factor c = some f → 1 < f) :
    (∃ f, unitsOf factor rest = some f ∧ (1 < f → value ≤ limit / f) ∧
      scaledBy factor limit value rest
        = .ok (if f = 1 then value else Int.bmod (value * f) (2 ^ 64))) ∨
    (∃ f, unitsOf factor rest = some f ∧ 1 < f ∧ limit / f < value ∧
      Exits (scaledBy factor limit value rest)) ∨
    (unitsOf factor rest = none ∧
      (rest.length > 1 ∨ Exits (scaledBy factor limit value rest))) := by
  match rest with
  | [] => exact .inl ⟨1, rfl, fun h => absurd h (lt_irrefl 1), rfl⟩
  | [c] =>
    cases hf : factor c with
    | none =>
      refine .inr (.inr ⟨hf, .inr ?_⟩)
      simp only [scaledBy, hf]
      exact exits_errorExit _
    | some f =>
      have hlt := hlimit c f hf
      by_cases hv : value > limit / f
      · refine .inr (.inl ⟨f, hf, hlt, hv, ?_⟩)
        simp only [scaledBy, hf, scaled, if_pos hv]
        exact exits_errorExit _
      · refine .inl ⟨f, hf, fun _ => not_lt.mp hv, ?_⟩
        simp only [scaledBy, hf, scaled, if_neg hv, if_neg hlt.ne']
  | c :: d :: t => exact .inr (.inr ⟨rfl, .inl (by simp)⟩)

/-- Reduction to 64 bits keeps the numbers that fit. -/
theorem bmod_of_lt {n : Nat} (h : n < 2 ^ 63) : Int.bmod n (2 ^ 64) = n := by
  rw [Int.bmod_def, if_pos (by omega)]
  omega

/-- The saturated number, read as a signed one. -/
theorem readValue_cases (d : Nat) :
    (d < 2 ^ 63 ∧ Int.bmod (min d (2 ^ 64 - 1) : Nat) (2 ^ 64) = d) ∨
    (2 ^ 63 ≤ d ∧ d < 2 ^ 64 ∧ Int.bmod (min d (2 ^ 64 - 1) : Nat) (2 ^ 64) = (d : Int) - 2 ^ 64) ∨
    (2 ^ 64 ≤ d ∧ Int.bmod (min d (2 ^ 64 - 1) : Nat) (2 ^ 64) = -1) := by
  rw [Int.bmod_def]
  by_cases h63 : d < 2 ^ 63
  · refine .inl ⟨h63, ?_⟩
    rw [Nat.min_eq_left (by omega), if_pos (by omega)]
    omega
  · by_cases h64 : d < 2 ^ 64
    · refine .inr (.inl ⟨by omega, h64, ?_⟩)
      rw [Nat.min_eq_left (by omega), if_neg (by omega)]
      omega
    · refine .inr (.inr ⟨by omega, ?_⟩)
      rw [Nat.min_eq_right (by omega), if_neg (by omega)]
      omega

/-- What `set_uint32` does with a number and what follows it. -/
theorem setUint32_digits (hne : ds ≠ []) (hds : ∀ b ∈ ds, isDigit b)
    (hrest : ∀ c ∈ rest.head?, isDigit c = false) :
    (∀ f, unitsOf unitFactor rest = some f → 1 ≤ decimalValue ds * f →
      decimalValue ds * f ≤ 4294967294 →
        setUint32 (ds ++ rest) = .ok (UInt32.ofNat (decimalValue ds * f))) ∧
    ((∀ f, unitsOf unitFactor rest = some f → 1 ≤ decimalValue ds * f →
      4294967294 < decimalValue ds * f) → Exits (setUint32 (ds ++ rest))) := by
  rw [setUint32_eq (strtoull_digits hne hds hrest)]
  obtain ⟨d, hd⟩ : ∃ d, decimalValue ds = d := ⟨_, rfl⟩
  rw [hd]
  obtain ⟨v, hv⟩ : ∃ v, Int.bmod (min d (2 ^ 64 - 1) : Nat) (2 ^ 64) = v := ⟨_, rfl⟩
  have hread := readValue_cases d
  rw [hv] at hread ⊢
  by_cases hbig : v < 0 ∨ v > 4294967294
  · -- the number alone is too large
    rw [if_pos hbig]
    refine ⟨fun f hf h1 h2 => ?_, fun _ => exits_errorExit _⟩
    rcases unitsOf_unitFactor hf with rfl | rfl | rfl | rfl <;> omega
  · rw [if_neg hbig]
    -- a number in range is the one that was read: nothing was saturated or cast away
    have hvd : v = d := by omega
    rcases scaledBy_cases unitFactor 4294967294 v rest unitFactor_gt with
      ⟨f, hf, hle, heq⟩ | ⟨f, hf, hlt, hgt, hexit⟩ | ⟨hnone, hbad⟩
    · -- the product is computed, and has not wrapped around
      have hlen := unitsOf_length hf
      have hsmall : d * f ≤ 4294967294 := by
        rcases unitsOf_unitFactor hf with rfl | rfl | rfl | rfl
        · omega
        all_goals
          have := hle (by norm_num)
          push_cast at this
          omega
      have hprod : (if f = 1 then v else Int.bmod (v * f) (2 ^ 64)) = (d * f : Nat) := by
        by_cases h1 : f = 1
        · rw [if_pos h1, hvd, h1, mul_one]
        · rw [if_neg h1, hvd, ← Nat.cast_mul, bmod_of_lt (by omega)]
      rw [heq, hprod]
      show (∀ g, _ → _ → _ → (if rest.length > 1 then _ else _) = _) ∧
        (_ → Exits (if rest.length > 1 then _ else _))
      rw [if_neg hlen]
      refine ⟨fun g hg h1 _ => ?_, fun hall => ?_⟩
      · obtain rfl := Option.some.inj (hf.symm.trans hg)
        rw [if_neg (by omega), Int.toNat_natCast]
      · have hzero : d * f = 0 := by
          by_contra h0
          have := hall f hf (by omega)
          omega
        rw [hzero, if_pos (.inl le_rfl)]
        exact exits_errorExit _
    · -- the number is too large for its unit
      refine ⟨fun g hg h1 h2 => ?_, fun _ => hexit.bind _⟩
      obtain rfl := Option.some.inj (hf.symm.trans hg)
      rcases unitsOf_unitFactor hf with rfl | rfl | rfl | rfl <;> omega
    · -- what follows the number is no unit
      refine ⟨fun g hg => absurd (hnone.symm.trans hg) (Option.some_ne_none g).symm, fun _ => ?_⟩
      rcases hbad with hlen | hexit
      · exact exits_of_long unitFactor 4294967294 v hlen _ _
      · exact hexit.bind _

end Set

/-- **`set_uint32` is exact.**  Of the strings that start with a digit it accepts exactly the
    numbers from 1 to 4294967294, with their units, and stores their value. -/
theorem setUint32_exact {str : Bytes} (h : StartsWithDigit str) :
    (∀ n, InRange unitFactor 4294967294 str n → ∃ v, setUint32 str = .ok v ∧ v.toNat = n) ∧
      ((¬ ∃ n, InRange unitFactor 4294967294 str n) → Exits (setUint32 str)) := by
  obtain ⟨ds, rest, rfl, hne, hds, hrest⟩ := h.split
  have hden : ∀ n, Denotes unitFactor (ds ++ rest) n ↔ _ := fun n =>
    denotes_iff (n := n) hne hds hrest unitFactor_not_digit
  obtain ⟨hgood, hbad⟩ := setUint32_digits hne hds hrest
  constructor
  · rintro n ⟨hn, h1, hmax⟩
    obtain ⟨f, hf, rfl⟩ := (hden n).mp hn
    refine ⟨_, hgood f hf h1 hmax, ?_⟩
    rw [UInt32.toNat_ofNat']
    omega
  · intro hno
    refine hbad fun f hf h1 => ?_
    by_contra hle
    exact hno ⟨_, (hden _).mpr ⟨f, hf, rfl⟩, h1, not_lt.mp hle⟩

theorem setUint32_exact_kilo :
    ∃ v, setUint32 (ascii "4294967k") = .ok v ∧ v.toNat = 4294967000 :=
  (setUint32_exact ⟨0x34, ascii "294967k", by decide, by decide⟩).1 4294967000
    ⟨⟨ascii "4294967", by decide, List.all_eq_true.mp (by decide),
      .inr ⟨0x6b, 1000, by decide, by decide, by decide⟩⟩, by decide, by decide⟩

/-! ### `set_int64` -/

/-- `set_int64` accepts exactly the numbers of its documented range, and stores their value. -/
def Int64Exact (str : Bytes) : Prop :=
  (∀ n, InRange unitFactor64 (2 ^ 63 - 1) str n → setInt64 str = .ok n) ∧
    ((¬ ∃ n, InRange unitFactor64 (2 ^ 63 - 1) str n) → Exits (setInt64 str))

/-- A number with a unit does not lie between the limit of the code and that of the documentation,
    and what is left of it in 64 bits is no positive number if the number itself is negative
    there. -/
def Int64Fits (str : Bytes) : Prop :=
  ∀ ds c f, (∀ b ∈ ds, isDigit b) → unitFactor64 c = some f → str = ds ++ [c] →
    (decimalValue ds * f ≤ 2 ^ 61 ∨ 2 ^ 63 ≤ decimalValue ds * f) ∧
      (decimalValue ds < 2 ^ 63 ∨ 2 ^ 64 ≤ decimalValue ds ∨
        decimalValue ds * f % 2 ^ 64 = 0 ∨ 2 ^ 63 ≤ decimalValue ds * f % 2 ^ 64)

/-- Reduction to 64 bits of a number that does not fit. -/
theorem bmod_pos_iff (n : Nat) :
    0 < Int.bmod n (2 ^ 64) ↔ n % 2 ^ 64 ≠ 0 ∧ n % 2 ^ 64 < 2 ^ 63 := by
  rw [Int.bmod_def]
  split_ifs <;> omega

section Int64

variable {ds rest : Bytes} (hne : ds ≠ []) (hds : ∀ b ∈ ds, isDigit b)
  (hrest : ∀ c ∈ rest.head?, isDigit c = false)

include hne hds hrest

/-- What `set_int64` does with a number `v` that was read, and a unit. -/
theorem setInt64_digits {f : Nat} (hf : unitsOf unitFactor64 rest = some f) {v : Int}
    (hv : Int.bmod (min (decimalValue ds) (2 ^ 64 - 1) : Nat) (2 ^ 64) = v) :
    (1 < f ∧ 2 ^ 61 / (f : Int) < v ∧ Exits (setInt64 (ds ++ rest))) ∨
    ((1 < f → v ≤ 2 ^ 61 / (f : Int)) ∧
      ∀ w, (if f = 1 then v else Int.bmod (v * f) (2 ^ 64)) = w →
        (0 < w → setInt64 (ds ++ rest) = .ok w) ∧ (w ≤ 0 → Exits (setInt64 (ds ++ rest)))) := by
  have hlen := unitsOf_length hf
  rw [setInt64_eq (strtoull_digits hne hds hrest), hv]
  rcases scaledBy_cases unitFactor64 (2 ^ 61) v rest unitFactor64_gt with
    ⟨g, hg, hle, heq⟩ | ⟨g, hg, h1, hgt, hexit⟩ | ⟨hnone, -⟩
  · obtain rfl := Option.some.inj (hf.symm.trans hg)
    refine .inr ⟨hle, fun w hw => ?_⟩
    rw [heq, hw]
    show (_ → (if rest.length > 1 then _ else _) = _) ∧
      (_ → Exits (if rest.length > 1 then _ else _))
    rw [if_neg hlen]
    constructor
    · intro hpos
      rw [if_neg (not_le.mpr hpos)]
    · intro hneg
      rw [if_pos hneg]
      exact exits_errorExit _
  · obtain rfl := Option.some.inj (hf.symm.trans hg)
    exact .inl ⟨h1, hgt, hexit.bind _⟩
  · rw [hf] at hnone
    cases hnone

/-- Without a unit nothing is accepted. -/
theorem setInt64_no_unit (hf : unitsOf unitFactor64 rest = none) :
    Exits (setInt64 (ds ++ rest)) := by
  rw [setInt64_eq (strtoull_digits hne hds hrest)]
  obtain ⟨v, hv⟩ : ∃ v, Int.bmod (min (decimalValue ds) (2 ^ 64 - 1) : Nat) (2 ^ 64) = v := ⟨_, rfl⟩
  rw [hv]
  rcases scaledBy_cases unitFactor64 (2 ^ 61) v rest unitFactor64_gt with
    ⟨g, hg, -⟩ | ⟨g, hg, -⟩ | ⟨-, hbad⟩
  · rw [hf] at hg
    cases hg
  · rw [hf] at hg
    cases hg
  · rcases hbad with hlen | hexit
    · exact exits_of_long unitFactor64 (2 ^ 61) v hlen _ _
    · exact hexit.bind _

/-- The only number that a string with a unit can denote. -/
theorem int64Exact_iff_of_unit {f : Nat} (hf : unitsOf unitFactor64 rest = some f) :
    Int64Exact (ds ++ rest) ↔
      (1 ≤ decimalValue ds * f ∧ decimalValue ds * f ≤ 2 ^ 63 - 1 →
        setInt64 (ds ++ rest) = .ok (decimalValue ds * f : Nat)) ∧
      (¬ (1 ≤ decimalValue ds * f ∧ decimalValue ds * f ≤ 2 ^ 63 - 1) →
        Exits (setInt64 (ds ++ rest))) := by
  have hden : ∀ n, Denotes unitFactor64 (ds ++ rest) n ↔ n = decimalValue ds * f := fun n => by
    rw [denotes_iff hne hds hrest unitFactor64_not_digit]
    constructor
    · rintro ⟨g, hg, hn⟩
      obtain rfl := Option.some.inj (hf.symm.trans hg)
      exact hn
    · exact fun hn => ⟨f, hf, hn⟩
  refine and_congr ⟨fun h hr => h _ ⟨(hden _).mpr rfl, hr⟩, ?_⟩
    ⟨fun h hno => h ?_, fun h hno => h ?_⟩
  · rintro h n ⟨hn, hr⟩
    obtain rfl := (hden n).mp hn
    exact h hr
  · rintro ⟨n, hn, hr⟩
    obtain rfl := (hden n).mp hn
    exact hno hr
  · exact fun hr => hno ⟨_, (hden _).mpr rfl, hr⟩

omit hne in
/-- The condition looks at one way to read the string. -/
theorem int64Fits_iff : Int64Fits (ds ++ rest) ↔ ∀ c f, unitFactor64 c = some f → rest = [c] →
    (decimalValue ds * f ≤ 2 ^ 61 ∨ 2 ^ 63 ≤ decimalValue ds * f) ∧
      (decimalValue ds < 2 ^ 63 ∨ 2 ^ 64 ≤ decimalValue ds ∨
        decimalValue ds * f % 2 ^ 64 = 0 ∨ 2 ^ 63 ≤ decimalValue ds * f % 2 ^ 64) := by
  constructor
  · rintro h c f hf rfl
    exact h ds c f hds hf rfl
  · intro h es c f hes hf heq
    have hc : ∀ d ∈ [c].head?, isDigit d = false := by
      rintro d ⟨⟩
      exact unitFactor64_not_digit c f hf
    obtain ⟨rfl, rfl⟩ := digits_cut hds hrest hes hc heq
    exact h c f hf rfl

end Int64

/-- A number without a unit is accepted exactly if it is positive and has 63 bits. -/
theorem int64Exact_plain {ds : Bytes} (hne : ds ≠ []) (hds : ∀ b ∈ ds, isDigit b) :
    Int64Exact (ds ++ []) := by
  rw [int64Exact_iff_of_unit hne hds not_digit_nil rfl, mul_one]
  rcases setInt64_digits hne hds not_digit_nil rfl rfl with ⟨h1, -⟩ | ⟨-, hw⟩
  · exact absurd h1 (lt_irrefl 1)
  · obtain ⟨hpos, hneg⟩ := hw _ rfl
    rw [if_pos rfl] at hpos hneg
    rcases readValue_cases (decimalValue ds) with ⟨h63, hv⟩ | ⟨h63, h64, hv⟩ | ⟨h64, hv⟩
    all_goals rw [hv] at hpos hneg
    · exact ⟨fun hr => hpos (by omega), fun hr => hneg (by omega)⟩
    · exact ⟨fun hr => absurd hr (by omega), fun _ => hneg (by omega)⟩
    · exact ⟨fun hr => absurd hr (by omega), fun _ => hneg (by omega)⟩

/-- A number with a unit is treated correctly exactly if the condition holds. -/
theorem int64Exact_unit {ds : Bytes} (hne : ds ≠ []) (hds : ∀ b ∈ ds, isDigit b) {c : UInt8}
    {f : Nat} (hf : unitFactor64 c = some f) :
    Int64Exact (ds ++ [c]) ↔
      (decimalValue ds * f ≤ 2 ^ 61 ∨ 2 ^ 63 ≤ decimalValue ds * f) ∧
        (decimalValue ds < 2 ^ 63 ∨ 2 ^ 64 ≤ decimalValue ds ∨
          decimalValue ds * f % 2 ^ 64 = 0 ∨ 2 ^ 63 ≤ decimalValue ds * f % 2 ^ 64) := by
  have hrest : ∀ d ∈ [c].head?, isDigit d = false := by
    rintro d ⟨⟩
    exact unitFactor64_not_digit c f hf
  have hf1 : 1 < f := unitFactor64_gt c f hf
  obtain ⟨d, hd⟩ : ∃ d, decimalValue ds = d := ⟨_, rfl⟩
  have hle : d ≤ d * f := Nat.le_mul_of_pos_right d (by omega)
  have hdiv : ∀ v : Int, 2 ^ 61 / (f : Int) < v ↔ 2 ^ 61 < v * f := fun v =>
    Int.ediv_lt_iff_lt_mul (by omega)
  rw [int64Exact_iff_of_unit hne hds hrest hf, hd]
  have hcases := setInt64_digits hne hds hrest hf rfl
  rw [hd] at hcases
  obtain ⟨r, hr⟩ : ∃ r, setInt64 (ds ++ [c]) = r := ⟨_, rfl⟩
  rw [hr] at hcases ⊢
  -- a value is not an error
  have hnot : ∀ {w : Int}, r = .ok w → ¬ Exits r := by
    rintro w rfl ⟨msg, h⟩
    cases h
  -- a negative value is within every limit
  have hneg : ∀ {v : Int}, v < 0 → ¬ 2 ^ 61 / (f : Int) < v := fun hv h => by
    rw [hdiv] at h
    have := Int.mul_neg_of_neg_of_pos hv (by omega : (0 : Int) < f)
    omega
  rcases readValue_cases d with ⟨h63, hv⟩ | ⟨h63, h64, hv⟩ | ⟨h64, hv⟩
  all_goals rw [hv] at hcases
  · rcases hcases with ⟨-, hgt, hexit⟩ | ⟨hfit, hw⟩
    · -- above the limit of the code
      have hbig : 2 ^ 61 < d * f := by
        rw [hdiv, ← Nat.cast_mul] at hgt
        omega
      constructor
      · rintro ⟨hgood, -⟩
        refine ⟨.inr ?_, .inl h63⟩
        by_contra hlt
        exact hnot (hgood ⟨by omega, by omega⟩) hexit
      · rintro ⟨hle', -⟩
        exact ⟨fun h => absurd h (by omega), fun _ => hexit⟩
    · have hsmall : d * f ≤ 2 ^ 61 := by
        have := mt (hdiv d).mpr (not_lt.mpr (hfit hf1))
        rw [← Nat.cast_mul] at this
        omega
      obtain ⟨hpos, hzero⟩ := hw (d * f : Nat) (by
        rw [if_neg hf1.ne', ← Nat.cast_mul, bmod_of_lt (by omega)])
      exact ⟨fun _ => ⟨.inl hsmall, .inl h63⟩, fun _ =>
        ⟨fun h => hpos (by omega), fun h => hzero (by omega)⟩⟩
  · -- the number is negative in 64 bits
    rcases hcases with ⟨-, hgt, -⟩ | ⟨-, hw⟩
    · exact absurd hgt (hneg (by omega))
    · have hwrap :
          Int.bmod (((d : Int) - 2 ^ 64) * f) (2 ^ 64) = Int.bmod (d * f : Nat) (2 ^ 64) := by
        rw [Int.sub_mul, Nat.cast_mul]
        exact Int.sub_mul_bmod_self_left _ (2 ^ 64) _
      obtain ⟨hpos, hzero⟩ := hw _ (if_neg hf1.ne')
      rw [hwrap] at hpos hzero
      have hiff := bmod_pos_iff (d * f)
      constructor
      · rintro ⟨-, hbad⟩
        refine ⟨.inr (by omega), .inr (.inr ?_)⟩
        by_contra hno
        exact hnot (hpos (hiff.mpr (by omega))) (hbad (by omega))
      · rintro ⟨-, hmod⟩
        exact ⟨fun h => absurd h (by omega), fun _ => hzero (by omega)⟩
  · -- the number is saturated
    rcases hcases with ⟨-, hgt, -⟩ | ⟨-, hw⟩
    · exact absurd hgt (hneg (by omega))
    · obtain ⟨-, hzero⟩ := hw _ (if_neg hf1.ne')
      have hu : unitsOf unitFactor64 [c] = some f := hf
      refine ⟨fun _ => ⟨.inr (by omega), .inr (.inl h64)⟩, fun _ =>
        ⟨fun h => absurd h (by omega), fun _ => hzero ?_⟩⟩
      rcases unitsOf_unitFactor64 hu with rfl | rfl | rfl | rfl | rfl <;> decide

/-- **When `set_int64` is exact.**  On strings that start with a digit it does what is documented
    exactly if the condition on numbers with a unit holds. -/
theorem setInt64_exact_iff {str : Bytes} (h : StartsWithDigit str) :
    Int64Exact str ↔ Int64Fits str := by
  obtain ⟨ds, rest, rfl, hne, hds, hrest⟩ := h.split
  rw [int64Fits_iff hds hrest]
  cases hu : unitsOf unitFactor64 rest with
  | none =>
    refine ⟨fun _ c f hf hr => ?_, fun _ => ⟨?_, fun _ => setInt64_no_unit hne hds hrest hu⟩⟩
    · rw [hr] at hu
      exact absurd (hf.symm.trans hu) (Option.some_ne_none f)
    · rintro n ⟨hn, -⟩
      obtain ⟨f, hf, -⟩ := (denotes_iff hne hds hrest unitFactor64_not_digit).mp hn
      rw [hu] at hf
      cases hf
  | some f =>
    match rest, hu with
    | [], _ => exact ⟨fun _ c f _ hr => absurd hr (List.cons_ne_nil c []).symm,
        fun _ => int64Exact_plain hne hds⟩
    | [c], hu =>
      rw [int64Exact_unit hne hds hu]
      constructor
      · intro hcond c' f' hf' hr
        obtain rfl := (List.cons.inj hr).1
        obtain rfl := Option.some.inj (hu.symm.trans hf')
        exact hcond
      · exact fun hall => hall c f hu rfl

theorem setInt64_exact_iff_kilo : Int64Exact (ascii "5k") := by
  refine (setInt64_exact_iff ⟨0x35, ascii "k", by decide, by decide⟩).mpr fun ds c f _ hf heq => ?_
  have hk : ascii "5" ++ [0x6b] = ds ++ [c] := heq
  obtain ⟨rfl, hc⟩ := List.append_inj' hk rfl
  obtain rfl := (List.cons.inj hc).1
  obtain rfl := Option.some.inj ((by decide : unitFactor64 0x6b = some 1000).symm.trans hf)
  exact ⟨.inl (by decide), .inl (by decide)⟩

/-- A value of the documented range is rejected, and one far above it is stored as 1000. -/
theorem setInt64_inexact :
    StartsWithDigit (ascii "3000000000000000k") ∧ ¬ Int64Exact (ascii "3000000000000000k") ∧
      StartsWithDigit (ascii "9223372036854775809k") ∧
      ¬ Int64Exact (ascii "9223372036854775809k") := by
  refine ⟨⟨0x33, ascii "000000000000000k", by decide, by decide⟩, ?_,
    ⟨0x39, ascii "223372036854775809k", by decide, by decide⟩, ?_⟩
  · have hiff := @int64Exact_unit (ascii "3000000000000000") (by decide)
      (List.all_eq_true.mp (by decide)) 0x6b 1000 (by decide)
    exact mt hiff.mp (by decide)
  · have hiff := @int64Exact_unit (ascii "9223372036854775809") (by decide)
      (List.all_eq_true.mp (by decide)) 0x6b 1000 (by decide)
    exact mt hiff.mp (by decide)

example : setInt64 (ascii "9223372036854775809k") = .ok 1000 := by decide +kernel

end ClipShare
