import ClipShare.Posix.Lists
import ClipShare.Posix.Path
import Mathlib.Data.List.TakeWhile
import Mathlib.Tactic.IntervalCases

namespace Posix

/-!
# C strings, number formats and UTF-8

Library functions on byte strings.

* `ascii` — the bytes of an ASCII literal;
* `cstr` — the string that a NUL-terminated buffer holds;
* `beforeLast` / `afterLast` — the two sides of the last occurrence of a byte (`strrchr`);
* `fileLines` — the lines of a text;
* `hex` / `decimal` — the formats `%x` and `%i`;
* `validUtf8` — well-formed UTF-8, as a table of the byte ranges that may follow a lead byte.
-/

/-- The bytes of an ASCII literal. -/
def ascii (s : String) : Bytes := s.toList.map (fun c => UInt8.ofNat c.toNat)

/-- The string in a NUL-terminated buffer. -/
def cstr (b : Bytes) : Bytes := b.takeWhile (· ≠ 0)

theorem zero_not_mem_cstr (b : Bytes) : (0 : UInt8) ∉ cstr b := by
  intro h
  have := List.mem_takeWhile_imp h
  simp at this

theorem cstr_of_not_mem {b : Bytes} (h : (0 : UInt8) ∉ b) : cstr b = b := by
  unfold cstr
  rw [List.takeWhile_eq_self_iff]
  intro x hx
  have : x ≠ 0 := by rintro rfl; exact h hx
  simpa using this

/-- What follows a NUL is not part of the string. -/
theorem cstr_append_zero (s t : Bytes) : cstr (s ++ 0 :: t) = cstr s := by
  induction s with
  | nil => rfl
  | cons c s ih =>
    by_cases hc : c = 0
    · subst hc
      rfl
    · show cstr (c :: (s ++ 0 :: t)) = _
      unfold cstr at ih ⊢
      rw [List.takeWhile_cons_of_pos (by simpa using hc),
        List.takeWhile_cons_of_pos (by simpa using hc), ih]

theorem cstr_append {s : Bytes} (h : (0 : UInt8) ∉ s) (t : Bytes) :
    cstr (s ++ t) = s ++ cstr t := by
  unfold cstr
  refine List.takeWhile_append_of_pos fun b hb => ?_
  have hne : b ≠ 0 := fun e => h (e ▸ hb)
  simpa using hne

theorem cstr_cstr (b : Bytes) : cstr (cstr b) = cstr b := cstr_of_not_mem (zero_not_mem_cstr b)

/-- A string that has ended does not go on. -/
theorem cstr_append_of_mem {s : Bytes} (h : (0 : UInt8) ∈ s) (t : Bytes) :
    cstr (s ++ t) = cstr s := by
  obtain ⟨a, b, rfl⟩ := List.append_of_mem h
  rw [List.append_assoc, List.cons_append, cstr_append_zero, cstr_append_zero]

theorem cstr_length_le (b : Bytes) : (cstr b).length ≤ b.length :=
  (List.takeWhile_prefix _).length_le

/-- What follows the last `c`, or the whole string. -/
def afterLast (c : UInt8) (s : Bytes) : Bytes := s.rtakeWhile (· ≠ c)

/-- What precedes the last `c`, if there is one. -/
def beforeLast (c : UInt8) (s : Bytes) : Option Bytes :=
  if c ∈ s then some (s.rdropWhile (· ≠ c)).dropLast else none

/-- The last occurrence of `c` cuts the string in two. -/
theorem beforeLast_append {c : UInt8} (s t : Bytes) (ht : c ∉ t) :
    beforeLast c (s ++ c :: t) = some s := by
  unfold beforeLast
  rw [if_pos (by simp)]
  congr 1
  induction t using List.reverseRecOn with
  | nil =>
    rw [List.rdropWhile_concat_neg _ _ _ (by simp)]
    simp
  | append_singleton t x ih =>
    have hx : x ≠ c := by rintro rfl; exact ht (by simp)
    have : s ++ c :: (t ++ [x]) = (s ++ c :: t) ++ [x] := by simp
    rw [this, List.rdropWhile_concat_pos _ _ _ (by simpa using hx)]
    exact ih (fun h => ht (by simp [h]))

theorem afterLast_of_not_mem {c : UInt8} {s : Bytes} (h : c ∉ s) : afterLast c s = s :=
  List.rtakeWhile_eq_self_iff.mpr fun _ hb => decide_eq_true fun e => h (e ▸ hb)

theorem afterLast_append {c : UInt8} (s t : Bytes) (ht : c ∉ t) :
    afterLast c (s ++ c :: t) = t := by
  unfold afterLast
  induction t using List.reverseRecOn with
  | nil => exact List.rtakeWhile_concat_neg _ _ _ (by simp)
  | append_singleton t x ih =>
    have hx : x ≠ c := by rintro rfl; exact ht (by simp)
    rw [← List.cons_append, ← List.append_assoc,
      List.rtakeWhile_concat_pos _ _ _ (by simpa using hx), ih fun h => ht (by simp [h])]

/-- A byte occurs for a last time. -/
theorem exists_last {c : UInt8} {s : Bytes} (h : c ∈ s) : ∃ t u, s = t ++ c :: u ∧ c ∉ u := by
  obtain ⟨u, t, hut, hu⟩ := List.eq_append_cons_of_mem (List.mem_reverse.mpr h)
  refine ⟨t.reverse, u.reverse, ?_, fun h0 => hu (List.mem_reverse.mp h0)⟩
  rw [← List.reverse_reverse s, hut]
  simp

/-- What precedes the first `c`, and what follows with it. -/
theorem cut_at {c : UInt8} {a : Bytes} (ha : c ∉ a) (t : Bytes) :
    (a ++ c :: t).takeWhile (· ≠ c) = a ∧ (a ++ c :: t).dropWhile (· ≠ c) = c :: t := by
  have hall : ∀ b ∈ a, decide (b ≠ c) = true := fun b hb => decide_eq_true fun e => ha (e ▸ hb)
  rw [List.takeWhile_append_of_pos hall, List.dropWhile_append_of_pos hall]
  simp

/-! ### Lines -/

/-- The lines of a file; the last one ends with the file. -/
def fileLines (content : Bytes) : List Bytes := content.splitOn 0x0a

/-- The file begins with a line and a newline, or it is one line. -/
theorem exists_line (content : Bytes) :
    ∃ line, (0x0a : UInt8) ∉ line ∧ (content = line ∨ ∃ rest, content = line ++ 0x0a :: rest) := by
  by_cases h : (0x0a : UInt8) ∈ content
  · obtain ⟨line, rest, hc, hline⟩ := List.eq_append_cons_of_mem h
    exact ⟨line, hline, .inr ⟨rest, hc⟩⟩
  · exact ⟨content, h, .inl rfl⟩

theorem fileLines_of_not_mem {line : Bytes} (h : (0x0a : UInt8) ∉ line) : fileLines line = [line] :=
  List.splitOn_eq_singleton h

theorem fileLines_append {line : Bytes} (h : (0x0a : UInt8) ∉ line) (rest : Bytes) :
    fileLines (line ++ 0x0a :: rest) = line :: fileLines rest := by
  unfold fileLines
  rw [List.splitOn_append_cons_self, List.splitOn_eq_singleton h]
  rfl

theorem fileLines_ne_nil (content : Bytes) : fileLines content ≠ [] := List.splitOn_ne_nil _ _

/-- **Induction on the lines of a text**: for its last line, and for a line in front of a text. -/
@[elab_as_elim]
theorem lines_induction {P : Bytes → Prop} (last : ∀ line, (0x0a : UInt8) ∉ line → P line)
    (more : ∀ line rest, (0x0a : UInt8) ∉ line → P rest → P (line ++ 0x0a :: rest))
    (content : Bytes) : P content := by
  obtain ⟨n, hn⟩ : ∃ n, content.length = n := ⟨_, rfl⟩
  induction n using Nat.strongRecOn generalizing content with
  | ind n ih =>
    obtain ⟨line, hline, heq | ⟨rest, heq⟩⟩ := exists_line content
    · rw [heq]
      exact last line hline
    · have hlt : rest.length < n := by
        rw [← hn, heq, List.length_append, List.length_cons]
        omega
      rw [heq]
      exact more line rest hline (ih _ hlt rest rfl)

/-- A line has no newline. -/
theorem not_mem_fileLines {content line : Bytes} (h : line ∈ fileLines content) :
    (0x0a : UInt8) ∉ line := by
  induction content using lines_induction with
  | last l hl =>
    rw [fileLines_of_not_mem hl, List.mem_singleton] at h
    rwa [h]
  | more l rest hl ih =>
    rw [fileLines_append hl] at h
    obtain rfl | h := List.mem_cons.mp h
    · exact hl
    · exact ih h

/-- What is in a line is in the text. -/
theorem mem_of_mem_fileLines {content line : Bytes} {b : UInt8} (hline : line ∈ fileLines content)
    (hb : b ∈ line) : b ∈ content := by
  induction content using lines_induction with
  | last first hfirst =>
    rw [fileLines_of_not_mem hfirst] at hline
    rwa [List.mem_singleton.mp hline] at hb
  | more first rest hfirst ih =>
    rw [fileLines_append hfirst] at hline
    rcases List.mem_cons.mp hline with rfl | hline
    · exact List.mem_append_left _ hb
    · exact List.mem_append_right _ (List.mem_cons_of_mem _ (ih hline))

/-! ### Number formats -/

/-- The format `%x`. -/
def hex (n : UInt32) : Bytes := (Nat.toDigits 16 n.toNat).map (fun c => UInt8.ofNat c.toNat)

/-- The format `%i` of a number that is not negative. -/
def decimal (n : Nat) : Bytes := (Nat.toDigits 10 n).map (fun c => UInt8.ofNat c.toNat)

/-- The digits of a number in base 16. -/
theorem mem_toDigits_sixteen {n : Nat} {c : Char} (h : c ∈ Nat.toDigits 16 n) :
    ∃ d < 16, c = Nat.digitChar d := by
  induction n using Nat.strongRecOn with
  | ind n ih =>
    by_cases hn : n < 16
    · rw [Nat.toDigits_of_lt_base hn, List.mem_singleton] at h
      exact ⟨n, hn, h⟩
    · rw [Nat.toDigits_of_base_le (by omega) (by omega)] at h
      rcases List.mem_append.mp h with h | h
      · exact ih (n / 16) (by omega) h
      · rw [List.mem_singleton] at h
        exact ⟨n % 16, by omega, h⟩

/-- A byte of `%x` output is a digit or a letter from `a` to `f`. -/
theorem mem_hex {n : UInt32} {b : UInt8} (h : b ∈ hex n) :
    (0x30 ≤ b ∧ b ≤ 0x39) ∨ (0x61 ≤ b ∧ b ≤ 0x66) := by
  obtain ⟨c, hc, rfl⟩ := List.mem_map.mp h
  obtain ⟨d, hd, rfl⟩ := mem_toDigits_sixteen hc
  interval_cases d <;> decide

theorem hex_ne_nil (n : UInt32) : hex n ≠ [] := by simp [hex, Nat.toDigits_ne_nil]

theorem length_hex_le (n : UInt32) : (hex n).length ≤ 8 := by
  unfold hex
  rw [List.length_map]
  exact (Nat.length_toDigits_le_iff (by omega) (by omega)).mpr n.toNat_lt

/-- A byte of `%i` output is a digit. -/
theorem mem_decimal {n : Nat} {b : UInt8} (h : b ∈ decimal n) : 0x30 ≤ b ∧ b ≤ 0x39 := by
  obtain ⟨c, hc, rfl⟩ := List.mem_map.mp h
  have hd := Nat.isDigit_of_mem_toDigits (by omega) (by omega) hc
  simp only [Char.isDigit, Bool.and_eq_true, decide_eq_true_eq] at hd
  have h1 : 48 ≤ c.toNat := hd.1
  have h2 : c.toNat ≤ 57 := hd.2
  generalize c.toNat = k at h1 h2
  interval_cases k <;> decide

theorem decimal_ne_nil (n : Nat) : decimal n ≠ [] := by simp [decimal, Nat.toDigits_ne_nil]

/-! ### UTF-8 -/

/-- The ranges of the bytes that have to follow a lead byte. -/
def utf8Lead (b : UInt8) : Option (List (UInt8 × UInt8)) :=
  if b < 0x80 then some []
  else if b < 0xc2 then none
  else if b < 0xe0 then some [(0x80, 0xbf)]
  else if b = 0xe0 then some [(0xa0, 0xbf), (0x80, 0xbf)]
  else if b = 0xed then some [(0x80, 0x9f), (0x80, 0xbf)]
  else if b < 0xf0 then some [(0x80, 0xbf), (0x80, 0xbf)]
  else if b = 0xf0 then some [(0x90, 0xbf), (0x80, 0xbf), (0x80, 0xbf)]
  else if b < 0xf4 then some [(0x80, 0xbf), (0x80, 0xbf), (0x80, 0xbf)]
  else if b = 0xf4 then some [(0x80, 0x8f), (0x80, 0xbf), (0x80, 0xbf)]
  else none

/-- One byte of UTF-8, given the ranges still expected. -/
def utf8Step (want : List (UInt8 × UInt8)) (b : UInt8) : Option (List (UInt8 × UInt8)) :=
  match want with
  | [] => utf8Lead b
  | (lo, hi) :: rest => if lo ≤ b ∧ b ≤ hi then some rest else none

/-- Is the byte string well-formed UTF-8? -/
def validUtf8 (s : Bytes) : Bool := s.foldlM utf8Step [] == some []

@[simp] theorem validUtf8_nil : validUtf8 [] = true := rfl

/-- Well-formed strings can be put together. -/
theorem validUtf8_append {s t : Bytes} (hs : validUtf8 s) (ht : validUtf8 t) :
    validUtf8 (s ++ t) := by
  simp only [validUtf8, beq_iff_eq] at hs ht ⊢
  rw [List.foldlM_append, hs]
  exact ht

/-- An ASCII byte in front changes nothing. -/
theorem validUtf8_cons_ascii {b : UInt8} (hb : b < 0x80) {s : Bytes} :
    validUtf8 (b :: s) = validUtf8 s := by
  simp [validUtf8, utf8Step, utf8Lead, hb]

/-- The bytes that may follow a lead byte are no ASCII bytes. -/
def AboveAscii (want : List (UInt8 × UInt8)) : Prop := ∀ r ∈ want, 0x80 ≤ r.1

instance (want : List (UInt8 × UInt8)) : Decidable (AboveAscii want) :=
  List.decidableBAll _ want

/-- What holds of the values of both branches. -/
theorem forall_mem_ite {α : Type} {P : α → Prop} {c : Prop} [Decidable c] {x y : Option α}
    (hx : ∀ a ∈ x, P a) (hy : ∀ a ∈ y, P a) : ∀ a ∈ if c then x else y, P a := by
  split
  · exact hx
  · exact hy

theorem forall_mem_some {α : Type} {P : α → Prop} {a : α} (ha : P a) : ∀ b ∈ some a, P b := by
  rintro _ ⟨⟩
  exact ha

theorem utf8Lead_above {b : UInt8} {want : List (UInt8 × UInt8)} (h : utf8Lead b = some want) :
    AboveAscii want := by
  have hall : ∀ want ∈ utf8Lead b, AboveAscii want := by
    unfold utf8Lead
    repeat' apply forall_mem_ite
    all_goals first
      | exact forall_mem_some (by decide)
      | exact nofun
  exact hall want h

theorem utf8Step_above {b : UInt8} {want want' : List (UInt8 × UInt8)} (hw : AboveAscii want)
    (h : utf8Step want b = some want') : AboveAscii want' := by
  cases want with
  | nil => exact utf8Lead_above h
  | cons r rest =>
    simp only [utf8Step] at h
    split at h
    · cases h
      exact fun r hr => hw r (List.mem_cons_of_mem _ hr)
    · cases h

theorem foldlM_utf8Step_above {s : Bytes} {want want' : List (UInt8 × UInt8)} (hw : AboveAscii want)
    (h : s.foldlM utf8Step want = some want') : AboveAscii want' := by
  induction s generalizing want with
  | nil => cases h; exact hw
  | cons b s ih =>
    rw [List.foldlM_cons] at h
    obtain ⟨w, hb, hs⟩ := Option.bind_eq_some_iff.mp h
    exact ih (utf8Step_above hw hb) hs

/-- **Cutting at an ASCII byte.**  Both sides of an ASCII byte in a well-formed string are
    well-formed. -/
theorem validUtf8_cut {b : UInt8} (hb : b < 0x80) {s t : Bytes}
    (h : validUtf8 (s ++ b :: t) = true) : validUtf8 s = true ∧ validUtf8 t = true := by
  simp only [validUtf8, beq_iff_eq] at h ⊢
  rw [List.foldlM_append] at h
  obtain ⟨want, hs, ht⟩ := Option.bind_eq_some_iff.mp h
  rw [List.foldlM_cons] at ht
  obtain ⟨want', hbyte, hrest⟩ := Option.bind_eq_some_iff.mp ht
  have habove : AboveAscii want := foldlM_utf8Step_above (by unfold AboveAscii; exact nofun) hs
  cases want with
  | nil =>
    have hlead : utf8Lead b = some [] := if_pos hb
    have hwant : want' = [] := Option.some.inj (hbyte.symm.trans hlead)
    rw [hwant] at hrest
    exact ⟨hs, hrest⟩
  | cons r rest =>
    -- no ASCII byte continues a character
    simp only [utf8Step] at hbyte
    split at hbyte
    · rename_i hr
      have hlo := habove r (List.mem_cons_self ..)
      exact absurd (UInt8.lt_of_lt_of_le hb hlo) (UInt8.not_lt.mpr hr.1)
    · cases hbyte

/-- The lines of a well-formed text are well-formed. -/
theorem validUtf8_of_mem_fileLines {content line : Bytes} (h : validUtf8 content = true)
    (hline : line ∈ fileLines content) : validUtf8 line = true := by
  induction content using lines_induction with
  | last l hl =>
    rw [fileLines_of_not_mem hl, List.mem_singleton] at hline
    rwa [hline]
  | more l rest hl ih =>
    obtain ⟨hfirst, hrest⟩ := validUtf8_cut (by decide) h
    rw [fileLines_append hl] at hline
    obtain rfl | hline := List.mem_cons.mp hline
    · exact hfirst
    · exact ih hrest hline

end Posix
