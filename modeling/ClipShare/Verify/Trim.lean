import ClipShare.Server.InPlace

namespace ClipShare

open Interaction Posix

/-!
# Blanks around keys and values

`trim` works in one buffer: it moves the string to the front and then goes back from its end.  It
stays inside the string because the first byte that it has moved is no blank.

* `Trimmed` — what is left of a string without the blanks at its ends;
* `ensures_skipBlanks`, `ensures_moveBytes`, `ensures_chopBlanks` — the three loops;
* `trimInPlace_spec` — `trim` in its buffer, once and twice;
* `ensures_parseLine` — `parse_line` in its buffer.
-/

variable {A : Allocator} {P : MemCall → Memory → Prop} {m : Memory} {signed : Bool}

/-! ### What is left -/

/-- The signedness of `char` does not matter: bytes from 0x80 on are no blanks. -/
theorem isBlankChar_eq (signed : Bool) (c : UInt8) : isBlankChar signed c = isBlank c := by
  have hc := c.toNat_lt
  have hpos : 0 < c ↔ 0 < c.toNat := UInt8.lt_iff_toNat_lt
  have hle : c ≤ 0x20 ↔ c.toNat ≤ 0x20 := UInt8.le_iff_toNat_le
  have hhigh : 0x80 ≤ c ↔ 0x80 ≤ c.toNat := UInt8.le_iff_toNat_le
  unfold isBlankChar isBlank charValue
  rw [Bool.eq_iff_iff]
  simp only [Bool.and_eq_true, decide_eq_true_eq, hpos, hle, hhigh]
  split <;> omega

/-- `t` is the part of `s` from its first to its last byte that is no blank. -/
structure Trimmed (s t : Bytes) : Prop where
  part : ∃ u v, s = u ++ t ++ v ∧ (∀ b ∈ u, isBlank b = true) ∧ ∀ b ∈ v, isBlank b = true
  first : ∀ b, t.head? = some b → isBlank b = false
  last : ∀ b, t.getLast? = some b → isBlank b = false

/-- The rest of a string begins with a byte that is no blank. -/
theorem head_dropWhile_blank {s : Bytes} {b : UInt8} (h : (s.dropWhile isBlank).head? = some b) :
    isBlank b = false := by
  have hnot := List.head?_dropWhile_not isBlank s
  rw [h] at hnot
  exact hnot

/-- A string that begins with no blank still does when blanks at its end are removed. -/
theorem head_rdropWhile {s : Bytes} (hs : ∀ b, s.head? = some b → isBlank b = false) :
    (s.rdropWhile isBlank).head? = s.head? := by
  cases s with
  | nil => rfl
  | cons b s =>
    have hb : ¬ isBlank b = true := by
      rw [hs b rfl]
      decide
    have hne : (b :: s).rdropWhile isBlank ≠ [] := fun hnil =>
      hb (List.rdropWhile_eq_nil_iff.mp hnil b List.mem_cons_self)
    obtain ⟨t, ht⟩ := List.rdropWhile_prefix isBlank (b :: s)
    conv_rhs => rw [← ht]
    exact (List.head?_append_of_ne_nil _ hne).symm

theorem trimmed_trim (s : Bytes) : Trimmed s (trim s) where
  part := by
    refine ⟨s.takeWhile isBlank, (s.dropWhile isBlank).rtakeWhile isBlank, ?_,
      fun b hb => List.mem_takeWhile_imp hb, fun b hb => List.mem_rtakeWhile_imp hb⟩
    unfold trim
    rw [List.append_assoc, List.rdropWhile_append_rtakeWhile, List.takeWhile_append_dropWhile]
  first b hb := by
    unfold trim at hb
    rw [head_rdropWhile fun b => head_dropWhile_blank] at hb
    exact head_dropWhile_blank hb
  last b hb := by
    have hne : trim s ≠ [] := by
      rintro hnil
      rw [hnil] at hb
      cases hb
    rw [List.getLast?_eq_getLast_of_ne_nil hne] at hb
    cases hb
    exact eq_false_of_ne_true (List.rdropWhile_last_not isBlank _ hne)

/-- There is only one such part. -/
theorem Trimmed.trim_eq {s t : Bytes} (h : Trimmed s t) : trim s = t := by
  obtain ⟨u, v, rfl, hu, hv⟩ := h.part
  rw [trim_append_right _ hv, trim_append_left hu]
  cases t with
  | nil => rfl
  | cons b t =>
    have hb : ¬ isBlank b = true := by
      rw [h.first b rfl]
      decide
    unfold trim
    rw [List.dropWhile_cons_of_neg hb, List.rdropWhile_eq_self_iff]
    intro hne hlast
    have hfalse := h.last _ (List.getLast?_eq_getLast_of_ne_nil hne)
    rw [hlast] at hfalse
    cases hfalse

/-- Trimming again changes nothing. -/
theorem trim_trim (s : Bytes) : trim (trim s) = trim s :=
  Trimmed.trim_eq ⟨⟨[], [], (List.append_nil _).symm, nofun, nofun⟩, (trimmed_trim s).first,
    (trimmed_trim s).last⟩

/-! ### The loops -/

/-- The first loop stops at the first byte that is no blank. -/
theorem ensures_skipBlanks {s : Bytes} {fuel i : Nat} (hs : m.Holds i s) (hfuel : s.length < fuel)
    (hP : ∀ k, i ≤ k → k ≤ i + s.length → P (.load k) m) :
    (Prog.loop fuel (skipBlankRound signed) i).Ensures (memory A) P m fun r m' =>
      r = i + (s.takeWhile isBlank).length ∧ m' = m := by
  induction s generalizing i fuel with
  | nil =>
    obtain ⟨fuel, rfl⟩ := Nat.exists_eq_succ_of_ne_zero (Nat.ne_of_gt hfuel)
    have hbyte : m.byte i = 0 := hs
    have hnot : isBlankChar signed (m.byte i) = false := by
      rw [isBlankChar_eq, hbyte]
      rfl
    refine Prog.Ensures.loop_succ ?_
    unfold skipBlankRound
    rw [load_bind, ensures_load, hnot]
    exact ⟨hP i le_rfl (Nat.le_add_right _ _), rfl, rfl⟩
  | cons c s ih =>
    rw [List.length_cons] at hfuel hP
    obtain ⟨fuel, rfl⟩ := Nat.exists_eq_succ_of_ne_zero (Nat.ne_zero_of_lt hfuel)
    refine Prog.Ensures.loop_succ ?_
    unfold skipBlankRound
    rw [load_bind, ensures_load, isBlankChar_eq, hs.1]
    refine ⟨hP i le_rfl (by omega), ?_⟩
    by_cases hc : isBlank c = true
    · have hlen : i + ((c :: s).takeWhile isBlank).length =
          i + 1 + (s.takeWhile isBlank).length := by
        rw [List.takeWhile_cons_of_pos hc, List.length_cons]
        omega
      rw [if_pos hc, hlen]
      exact ih hs.2 (by omega) fun k hk hk' => hP k (by omega) (by omega)
    · rw [if_neg hc, List.takeWhile_cons_of_neg hc]
      exact ⟨rfl, rfl⟩

/-- The second loop moves a string to the front, behind what it has moved before. -/
theorem ensures_moveBytes {i n : Nat} {t done : Bytes} {fuel ptr : Nat} (hdone : m.Shows i done)
    (ht : m.Holds ptr t) (h0 : (0 : UInt8) ∉ t) (hgap : i + done.length ≤ ptr)
    (hend : ptr + t.length ≤ i + n) (hfuel : t.length < fuel) :
    (Prog.loop fuel moveByteRound (ptr, i + done.length)).Ensures (memory A)
      (fun c _ => c.Within i n) m fun p1 m' =>
        p1 = i + (done ++ t).length ∧ m'.Shows i (done ++ t) := by
  induction t generalizing m done fuel ptr with
  | nil =>
    obtain ⟨fuel, rfl⟩ := Nat.exists_eq_succ_of_ne_zero (Nat.ne_of_gt hfuel)
    have hbyte : m.byte ptr = 0 := ht
    refine Prog.Ensures.loop_succ ?_
    unfold moveByteRound
    rw [load_bind, ensures_load, if_pos hbyte, List.append_nil]
    exact ⟨⟨by omega, hend⟩, rfl, hdone⟩
  | cons c t ih =>
    rw [List.mem_cons, not_or] at h0
    rw [List.length_cons] at hend hfuel
    obtain ⟨fuel, rfl⟩ := Nat.exists_eq_succ_of_ne_zero (Nat.ne_zero_of_lt hfuel)
    have hc : m.byte ptr ≠ 0 := fun e => h0.1 (e.symm.trans ht.1)
    -- the byte goes to a place at or before the one it comes from
    have hdone' : (m.set (i + done.length) c).Shows i (done ++ [c]) := hdone.set_append rfl
    have hlen : i + done.length + 1 = i + (done ++ [c]).length := by
      rw [List.length_append, List.length_singleton, Nat.add_assoc]
    have hall : done ++ c :: t = done ++ [c] ++ t := (List.append_cons _ _ _)
    refine Prog.Ensures.loop_succ ?_
    unfold moveByteRound
    rw [load_bind, ensures_load, if_neg hc, put_bind, ensures_store, ht.1, hall]
    refine ⟨⟨by omega, by omega⟩, ⟨by omega, by omega⟩, ?_⟩
    show (Prog.loop fuel moveByteRound (ptr + 1, i + done.length + 1)).Ensures _ _ _ _
    rw [hlen]
    exact ih hdone' (ht.2.set_of_lt (Nat.lt_succ_of_le hgap)) h0.2 (by omega) (by omega) (by omega)

/-- The last loop stops at the last byte that is no blank; there is one, the first byte. -/
theorem ensures_chopBlanks {i n : Nat} {t : Bytes} {fuel : Nat} (ht : m.Holds i t) (hne : t ≠ [])
    (hfirst : ∀ b, t.head? = some b → isBlank b = false) (hn : t.length ≤ n)
    (hfuel : t.length ≤ fuel) :
    (Prog.loop fuel (chopBlankRound signed) (sizePred (i + t.length))).Ensures (memory A)
      (fun c _ => c.Within i n) m fun _ m' => m'.Holds i (t.rdropWhile isBlank) := by
  induction t using List.reverseRecOn generalizing m fuel with
  | nil => exact absurd rfl hne
  | append_singleton t c ih =>
    rw [List.length_append, List.length_singleton] at hn hfuel ⊢
    obtain ⟨fuel, rfl⟩ := Nat.exists_eq_succ_of_ne_zero (Nat.ne_zero_of_lt hfuel)
    have hpred : sizePred (i + (t.length + 1)) = i + t.length := if_neg (by omega)
    obtain ⟨hshown, hc, -⟩ := Memory.holds_append.mp ht
    refine Prog.Ensures.loop_succ ?_
    unfold chopBlankRound
    rw [hpred, load_bind, ensures_load, isBlankChar_eq, hc]
    refine ⟨⟨by omega, by omega⟩, ?_⟩
    by_cases hblank : isBlank c = true
    · have hne' : t ≠ [] := by
        rintro rfl
        rw [hfirst c rfl] at hblank
        cases hblank
      have hhead : ∀ b, t.head? = some b → isBlank b = false := fun b hb =>
        hfirst b (by rw [List.head?_append_of_ne_nil _ hne']; exact hb)
      rw [if_pos hblank, put_bind, ensures_store, List.rdropWhile_concat_pos _ _ _ hblank]
      exact ⟨⟨by omega, by omega⟩, ih (hshown.set_nul rfl) hne' hhead (by omega) (by omega)⟩
    · rw [if_neg hblank, List.rdropWhile_concat_neg _ _ _ hblank]
      exact ht

/-! ### `trim` -/

/-- `trim` leaves what is left of the string, and stays inside the string. -/
theorem ensures_trim {s : Bytes} {fuel i : Nat} (hs : m.Holds i s) (h0 : (0 : UInt8) ∉ s)
    (hfuel : s.length < fuel) :
    (trimInPlace signed fuel i).Ensures (memory A) (fun c _ => c.Within i s.length) m
      fun _ m' => m'.Holds i (trim s) := by
  have hsplit : s.takeWhile isBlank ++ s.dropWhile isBlank = s := List.takeWhile_append_dropWhile
  have hlen := congrArg List.length hsplit
  rw [List.length_append] at hlen
  have hrest : m.Holds (i + (s.takeWhile isBlank).length) (s.dropWhile isBlank) :=
    (Memory.holds_append.mp (by rw [hsplit]; exact hs)).2
  have hrest0 : (0 : UInt8) ∉ s.dropWhile isBlank := fun h =>
    h0 ((List.dropWhile_suffix isBlank).subset h)
  unfold trimInPlace
  refine (ensures_skipBlanks hs hfuel fun k hk hk' => ⟨hk, hk'⟩).bind ?_
  rintro ptr m' ⟨rfl, rfl⟩
  refine (ensures_moveBytes Memory.shows_nil hrest hrest0 (Nat.le_add_right _ _) (by omega)
    (by omega)).bind ?_
  rintro p1 m1 ⟨rfl, hm1⟩
  rw [List.nil_append] at hm1 ⊢
  have hm2 : (m1.set (i + (s.dropWhile isBlank).length) 0).Holds i (s.dropWhile isBlank) :=
    hm1.set_nul rfl
  rw [put_bind, ensures_store, load_bind, ensures_load]
  refine ⟨⟨by omega, by omega⟩, ⟨le_rfl, Nat.le_add_right _ _⟩, ?_⟩
  unfold trim
  cases hd : s.dropWhile isBlank with
  | nil =>
    rw [hd] at hm2
    rw [if_pos (Memory.holds_nil.mp hm2)]
    exact hm2
  | cons b t =>
    rw [hd] at hm2 hrest0 hlen
    rw [List.mem_cons, not_or] at hrest0
    have hb : (m1.set (i + (b :: t).length) 0).byte i ≠ 0 := by
      rw [hm2.1]
      exact fun e => hrest0.1 e.symm
    rw [if_neg hb]
    refine ensures_chopBlanks hm2 (List.cons_ne_nil _ _) (fun c hc => ?_) (by omega) (by omega)
    rw [← hd] at hc
    exact head_dropWhile_blank hc

/-- What `trim` does to its buffer: the bytes around the string stay as they are. -/
theorem ensures_trim_frame {s : Bytes} {fuel i : Nat} (hs : m.Holds i s) (h0 : (0 : UInt8) ∉ s)
    (hfuel : s.length < fuel) :
    (trimInPlace signed fuel i).Ensures (memory A) (fun c _ => c.Within i s.length) m
      fun _ m' => m'.Holds i (trim s) ∧ ∀ j, j < i ∨ i + s.length < j → m'.byte j = m.byte j :=
  (ensures_trim hs h0 hfuel).and_invariant
    (fun _ _ hc hm j hj => (Memory.byte_of_within hc hj).trans (hm j hj)) fun _ _ => rfl

/-- What is trimmed is not longer. -/
theorem length_trim_le (s : Bytes) : (trim s).length ≤ s.length := by
  obtain ⟨u, v, hs, -⟩ := (trimmed_trim s).part
  have hlen := congrArg List.length hs
  rw [List.length_append, List.length_append] at hlen
  omega

theorem zero_not_mem_trim {s : Bytes} (h0 : (0 : UInt8) ∉ s) : (0 : UInt8) ∉ trim s := by
  obtain ⟨u, v, hs, -⟩ := (trimmed_trim s).part
  rw [hs, List.mem_append, List.mem_append, not_or, not_or] at h0
  exact h0.1.2

/-- A second `trim` leaves every byte as it is. -/
theorem ensures_trim_again {s : Bytes} {fuel i : Nat} (hs : m.Holds i (trim s))
    (h0 : (0 : UInt8) ∉ s) (hfuel : s.length < fuel) :
    (trimInPlace signed fuel i).Ensures (memory A) (fun c _ => c.Within i s.length) m
      fun _ m' => m'.byte = m.byte := by
  have hlen := length_trim_le s
  refine ((ensures_trim_frame hs (zero_not_mem_trim h0) (by omega)).weaken
    fun c _ hc => hc.mono le_rfl (by omega)).mono ?_
  rintro _ m' ⟨htrim, hframe⟩
  rw [trim_trim] at htrim
  funext j
  by_cases hj : j < i ∨ i + (trim s).length < j
  · exact hframe j hj
  · -- the string is the same, byte for byte
    obtain ⟨k, rfl⟩ := Nat.exists_eq_add_of_le (Nat.le_of_not_lt fun h => hj (.inl h))
    have hk : k < (trim s ++ [0]).length := by
      rw [List.length_append, List.length_singleton]
      omega
    have hget := List.getElem?_eq_getElem hk
    rw [htrim.shows k _ hget, hs.shows k _ hget]

/-! ### `parse_line` -/

variable {sur : Surroundings} {web : Bool} {cfg : Config}

/-- `parse_line` trims the key and the value, and goes on with what is left of them. -/
theorem parseLine_cut {key : Bytes} (hkey : (0x3d : UInt8) ∉ key) (value : Bytes) :
    parseLine sur web (key ++ 0x3d :: value) cfg =
      setOption sur web (trim key) (trim value) cfg := by
  have hmem : ¬ (0x3d : UInt8) ∉ key ++ 0x3d :: value := fun h => h (by simp)
  have hpos : ∀ b ∈ key, decide (b ≠ 0x3d) = true := fun b hb =>
    decide_eq_true fun e => hkey (e ▸ hb)
  unfold parseLine
  rw [if_neg hmem, List.takeWhile_append_of_pos hpos, List.dropWhile_append_of_pos hpos,
    List.takeWhile_cons_of_neg (by decide), List.dropWhile_cons_of_neg (by decide),
    List.append_nil]
  rfl

/-- Blanks around the key and around the value do not matter. -/
theorem parseLine_blanks {key u u' v v' : Bytes} (hkey : (0x3d : UInt8) ∉ key)
    (hu : ∀ b ∈ u, isBlank b = true) (hu' : ∀ b ∈ u', isBlank b = true)
    (hv : ∀ b ∈ v, isBlank b = true) (hv' : ∀ b ∈ v', isBlank b = true) (value : Bytes) :
    parseLine sur web (u ++ key ++ u' ++ 0x3d :: (v ++ value ++ v')) cfg =
      parseLine sur web (key ++ 0x3d :: value) cfg := by
  have hnot : ∀ w : Bytes, (∀ b ∈ w, isBlank b = true) → (0x3d : UInt8) ∉ w := fun w hw hmem =>
    absurd (hw _ hmem) (by decide)
  have hkey' : (0x3d : UInt8) ∉ u ++ key ++ u' := by
    rw [List.mem_append, List.mem_append, not_or, not_or]
    exact ⟨⟨hnot u hu, hkey⟩, hnot u' hu'⟩
  rw [parseLine_cut hkey', parseLine_cut hkey, trim_append_right _ hu', trim_append_left hu,
    trim_append_right _ hv', trim_append_left hv]

/-- `parse_line` in its buffer does what `parseLine` says, and stays inside the line. -/
theorem ensures_parseLine {s : Bytes} {fuel i : Nat} (hs : m.Holds i s) (h0 : (0 : UInt8) ∉ s)
    (hfuel : s.length < fuel) :
    (parseLineInPlace sur web signed fuel i cfg).Ensures (memory A)
      (fun c _ => c.Within i s.length) m fun r _ => r = parseLine sur web s cfg := by
  unfold parseLineInPlace
  by_cases heq : (0x3d : UInt8) ∈ s
  · obtain ⟨key, value, rfl, hkey⟩ := List.eq_append_cons_of_mem heq
    rw [List.mem_append, List.mem_cons, not_or, not_or] at h0
    rw [List.length_append, List.length_cons] at hfuel ⊢
    refine (ensures_strchrAt_some hs hkey h0.1 (by omega) fun k hk hk' => ⟨hk, by omega⟩).bind ?_
    rintro _ m' ⟨rfl, rfl⟩
    show (put (i + key.length) 0 >>= _).Ensures _ _ _ _
    rw [put_bind, ensures_store]
    refine ⟨⟨by omega, by omega⟩, ?_⟩
    -- the line is cut into the key and the value
    obtain ⟨hkeys, hrest⟩ := Memory.holds_append.mp hs
    have hkey1 : (m'.set (i + key.length) 0).Holds i key := hkeys.set_nul rfl
    have hvalue1 : (m'.set (i + key.length) 0).Holds (i + key.length + 1) value :=
      hrest.2.set_of_lt (Nat.lt_succ_self _)
    refine ((ensures_trim_frame hkey1 h0.1 (by omega)).weaken
      fun c _ hc => hc.mono le_rfl (by omega)).bind ?_
    rintro _ m2 ⟨hkey2, hframe2⟩
    have hvalue2 : m2.Holds (i + key.length + 1) value :=
      hvalue1.congr fun k hk _ => hframe2 k (.inr (by omega))
    refine ((ensures_trim_frame hvalue2 h0.2.2 (by omega)).weaken
      fun c _ hc => hc.mono (by omega) (by omega)).bind ?_
    rintro _ m3 ⟨hvalue3, hframe3⟩
    have hlen := length_trim_le key
    have hlen' := length_trim_le value
    have hkey3 : m3.Holds i (trim key) := hkey2.congr fun k _ hk => hframe3 k (.inl (by omega))
    refine (ensures_loadString hkey3 (zero_not_mem_trim h0.1) (by omega)
      fun k hk hk' => ⟨hk, by omega⟩).bind ?_
    rintro _ m4 ⟨rfl, rfl⟩
    refine (ensures_loadString hvalue3 (zero_not_mem_trim h0.2.2) (by omega)
      fun k hk hk' => ⟨by omega, by omega⟩).bind ?_
    rintro _ m5 ⟨rfl, rfl⟩
    exact (parseLine_cut hkey value).symm
  · refine (ensures_strchrAt_none hs heq (by decide) h0 hfuel fun k hk hk' => ⟨hk, hk'⟩).bind ?_
    rintro _ m' ⟨rfl, rfl⟩
    exact (if_pos heq).symm

/-- **Trimming.**  `trim` leaves the part of the string from its first to its last byte that is no
    blank, with its NUL, and touches no byte outside of the string; a second `trim` changes no byte.
    So `parse_line` does for a line what it does without blanks around the key and the value. -/
theorem trimInPlace_spec {A : Allocator} {m : Memory} {i fuel : Nat} {s : Bytes} (signed : Bool)
    (hs : m.Holds i s) (h0 : (0 : UInt8) ∉ s) (hfuel : s.length < fuel) :
    Trimmed s (trim s) ∧
    ((trimInPlace signed fuel i).Ensures (memory A) (fun c _ => c.Within i s.length) m
      fun _ m' => m'.Holds i (trim s) ∧
        (trimInPlace signed fuel i).Ensures (memory A) (fun c _ => c.Within i s.length) m'
          fun _ m'' => m''.byte = m'.byte) ∧
    ∀ (sur : Surroundings) (web : Bool) (cfg : Config) (u key u' v value v' : Bytes),
      (0x3d : UInt8) ∉ key → (∀ b ∈ u ++ u' ++ v ++ v', isBlank b = true) →
      ∀ (m' : Memory) (j fuel' : Nat),
        let line := u ++ key ++ u' ++ 0x3d :: (v ++ value ++ v')
        m'.Holds j line → (0 : UInt8) ∉ line → line.length < fuel' →
        (parseLineInPlace sur web signed fuel' j cfg).Ensures (memory A)
          (fun c _ => c.Within j line.length) m'
          fun r _ => r = parseLine sur web (key ++ 0x3d :: value) cfg := by
  refine ⟨trimmed_trim s, ?_, ?_⟩
  · exact (ensures_trim hs h0 hfuel).mono fun _ m' hm' => ⟨hm', ensures_trim_again hm' h0 hfuel⟩
  · intro sur web cfg u key u' v value v' hkey hblank m' j fuel' line hline hline0 hfuel'
    simp only [List.mem_append, or_imp, forall_and] at hblank
    obtain ⟨⟨⟨hu, hu'⟩, hv⟩, hv'⟩ := hblank
    rw [← parseLine_blanks hkey hu hu' hv hv' value]
    exact ensures_parseLine hline hline0 hfuel'

/-- A letter between two spaces. -/
theorem trimInPlace_spec_letter :
    (trimInPlace true 4 0).Ensures (memory ⟨fun _ => 0, 0⟩) (fun c _ => c.Within 0 3)
      (Memory.ofBlock [0x20, 0x61, 0x20, 0]) fun _ m' => m'.Holds 0 [0x61] :=
  (trimInPlace_spec (s := [0x20, 0x61, 0x20]) true (Memory.holds_ofBlock [0x20, 0x61, 0x20] [])
    (by decide) (by decide)).2.1.mono fun _ _ h => h.1

end ClipShare
