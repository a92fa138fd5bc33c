import ClipShare.Server.InPlace
import ClipShare.Verify.Targets

namespace ClipShare

open Interaction Posix

/-!
# What was copied

`get_copied_type` searches one string of targets three times.  Each search cuts the string at its
newlines and puts them back.

* `classifyTargets` — the type of a list of targets;
* `ensures_search` — one search: whether a token of the string is found, and what the string is
  afterwards;
* `copiedTypeOfTargets_eq` — the three searches in memory do what `get_copied_type` does on byte
  strings, whatever the string is and wherever its list ends;
* `copiedTypeOfTargets_spec`, `getCopiedType_classifies` — both classify the targets.
-/

/-! ### Targets -/

/-- The type of what is offered under these targets: files before images before texts. -/
def classifyTargets (names : List Bytes) : CopiedType :=
  if names.any fun n => gnomeCopiedFiles.isPrefixOf n then .file
  else if names.any fun n => n == ascii "image/png" || n == ascii "image/jpeg" then .image
  else if names.any fun n => (ascii "text/plain").isPrefixOf n ||
      (ascii "text/html").isPrefixOf n || n == ascii "UTF8_STRING" || n == ascii "TEXT" then .text
  else .none

/-- A string without the newline at its end. -/
def chopLf (s : Bytes) : Bytes := if s.getLast? = some 0x0a then s.dropLast else s

theorem chopLf_append {s : Bytes} : chopLf (s ++ [0x0a]) = s := by
  unfold chopLf
  rw [List.getLast?_concat, if_pos rfl, List.dropLast_concat]

/-- Only the end of a string matters. -/
theorem chopLf_append_of_ne_nil {s t : Bytes} (ht : t ≠ []) : chopLf (s ++ t) = s ++ chopLf t := by
  unfold chopLf
  rw [List.getLast?_append_of_ne_nil _ ht]
  split
  · rw [List.dropLast_append_of_ne_nil ht]
  · rfl

/-- Does one of the literals match a token? -/
def matchesAny (lits : List Bytes) (tok : Bytes) : Bool :=
  lits.any fun lit => lit.isPrefixOf (tok ++ [0])

theorem targetLines_cons (n : Bytes) (names : List Bytes) :
    targetLines (n :: names) = n ++ 0x0a :: targetLines names := by
  unfold targetLines
  rw [List.flatMap_cons, List.append_assoc]
  rfl

theorem targetLines_ne_nil {names : List Bytes} (h : names ≠ []) : targetLines names ≠ [] := by
  cases names with
  | nil => exact absurd rfl h
  | cons n names =>
    rw [targetLines_cons]
    exact List.append_ne_nil_of_right_ne_nil _ (List.cons_ne_nil _ _)

theorem not_mem_targetLines {names : List Bytes} (hn : ∀ n ∈ names, (0 : UInt8) ∉ n) :
    (0 : UInt8) ∉ targetLines names := by
  intro h
  obtain ⟨n, hmem, h⟩ := List.mem_flatMap.mp h
  rcases List.mem_append.mp h with h | h
  · exact hn n hmem h
  · cases List.mem_singleton.mp h

/-- What the string of targets shows to a search: the names, and an empty token. -/
theorem fileLines_targetLines {names : List Bytes} (hn : ∀ n ∈ names, (0x0a : UInt8) ∉ n) :
    fileLines (targetLines names) = names ++ [[]] := by
  induction names with
  | nil => rfl
  | cons n names ih =>
    rw [targetLines_cons, fileLines_append (hn n List.mem_cons_self),
      ih fun n' hn' => hn n' (List.mem_cons_of_mem _ hn'), List.cons_append]

theorem any_targetLines {p : Bytes → Bool} (hp : p [] = false) {names : List Bytes}
    (hn : ∀ n ∈ names, (0x0a : UInt8) ∉ n) :
    (fileLines (targetLines names)).any p = names.any p := by
  rw [fileLines_targetLines hn, List.any_append, List.any_cons, hp, List.any_nil, Bool.or_false,
    Bool.or_false]

/-- The same holds without the newline at the end. -/
theorem any_chopLf_targetLines {p : Bytes → Bool} (hp : p [] = false) {names : List Bytes}
    (hn : ∀ n ∈ names, (0x0a : UInt8) ∉ n) :
    (fileLines (chopLf (targetLines names))).any p = names.any p := by
  induction names with
  | nil =>
    show (p [] || false) = false
    rw [hp]
    rfl
  | cons n names ih =>
    have hfirst := hn n List.mem_cons_self
    have hrest : ∀ n' ∈ names, (0x0a : UInt8) ∉ n' := fun n' hn' =>
      hn n' (List.mem_cons_of_mem _ hn')
    cases names with
    | nil =>
      have hone : targetLines [n] = n ++ [0x0a] := targetLines_cons n []
      rw [hone, chopLf_append, fileLines_of_not_mem hfirst]
    | cons n' names =>
      have hne : targetLines (n' :: names) ≠ [] := targetLines_ne_nil (List.cons_ne_nil _ _)
      have hcons : targetLines (n :: n' :: names) = (n ++ [0x0a]) ++ targetLines (n' :: names) :=
        List.flatMap_cons
      rw [hcons, chopLf_append_of_ne_nil hne, List.append_assoc, List.singleton_append,
        fileLines_append hfirst, List.any_cons, List.any_cons, ih hrest]

/-! ### One search -/

variable {A : Allocator} {m : Memory} {fuel endptr n p : Nat} {lits : List Bytes} {restore : Bool}

/-- Literals that end where a string may end. -/
def ProperLiterals (lits : List Bytes) : Prop := ∀ lit ∈ lits, (0 : UInt8) ∉ lit.dropLast

/-- The tests on a token do not change the string. -/
theorem ensures_tokenMatches {tok : Bytes} (hlits : ProperLiterals lits) (hm : m.Holds p tok)
    (hsize : p + tok.length < m.size) :
    (tokenMatches lits p).Ensures (memory A) (fun c m => c.Inside m) m fun r m' =>
      r = matchesAny lits tok ∧ m' = m := by
  induction lits with
  | nil => exact ⟨rfl, rfl⟩
  | cons lit lits ih =>
    have hload : ∀ k, p ≤ k → k ≤ p + tok.length → (MemCall.load k).Inside m := fun k _ hk =>
      Nat.lt_of_le_of_lt hk hsize
    unfold tokenMatches
    refine (ensures_matchesAt hm (hlits lit List.mem_cons_self) hload).bind ?_
    rintro r m' ⟨rfl, rfl⟩
    unfold matchesAny
    rw [List.any_cons]
    cases lit.isPrefixOf (tok ++ [0]) with
    | true => exact ⟨rfl, rfl⟩
    | false => exact ih fun lit' h => hlits lit' (List.mem_cons_of_mem _ h)

/-- The last round: there is no token left. -/
theorem searchRound_none {Q : Option Nat → Memory → Prop} {R : Bool → Memory → Prop}
    (h : R false m) :
    (searchRound fuel endptr lits restore none).Ensures (memory A) (fun c m => c.Inside m) m
      (Prog.Next Q R) := h

/-- A round with the last token. -/
theorem searchRound_last {tok : Bytes} (hlits : ProperLiterals lits) (hm : m.Holds p tok)
    (h0 : (0 : UInt8) ∉ tok) (hlf : (0x0a : UInt8) ∉ tok) (hsize : p + tok.length < m.size)
    (hfuel : tok.length < fuel) {Q : Option Nat → Memory → Prop} {R : Bool → Memory → Prop}
    (hfound : matchesAny lits tok = true → R true m)
    (hnot : matchesAny lits tok = false → Q none m) :
    (searchRound fuel endptr lits restore (some p)).Ensures (memory A) (fun c m => c.Inside m) m
      (Prog.Next Q R) := by
  unfold searchRound
  refine (ensures_strsepAt_last hm h0 hlf hfuel fun k _ hk => ?_).bind ?_
  · exact Nat.lt_of_le_of_lt hk hsize
  · rintro r m' ⟨rfl, rfl⟩
    refine (ensures_tokenMatches hlits hm hsize).bind ?_
    rintro r m' ⟨rfl, rfl⟩
    cases hmatch : matchesAny lits tok with
    | true => exact hfound hmatch
    | false => exact hnot hmatch

/-- A round with a token that a newline ends: the newline is put back, unless it is the one that
    ends the string. -/
theorem searchRound_line {tok rest : Bytes} (hlits : ProperLiterals lits)
    (hm : m.Holds p (tok ++ 0x0a :: rest)) (h0 : (0 : UInt8) ∉ tok) (hlf : (0x0a : UInt8) ∉ tok)
    (hsize : p + tok.length + 1 < m.size) (hfuel : tok.length < fuel)
    {Q : Option Nat → Memory → Prop} {R : Bool → Memory → Prop}
    (hfound : matchesAny lits tok = true → R true (m.set (p + tok.length) 0))
    (hnot : matchesAny lits tok = false → Q (some (p + tok.length + 1))
      (if restore ∧ p + tok.length + 1 < endptr
        then (m.set (p + tok.length) 0).set (p + tok.length) 0x0a
        else m.set (p + tok.length) 0)) :
    (searchRound fuel endptr lits restore (some p)).Ensures (memory A) (fun c m => c.Inside m) m
      (Prog.Next Q R) := by
  have hcut : (m.set (p + tok.length) 0).Holds p tok := (Memory.holds_append.mp hm).1.set_nul rfl
  unfold searchRound
  refine (ensures_strsepAt_delim hm h0 hlf (by decide) hfuel (fun k _ hk => ?_) ?_).bind ?_
  · show k < m.size
    omega
  · show p + tok.length < m.size
    omega
  · rintro r m' ⟨rfl, rfl⟩
    refine (ensures_tokenMatches hlits hcut (by rw [Memory.set_size]; omega)).bind ?_
    rintro r m' ⟨rfl, rfl⟩
    cases hmatch : matchesAny lits tok with
    | true => exact hfound hmatch
    | false =>
      have hnot := hnot hmatch
      show Prog.Ensures _ _
        (if restore ∧ p + tok.length + 1 < endptr ∧ p + tok.length + 1 > 0 then _ else _) _ _
      by_cases hback : restore ∧ p + tok.length + 1 < endptr
      · rw [if_pos hback] at hnot
        rw [if_pos ⟨hback.1, hback.2, Nat.succ_pos _⟩, put_bind, ensures_store]
        exact ⟨by show p + tok.length < m.size; omega, hnot⟩
      · rw [if_neg hback] at hnot
        rw [if_neg fun h => hback ⟨h.1, h.2.1⟩]
        exact hnot

/-- Without newlines there is nothing to put back. -/
theorem restoreLines_of_not_mem {text : Bytes} (h : (0x0a : UInt8) ∉ text) (endptr : Nat) :
    restoreLines endptr text = text := by
  have hall : (text.drop (endptr - 1)).takeWhile (· ≠ 0x0a) = text.drop (endptr - 1) := by
    rw [List.takeWhile_eq_self_iff]
    intro b hb
    have hne : b ≠ 0x0a := fun e => h (e ▸ List.mem_of_mem_drop hb)
    simpa using hne
  unfold restoreLines
  rw [hall, List.take_append_drop]

/-- The newlines before the end are put back. -/
theorem restoreLines_append {line : Bytes} (rest : Bytes) (h : p + line.length + 1 < endptr) :
    restoreLines (endptr - p) (line ++ 0x0a :: rest) =
      line ++ 0x0a :: restoreLines (endptr - (p + line.length + 1)) rest := by
  obtain ⟨k, hk⟩ : ∃ k, endptr - (p + line.length + 1) - 1 = k := ⟨_, rfl⟩
  have hsplit : endptr - p - 1 = (line ++ [0x0a]).length + k := by
    rw [List.length_append, List.length_singleton]
    omega
  have hassoc : ∀ t : Bytes, line ++ 0x0a :: t = (line ++ [0x0a]) ++ t := fun t => by
    rw [List.append_assoc, List.singleton_append]
  unfold restoreLines
  rw [hk, hsplit, hassoc rest, List.take_length_add_append, List.drop_length_add_append,
    List.append_assoc, ← hassoc]

/-- The first newline that is not put back ends the string. -/
theorem restoreLines_end {line : Bytes} (hline : (0x0a : UInt8) ∉ line) (rest : Bytes)
    (h : ¬ p + line.length + 1 < endptr) :
    restoreLines (endptr - p) (line ++ 0x0a :: rest) = line := by
  have hle : endptr - p - 1 ≤ line.length := by omega
  unfold restoreLines
  rw [List.take_append_of_le_length hle, List.drop_append_of_le_length hle,
    List.takeWhile_append_of_pos]
  · rw [List.takeWhile_cons_of_neg (by decide), List.append_nil, List.take_append_drop]
  · intro b hb
    have hne : b ≠ 0x0a := fun e => hline (e ▸ List.mem_of_mem_drop hb)
    simpa using hne

/-- **Run lemma.**  A search finds a token if there is one; else every newline but the one at the
    end of the targets is back in its place. -/
theorem ensures_search {text : Bytes} (hlits : ProperLiterals lits) (hm : m.Holds p text)
    (h0 : (0 : UInt8) ∉ text) (hsize : p + text.length < m.size) (hfuel : text.length < fuel)
    (hn : text.length + 2 ≤ n) :
    (Prog.loop n (searchRound fuel endptr lits restore) (some p)).Ensures (memory A)
      (fun c m => c.Inside m) m fun r m' =>
        r = (fileLines text).any (matchesAny lits) ∧ m'.size = m.size ∧
          (restore = true → r = false →
            m'.Holds p (restoreLines (endptr - p) text) ∧ ∀ k < p, m'.byte k = m.byte k) := by
  induction text using lines_induction generalizing m n p with
  | last line hline =>
    obtain ⟨n, rfl⟩ : ∃ k, n = k + 1 + 1 := ⟨n - 2, by omega⟩
    rw [fileLines_of_not_mem hline, restoreLines_of_not_mem hline, List.any_cons, List.any_nil,
      Bool.or_false]
    refine Prog.Ensures.loop_succ (searchRound_last hlits hm h0 hline hsize hfuel ?_ ?_)
    · intro hmatch
      exact ⟨hmatch.symm, rfl, fun _ h => by cases h⟩
    · intro hmatch
      refine Prog.Ensures.loop_succ (searchRound_none ?_)
      exact ⟨hmatch.symm, rfl, fun _ _ => ⟨hm, fun k _ => rfl⟩⟩
  | more line rest hline ih =>
    obtain ⟨n, rfl⟩ : ∃ k, n = k + 1 := ⟨n - 1, by omega⟩
    rw [List.length_append, List.length_cons] at hsize hfuel hn
    rw [List.mem_append, List.mem_cons, not_or, not_or] at h0
    rw [fileLines_append hline, List.any_cons]
    obtain ⟨hshown, hlf, hrest⟩ := Memory.holds_append.mp hm
    refine Prog.Ensures.loop_succ
      (searchRound_line hlits hm h0.1 hline (by omega) (by omega) ?_ ?_)
    · intro hmatch
      rw [hmatch]
      exact ⟨rfl, rfl, fun _ h => by cases h⟩
    · intro hmatch
      rw [hmatch, Bool.false_or]
      -- the bytes of the rest are where they were
      have hrest1 : (m.set (p + line.length) 0).Holds (p + line.length + 1) rest :=
        hrest.set_of_lt (Nat.lt_succ_self _)
      by_cases hback : p + line.length + 1 < endptr
      · rw [restoreLines_append rest hback]
        cases restore with
        | false =>
          rw [if_neg fun h => by cases h.1]
          refine (ih hrest1 h0.2.2 (by rw [Memory.set_size]; omega) (by omega) (by omega)).mono ?_
          rintro r m' ⟨hr, hm', -⟩
          exact ⟨hr, hm', fun h => by cases h⟩
        | true =>
          rw [if_pos ⟨rfl, hback⟩]
          refine (ih (hrest1.set_of_lt (Nat.lt_succ_self _)) h0.2.2
            (by rw [Memory.set_size, Memory.set_size]; omega) (by omega) (by omega)).mono ?_
          rintro r m' ⟨hr, hm', hkept⟩
          refine ⟨hr, hm', fun h hf => ?_⟩
          obtain ⟨hleft, hframe⟩ := hkept h hf
          -- the newline is back
          have hbytes : ∀ k < p + line.length + 1, m'.byte k = m.byte k := by
            intro k hk
            rw [hframe k hk, Memory.set_byte, Memory.set_byte, Function.update_idem, ← hlf,
              Function.update_eq_self]
          refine ⟨?_, fun k hk => hbytes k (by omega)⟩
          rw [Memory.holds_append, Memory.holds_cons]
          refine ⟨hshown.congr fun k _ hk => hbytes k (by omega), ?_, hleft⟩
          rw [hbytes _ (Nat.lt_succ_self _), hlf]
      · -- this newline, and all that follow, are not put back
        rw [if_neg fun h => hback h.2, restoreLines_end hline rest hback]
        refine (ih hrest1 h0.2.2 (by rw [Memory.set_size]; omega) (by omega) (by omega)).mono ?_
        rintro r m' ⟨hr, hm', hkept⟩
        refine ⟨hr, hm', fun h hf => ?_⟩
        obtain ⟨-, hframe⟩ := hkept h hf
        have hcut : (m.set (p + line.length) 0).Holds p line := hshown.set_nul rfl
        refine ⟨hcut.congr fun k _ hk => hframe k (by omega), fun k hk => ?_⟩
        rw [hframe k (by omega)]
        exact Function.update_of_ne (by omega) _ _

/-! ### The three searches -/

theorem not_mem_chopLf {b : UInt8} {s : Bytes} (h : b ∉ s) : b ∉ chopLf s := by
  unfold chopLf
  split
  · exact fun hb => h (List.mem_of_mem_dropLast hb)
  · exact h

/-- A search in a list that ends with its string cuts off the newline at the end. -/
theorem restoreLines_length (s : Bytes) : restoreLines s.length s = chopLf s := by
  cases s using List.reverseRecOn with
  | nil => rfl
  | append_singleton s c =>
    unfold restoreLines chopLf
    rw [List.length_append, List.length_singleton, Nat.add_sub_cancel, List.take_left' rfl,
      List.drop_left' rfl, List.getLast?_concat, List.dropLast_concat]
    by_cases hc : c = 0x0a
    · rw [hc, if_pos rfl]
      exact List.append_nil s
    · rw [if_neg fun h => hc (Option.some.inj h), List.takeWhile_cons_of_pos (by simpa using hc)]
      rfl

/-- No later search cuts off more. -/
theorem restoreLines_chopLf (s : Bytes) : restoreLines s.length (chopLf s) = chopLf s := by
  cases s using List.reverseRecOn with
  | nil => rfl
  | append_singleton s c =>
    by_cases hc : c = 0x0a
    · rw [hc, chopLf_append]
      unfold restoreLines
      rw [List.length_append, List.length_singleton, Nat.add_sub_cancel, List.take_length,
        List.drop_length]
      exact List.append_nil s
    · have hchop : chopLf (s ++ [c]) = s ++ [c] := by
        unfold chopLf
        rw [List.getLast?_concat, if_neg fun h => hc (Option.some.inj h)]
      have hlen := restoreLines_length (s ++ [c])
      rwa [hchop] at hlen ⊢

/-- `strncmp` with a literal: the token starts with it. -/
theorem isPrefixOf_nul {lit tok : Bytes} (hlit : (0 : UInt8) ∉ lit) :
    lit.isPrefixOf (tok ++ [0]) = lit.isPrefixOf tok := by
  rw [Bool.eq_iff_iff, List.isPrefixOf_iff_prefix, List.isPrefixOf_iff_prefix,
    List.prefix_concat_iff]
  refine or_iff_right fun h => hlit ?_
  rw [h]
  exact List.mem_append_right _ List.mem_cons_self

/-- `strcmp` with a literal: the token is the literal. -/
theorem nul_isPrefixOf_nul {lit tok : Bytes} (htok : (0 : UInt8) ∉ tok) :
    (lit ++ [0]).isPrefixOf (tok ++ [0]) = (tok == lit) := by
  rw [Bool.eq_iff_iff, List.isPrefixOf_iff_prefix, beq_iff_eq, List.prefix_concat_iff]
  constructor
  · rintro (h | h)
    · exact (List.append_cancel_right h).symm
    · exact absurd (h.subset (List.mem_append_right _ List.mem_cons_self)) htok
  · rintro rfl
    exact .inl rfl

/-- The literals of the three searches match what they are for. -/
theorem matchesAny_targets {n : Bytes} (hn : (0 : UInt8) ∉ n) :
    matchesAny fileTargets n = gnomeCopiedFiles.isPrefixOf n ∧
    matchesAny imageTargets n = (n == ascii "image/png" || n == ascii "image/jpeg") ∧
    matchesAny textTargets n = ((ascii "text/plain").isPrefixOf n ||
      (ascii "text/html").isPrefixOf n || n == ascii "UTF8_STRING" || n == ascii "TEXT") := by
  unfold matchesAny fileTargets imageTargets textTargets
  simp only [List.any_cons, List.any_nil, Bool.or_false]
  rw [nul_isPrefixOf_nul hn, nul_isPrefixOf_nul hn, nul_isPrefixOf_nul hn, nul_isPrefixOf_nul hn,
    isPrefixOf_nul (by decide), isPrefixOf_nul (by decide), isPrefixOf_nul (by decide)]
  exact ⟨rfl, rfl, by simp only [Bool.or_assoc]⟩

/-- A token has no bytes but those of the string. -/
theorem mem_of_mem_fileLines {text tok : Bytes} (h : tok ∈ fileLines text) {b : UInt8}
    (hb : b ∈ tok) : b ∈ text := by
  induction text using lines_induction with
  | last line hline =>
    rw [fileLines_of_not_mem hline] at h
    rwa [← List.mem_singleton.mp h]
  | more line rest hline ih =>
    rw [fileLines_append hline, List.mem_cons] at h
    rcases h with rfl | h
    · exact List.mem_append_left _ hb
    · exact List.mem_append_right _ (List.mem_cons_of_mem _ (ih h))

/-- What a search looks for, among the tokens of a string. -/
theorem any_lines {text : Bytes} (h0 : (0 : UInt8) ∉ text) {p q : Bytes → Bool}
    (h : ∀ tok, (0 : UInt8) ∉ tok → p tok = q tok) :
    (lines text).any q = (fileLines text).any p := by
  have hlines : lines text = fileLines text := by
    unfold lines
    rw [cstr_of_not_mem h0]
    rfl
  rw [hlines, Bool.eq_iff_iff, List.any_eq_true, List.any_eq_true]
  constructor
  · rintro ⟨t, ht, hq⟩
    exact ⟨t, ht, by rwa [h t fun hb => h0 (mem_of_mem_fileLines ht hb)]⟩
  · rintro ⟨t, ht, hp⟩
    exact ⟨t, ht, by rwa [← h t fun hb => h0 (mem_of_mem_fileLines ht hb)]⟩

theorem not_mem_restoreLines {b : UInt8} {text : Bytes} (h : b ∉ text) (endptr : Nat) :
    b ∉ restoreLines endptr text := by
  unfold restoreLines
  rw [List.mem_append, not_or]
  exact ⟨fun hb => h (List.mem_of_mem_take hb), fun hb =>
    h (List.mem_of_mem_drop ((List.takeWhile_prefix _).subset hb))⟩

theorem length_restoreLines_le (endptr : Nat) (text : Bytes) :
    (restoreLines endptr text).length ≤ text.length := by
  have hle := (List.takeWhile_prefix (l := text.drop (endptr - 1)) (· ≠ 0x0a)).length_le
  have hall := congrArg List.length (List.take_append_drop (endptr - 1) text)
  unfold restoreLines
  rw [List.length_append] at hall ⊢
  omega

/-- **The searches in memory** do what `get_copied_type` does on byte strings. -/
theorem copiedTypeOfTargets_eq (A : Allocator) {text : Bytes} (hm : m.Holds 0 text)
    (h0 : (0 : UInt8) ∉ text) (hsize : text.length < m.size) (hfuel : text.length + 2 ≤ fuel)
    (endptr : Nat) : (copiedTypeOfTargets fuel endptr).Ensures (memory A) (fun c m => c.Inside m) m
      fun type _ => type = typeOfTargets endptr text := by
  have hle := length_restoreLines_le endptr text
  have hle2 := length_restoreLines_le endptr (restoreLines endptr text)
  have h1 := not_mem_restoreLines h0 endptr
  have h2 := not_mem_restoreLines h1 endptr
  unfold copiedTypeOfTargets searchTargets typeOfTargets
  dsimp only
  rw [any_lines h0 fun t ht => (matchesAny_targets ht).1,
    any_lines h1 fun t ht => (matchesAny_targets ht).2.1,
    any_lines h2 fun t ht => (matchesAny_targets ht).2.2]
  refine (ensures_search (by unfold ProperLiterals; decide) hm h0 (by omega) (by omega)
    hfuel).bind ?_
  rintro r m1 ⟨hr1, hm1, hkept⟩
  rw [← hr1]
  cases r with
  | true => exact rfl
  | false =>
    -- no files: the newlines before the end of the list are back
    obtain ⟨hleft, -⟩ := hkept rfl rfl
    rw [Nat.sub_zero] at hleft
    refine (ensures_search (by unfold ProperLiterals; decide) hleft h1 (by omega) (by omega)
      (by omega)).bind ?_
    rintro r m2 ⟨hr2, hm2, hkept2⟩
    rw [← hr2]
    cases r with
    | true => exact rfl
    | false =>
      obtain ⟨hleft2, -⟩ := hkept2 rfl rfl
      rw [Nat.sub_zero] at hleft2
      refine (ensures_search (by unfold ProperLiterals; decide) hleft2 h2 (by omega) (by omega)
        (by omega)).bind ?_
      rintro r m3 ⟨hr3, -, -⟩
      rw [← hr3]
      cases r with
      | true => exact rfl
      | false => exact rfl

/-- On the lines of a list of targets, the searches classify them. -/
theorem typeOfTargets_targetLines {names : List Bytes}
    (hn : ∀ n ∈ names, (0 : UInt8) ∉ n ∧ (0x0a : UInt8) ∉ n) :
    typeOfTargets (targetLines names).length (targetLines names) = classifyTargets names := by
  have hlf : ∀ n ∈ names, (0x0a : UInt8) ∉ n := fun n h => (hn n h).2
  have h0 := not_mem_targetLines fun n h => (hn n h).1
  have hwhole : lines (targetLines names) = fileLines (targetLines names) := by
    unfold lines
    rw [cstr_of_not_mem h0]
    rfl
  have hchop : lines (chopLf (targetLines names)) = fileLines (chopLf (targetLines names)) := by
    unfold lines
    rw [cstr_of_not_mem (not_mem_chopLf h0)]
    rfl
  unfold typeOfTargets classifyTargets
  dsimp only
  rw [restoreLines_length, restoreLines_chopLf, hwhole, hchop, any_targetLines (by decide) hlf,
    any_chopLf_targetLines (by decide) hlf, any_chopLf_targetLines (by decide) hlf]

/-- **The type of what was copied.**  `get_copied_type` classifies the targets in the order files,
    images, texts, and writes nothing outside of the string of targets and its NUL. -/
theorem copiedTypeOfTargets_spec (A : Allocator) (names : List Bytes)
    (hn : ∀ n ∈ names, n ≠ [] ∧ (0 : UInt8) ∉ n ∧ (0x0a : UInt8) ∉ n) (fuel : Nat)
    (hfuel : (targetLines names).length + 2 ≤ fuel) :
    (copiedTypeOfTargets fuel (targetLines names).length).Ensures (memory A)
      (fun c m => c.Inside m) (Memory.ofBlock (targetLines names ++ [0]))
      fun type _ => type = classifyTargets names := by
  have hsize : (Memory.ofBlock (targetLines names ++ [0])).size = (targetLines names).length + 1 :=
    List.length_append
  rw [← typeOfTargets_targetLines fun n h => (hn n h).2]
  exact copiedTypeOfTargets_eq A (Memory.holds_ofBlock _ [])
    (not_mem_targetLines fun n h => (hn n h).2.1) (by omega) hfuel _

/-- `copiedTypeOfTargets_spec` for a text and an image. -/
theorem copiedTypeOfTargets_image :
    (copiedTypeOfTargets 64 21).Ensures (memory ⟨fun _ => 0, 0⟩) (fun c m => c.Inside m)
      (Memory.ofBlock (ascii "text/plain\nimage/png\n" ++ [0])) fun type _ => type = .image :=
  copiedTypeOfTargets_spec ⟨fun _ => 0, 0⟩ [ascii "text/plain", ascii "image/png"] (by decide) 64
    (by decide)

/-! ### The function on byte strings -/

/-- **`get_copied_type`** on a list of targets that is not empty. -/
theorem getCopiedType_classifies {names : List Bytes} (hne : names ≠ [])
    (hn : ∀ n ∈ names, (0 : UInt8) ∉ n ∧ (0x0a : UInt8) ∉ n) {l : Session} {h : Host}
    (hfs : l.fault = false)
    (hclip : h.desktop.read (some targetsName) = some (targetLines names, [])) :
    getCopiedType.run respond (l, h) = (some (classifyTargets names), l.tick, h) := by
  have hread : respond (.xclipOut (some targetsName)) (l, h)
      = (some (targetLines names, []), l.tick, h) := by
    rw [respond_of_fault_none hfs]
    show (h.desktop.read _, _) = _
    rw [hclip]
  have hsome := targetLines_ne_nil hne
  have h0 := not_mem_targetLines fun n h => (hn n h).1
  rw [← typeOfTargets_targetLines hn]
  unfold getCopiedType xclipTargets xclipUtilTargets
  simp only [Prog.ask_bind, Prog.call_bind, Prog.run_call, hread, id, if_neg hsome, Prog.pure_eq,
    Prog.ret_bind, List.append_nil, cstr_of_not_mem h0]
  rfl

end ClipShare
