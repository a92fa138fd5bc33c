import ClipShare.Verify.Assignments

namespace ClipShare

open Posix

/-!
# Long lines of a configuration file

`parse_conf` reads pieces of at most 2046 bytes, so that a longer line is not parsed as one line:
each of its pieces is checked and parsed on its own.

* `linePieces` / `filePieces` — the pieces of a line, and of all lines of a file;
* `parsePieces_eq_foldlM` — `parse_conf` goes over these pieces;
* `ReadByLines` — the file is read as its lines are;
* `read_by_lines_iff` — when it is: the first piece that is rejected is one of an assignment, or
  the pieces assign what the lines do.
-/

/-! ### Pieces -/

/-- The pieces in which `parse_conf` reads a line. -/
def linePieces (line : Bytes) : List Bytes := cutEvery (lineMaxLen - 1) line

/-- The pieces of the lines of a file. -/
def filePieces (content : Bytes) : List Bytes := (fileLines content).flatMap linePieces

variable {sur : Surroundings} {web : Bool} {fileName : Bytes}

/-- The first piece of a long line. -/
theorem filePieces_append {piece : Bytes} (hpiece : piece.length = lineMaxLen - 1)
    (hnl : (0x0a : UInt8) ∉ piece) (s : Bytes) :
    filePieces (piece ++ s) = piece :: filePieces s := by
  have hcut : ∀ line, linePieces (piece ++ line) = piece :: linePieces line :=
    cutEvery_append (by decide) hpiece
  have hnot : ∀ line, (0x0a : UInt8) ∉ line → (0x0a : UInt8) ∉ piece ++ line := by
    intro line hline
    rw [List.mem_append]
    exact not_or.mpr ⟨hnl, hline⟩
  unfold filePieces
  obtain ⟨line, hline, rfl | ⟨rest, rfl⟩⟩ := exists_line s
  · rw [fileLines_of_not_mem hline, fileLines_of_not_mem (hnot _ hline)]
    simp [hcut]
  · rw [← List.append_assoc, fileLines_append hline, fileLines_append (hnot _ hline)]
    simp [hcut]

/-! ### What is rejected -/

/-- Why `parse_line` rejects a line, if it does. -/
def rejection (sur : Surroundings) (web : Bool) (line : Bytes) : Option Stop :=
  match parseLine sur web line Config.unset with
  | .error e => some e
  | .ok _ => none

/-- An assignment fails for the same texts whatever the configuration is. -/
theorem Setting.Assigns.error_iff {i : Nat} {f : Bytes → Except Stop Value} {set : Setting}
    (hf : set.Assigns i f) {text : Bytes} {c : Config} {e : Stop} :
    set text c = .error e ↔ f text = .error e := by
  have hmap := hf text c
  cases hset : set text c with
  | ok d =>
    obtain ⟨x, hx, -⟩ := hf.values hset
    rw [hx]
    exact ⟨nofun, nofun⟩
  | error e' =>
    rw [hset] at hmap
    cases hx : f text with
    | ok x => rw [hx] at hmap; cases hmap
    | error e'' =>
      rw [hx] at hmap
      have he : e' = e'' := Except.error.inj hmap
      rw [he, Except.error.injEq, Except.error.injEq]

theorem parseLine_error {line : Bytes} {c : Config} {e : Stop}
    (h : parseLine sur web line c = .error e) (d : Config) :
    parseLine sur web line d = .error e := by
  unfold parseLine at h ⊢
  by_cases heq : (0x3d : UInt8) ∈ line
  · simp only [heq, not_true_eq_false, if_false] at h ⊢
    split at h
    · cases h
    · rename_i hcomment
      rw [if_neg hcomment]
      split at h
      · rename_i hkey
        rw [if_pos hkey]
        exact h
      · rename_i hkey
        rw [if_neg hkey]
        split at h
        · rename_i hvalue
          rw [if_pos hvalue]
          exact h
        · rename_i hvalue
          rw [if_neg hvalue]
          split at h
          · rename_i set hset
            obtain ⟨-, f, hf⟩ := settingOf_owns hset
            exact hf.error_iff.mpr (hf.error_iff.mp h)
          · cases h
  · simp only [heq, not_false_eq_true, if_true] at h
    cases h

theorem judged_parseLine : Judged (fun c line => parseLine sur web line c) (rejection sur web) := by
  intro c line e
  unfold rejection
  constructor
  · intro h
    rw [parseLine_error h Config.unset]
  · intro h
    split at h
    · rename_i e' he'
      rw [← Option.some.inj h]
      exact parseLine_error he' c
    · cases h

/-- The message for a file that is not UTF-8. -/
def invalidEncoding (fileName : Bytes) : Bytes :=
  boundedMessage 2048
    (ascii "Error: Config file " ++ fileName ++ ascii " has invalid utf8 encoding")
    ((ascii "Error: Config file " ++ fileName ++ ascii " has invalid utf8 encoding").take 2047)

/-- What `parse_conf` does with a piece. -/
def readPiece (sur : Surroundings) (web : Bool) (fileName : Bytes) (cfg : Config)
    (piece : Bytes) : Except Stop Config :=
  if !validUtf8 piece then errorExit (invalidEncoding fileName) else parseLine sur web piece cfg

/-- Why a piece is rejected, if it is. -/
def pieceRejection (sur : Surroundings) (web : Bool) (fileName piece : Bytes) : Option Stop :=
  if !validUtf8 piece then some (.exit (invalidEncoding fileName)) else rejection sur web piece

theorem judged_readPiece :
    Judged (readPiece sur web fileName) (pieceRejection sur web fileName) := by
  intro c piece e
  unfold readPiece pieceRejection
  split
  · show Except.error _ = Except.error e ↔ some _ = some e
    rw [Except.error.injEq, Option.some.injEq]
  · exact judged_parseLine c piece e

/-! ### Pieces and lines -/

/-- The newline of a line does not matter for what is done with it. -/
theorem parseLine_newline (line : Bytes) (c : Config) :
    parseLine sur web (line ++ [0x0a]) c = parseLine sur web line c := by
  by_cases heq : (0x3d : UInt8) ∈ line
  · obtain ⟨a, b, rfl, ha⟩ := List.eq_append_cons_of_mem heq
    have hassoc : (a ++ 0x3d :: b) ++ [0x0a] = a ++ 0x3d :: (b ++ [0x0a]) := by simp
    unfold parseLine
    simp only [hassoc, (cut_at ha _).1, (cut_at ha _).2, List.drop_one, List.tail_cons,
      trim_newline, List.mem_append, List.mem_cons, true_or, or_true, not_true_eq_false, if_false]
  · have heq' : (0x3d : UInt8) ∉ line ++ [0x0a] := by
      rw [List.mem_append]
      exact not_or.mpr ⟨heq, by decide⟩
    unfold parseLine
    rw [if_pos heq, if_pos heq']

theorem readPiece_newline (line : Bytes) (c : Config) :
    readPiece sur web fileName c (line ++ [0x0a]) = readPiece sur web fileName c line := by
  have hvalid : validUtf8 (line ++ [0x0a]) = validUtf8 line := by
    rw [Bool.eq_iff_iff]
    exact ⟨fun h => (validUtf8_cut (by decide) h).1, fun h => validUtf8_append h (by decide)⟩
  unfold readPiece
  rw [hvalid, parseLine_newline]

/-- A line that is not longer than a piece is read as a whole. -/
theorem foldlM_linePieces {line : Bytes} (hline : line.length ≤ lineMaxLen - 1) (c : Config) :
    (linePieces line).foldlM (readPiece sur web fileName) c =
      readPiece sur web fileName c line := by
  unfold linePieces
  by_cases hne : line = []
  · rw [hne, cutEvery_nil (by decide)]
    rfl
  · rw [cutEvery_of_le hne hline, List.foldlM_cons]
    exact bind_pure _

/-- `fgets` fills the buffer with the beginning of a longer line. -/
theorem fgets_full {piece : Bytes} (hnl : (0x0a : UInt8) ∉ piece) (s : Bytes) :
    fgets piece.length (piece ++ s) = (piece, s) := by
  induction piece with
  | nil => rfl
  | cons c piece ih =>
    have hc : c ≠ 0x0a := fun e => hnl (e ▸ List.mem_cons_self ..)
    show fgets (piece.length + 1) (c :: (piece ++ s)) = _
    rw [fgets, if_neg hc, ih fun h => hnl (List.mem_cons_of_mem c h)]

/-- **Step lemma.**  What `fgets` delivers is the next piece of the lines, up to the newline. -/
theorem fgets_piece (sur : Surroundings) (web : Bool) (fileName : Bytes) {content : Bytes}
    (hne : content ≠ []) :
    ∃ piece rest, fgets (lineMaxLen - 1) content = (piece, rest) ∧ content = piece ++ rest ∧
      rest.length < content.length ∧
      ∀ c, (filePieces content).foldlM (readPiece sur web fileName) c =
        readPiece sur web fileName c piece >>=
          (filePieces rest).foldlM (readPiece sur web fileName) := by
  obtain ⟨line, hline, hcontent⟩ := exists_line content
  by_cases hlong : lineMaxLen - 1 ≤ line.length
  · -- a full buffer, and the line goes on
    obtain ⟨s, hs⟩ : ∃ s, content = line.take (lineMaxLen - 1) ++ s := by
      obtain rfl | ⟨rest, rfl⟩ := hcontent
      · exact ⟨_, (List.take_append_drop _ _).symm⟩
      · refine ⟨line.drop (lineMaxLen - 1) ++ 0x0a :: rest, ?_⟩
        rw [← List.append_assoc, List.take_append_drop]
    have hlen : (line.take (lineMaxLen - 1)).length = lineMaxLen - 1 :=
      List.length_take_of_le hlong
    have hnl : (0x0a : UInt8) ∉ line.take (lineMaxLen - 1) :=
      fun h => hline (List.mem_of_mem_take h)
    have hfgets := fgets_full hnl s
    rw [hlen] at hfgets
    refine ⟨_, s, by rw [hs, hfgets], hs, ?_, fun c => ?_⟩
    · rw [hs, List.length_append, hlen]
      exact Nat.lt_add_of_pos_left (by decide)
    · rw [hs, filePieces_append hlen hnl, List.foldlM_cons]
  · -- what is left of the line fits the buffer, with its newline if it has one
    have hshort : line.length < lineMaxLen - 1 := Nat.lt_of_not_le hlong
    obtain rfl | ⟨rest, rfl⟩ := hcontent
    · refine ⟨content, [], fgets_last hline hshort, (List.append_nil _).symm,
        List.length_pos_iff.mpr hne, fun c => ?_⟩
      unfold filePieces
      rw [fileLines_of_not_mem hline, List.flatMap_singleton, foldlM_linePieces hshort.le]
      exact (bind_pure _).symm
    · refine ⟨line ++ [0x0a], rest, fgets_line hline hshort rest, by simp, ?_, fun c => ?_⟩
      · rw [List.length_append, List.length_cons]
        omega
      · unfold filePieces
        rw [fileLines_append hline, List.flatMap_cons, List.foldlM_append,
          foldlM_linePieces hshort.le, readPiece_newline]

/-- **Run lemma.**  The loop of `parse_conf` goes over the pieces of the lines. -/
theorem parsePieces_eq_foldlM {content : Bytes} (hnul : (0 : UInt8) ∉ content) {fuel : Nat}
    (hfuel : content.length ≤ fuel) (c : Config) :
    parsePieces sur web fileName fuel content c =
      (filePieces content).foldlM (readPiece sur web fileName) c := by
  induction fuel generalizing content c with
  | zero =>
    have hempty : content = [] := List.length_eq_zero_iff.mp (by omega)
    rw [hempty]
    rfl
  | succ fuel ih =>
    by_cases hne : content = []
    · rw [hne]
      rfl
    · obtain ⟨piece, rest, hpiece, hcontent, hlen, hfold⟩ := fgets_piece sur web fileName hne
      have hnuls : (0 : UInt8) ∉ piece ∧ (0 : UInt8) ∉ rest := by
        rw [hcontent, List.mem_append] at hnul
        exact not_or.mp hnul
      rw [hfold]
      obtain ⟨x, s, rfl⟩ := List.exists_cons_of_ne_nil hne
      simp only [parsePieces, hpiece, cstr_of_not_mem hnuls.1]
      unfold readPiece
      split
      · rfl
      · apply bind_congr
        intro d
        exact ih hnuls.2 (by omega) d

/-! ### What is assigned -/

/-- Pieces that are read are parsed. -/
theorem foldlM_readPiece_ok {texts : List Bytes} {c d : Config}
    (h : texts.foldlM (readPiece sur web fileName) c = .ok d) :
    parseLines sur web texts c = .ok d := by
  unfold parseLines
  induction texts generalizing c with
  | nil => exact h
  | cons piece texts ih =>
    rw [List.foldlM_cons] at h ⊢
    obtain ⟨c', hpiece, hrest⟩ := bind_eq_ok.mp h
    unfold readPiece at hpiece
    split at hpiece
    · cases hpiece
    · exact bind_eq_ok.mpr ⟨c', hpiece, ih hrest⟩

/-- What an option is, in a configuration in which no other is set, after the last assignment. -/
def stored (set : Setting) : Option Bytes → Except Stop Config
  | none => .ok Config.unset
  | some value => set value Config.unset

/-- The last assignments leave the same values in a slot if and only if they store the same. -/
theorem Settled.stored_iff {i : Nat} {f : Bytes → Except Stop Value} {set : Setting}
    (hf : set.Assigns i f) {last1 last2 : Option Bytes} {new1 new2 : Option Value}
    (hi : i < Config.unset.values.length) (h1 : Settled f Config.unset.values[i]? last1 new1)
    (h2 : Settled f Config.unset.values[i]? last2 new2) :
    stored set last1 = stored set last2 ↔ new1 = new2 := by
  -- storing a value by itself changes its own slot, to what the slot holds at the end
  have hstored : ∀ {last new}, Settled f Config.unset.values[i]? last new →
      ∃ d, stored set last = .ok d ∧ d.values[i]? = new ∧
        ∀ j, i ≠ j → d.values[j]? = Config.unset.values[j]? := by
    intro last new h
    cases last with
    | none => exact ⟨Config.unset, rfl, h.symm, fun _ _ => rfl⟩
    | some value =>
      obtain ⟨x, hx, rfl⟩ := h
      cases hset : set value Config.unset with
      | error e =>
        have := hf.error_iff.mp hset
        rw [hx] at this
        cases this
      | ok d =>
        obtain ⟨y, hy, hvalues⟩ := hf.values hset
        have hxy : x = y := Except.ok.inj (hx.symm.trans hy)
        refine ⟨d, hset, ?_, fun j hj => ?_⟩
        · rw [hvalues, List.getElem?_set_self hi, hxy]
        · rw [hvalues, List.getElem?_set_ne hj]
  obtain ⟨d1, hd1, hnew1, hothers1⟩ := hstored h1
  obtain ⟨d2, hd2, hnew2, hothers2⟩ := hstored h2
  rw [hd1, hd2, Except.ok.injEq]
  constructor
  · intro hd
    rw [← hnew1, ← hnew2, hd]
  · intro hnew
    apply Config.ext_values
    apply List.ext_getElem?
    intro j
    by_cases hj : i = j
    · rw [← hj, hnew1, hnew2, hnew]
    · rw [hothers1 j hj, hothers2 j hj]

/-- Texts whose last assignments to every known key store the same give the same configuration,
    and only such texts do. -/
theorem parseLines_eq_iff {texts1 texts2 : List Bytes}
    (hnul1 : ∀ text ∈ texts1, (0 : UInt8) ∉ text) (hnul2 : ∀ text ∈ texts2, (0 : UInt8) ∉ text)
    {c1 c2 : Config} (h1 : parseLines sur web texts1 Config.unset = .ok c1)
    (h2 : parseLines sur web texts2 Config.unset = .ok c2) :
    c1 = c2 ↔ ∀ key set, settingOf sur web key = some set →
      stored set (lastOf key (texts1.filterMap assignment)) =
        stored set (lastOf key (texts2.filterMap assignment)) := by
  obtain ⟨hslots1, hothers1⟩ := parseLines_slot hnul1 h1
  obtain ⟨hslots2, hothers2⟩ := parseLines_slot hnul2 h2
  have hkey : ∀ key set, settingOf sur web key = some set →
      (stored set (lastOf key (texts1.filterMap assignment)) =
        stored set (lastOf key (texts2.filterMap assignment)) ↔
          c1.values[slotOf key]? = c2.values[slotOf key]?) := by
    intro key set hset
    obtain ⟨hknown, f, hf⟩ := settingOf_owns hset
    exact (hslots1 key set f hset hf).stored_iff hf (List.idxOf_lt_length_iff.mpr hknown)
      (hslots2 key set f hset hf)
  constructor
  · intro hc key set hset
    rw [hkey key set hset, hc]
  · intro hsame
    apply Config.ext_values
    apply List.ext_getElem?
    intro i
    by_cases hi : ∃ key set, settingOf sur web key = some set ∧ slotOf key = i
    · obtain ⟨key, set, hset, rfl⟩ := hi
      exact (hkey key set hset).mp (hsame key set hset)
    · have hne : ∀ key set, settingOf sur web key = some set → slotOf key ≠ i :=
        fun key set hset hslot => hi ⟨key, set, hset, hslot⟩
      rw [hothers1 i hne, hothers2 i hne]

/-! ### Reading by lines -/

/-- A comment: the first byte outside 0x01 to 0x20 is a `#`. -/
def IsComment (line : Bytes) : Prop := (line.dropWhile isBlank).head? = some 0x23

instance (line : Bytes) : Decidable (IsComment line) :=
  inferInstanceAs (Decidable (_ = _))

/-- Lines with their newlines. -/
def joinLines (lines : List Bytes) : Bytes := lines.flatMap (· ++ [0x0a])

/-- The reading of a file stops in a line: what comes before the line is read, but what comes
    before its end is not. -/
def StopsIn (sur : Surroundings) (web : Bool) (fileName content line : Bytes) (stop : Stop) :
    Prop :=
  ∃ front rest, fileLines content = front ++ line :: rest ∧
    (∃ c, parsePieces sur web fileName (joinLines front).length (joinLines front) Config.unset =
      .ok c) ∧
    parsePieces sur web fileName (joinLines front ++ line).length (joinLines front ++ line)
      Config.unset = .error stop

/-- The file is read by lines: either the server exits because of a line with a `=` that is no
    comment, or the configuration is what the lines give one after the other, with the comments
    or without them. -/
def ReadByLines (sur : Surroundings) (web : Bool) (fileName content : Bytes) : Prop :=
  (∃ msg line, parseConf sur web (some fileName) = .error (.exit msg) ∧ 0x3d ∈ line ∧
    ¬ IsComment line ∧ StopsIn sur web fileName content line (.exit msg)) ∨
  ∃ c, parseConf sur web (some fileName) = .ok c ∧
    parseLines sur web (fileLines content) Config.unset = .ok c ∧
    parseLines sur web ((fileLines content).filter (¬ IsComment ·)) Config.unset = .ok c

/-- The first piece that is rejected makes the server exit, and it is a piece of a line with a `=`
    that is no comment. -/
def RejectedAssignment (sur : Surroundings) (web : Bool) (fileName content : Bytes) : Prop :=
  ∃ front line rest msg, fileLines content = front ++ line :: rest ∧ 0x3d ∈ line ∧
    ¬ IsComment line ∧
    (∀ piece ∈ front.flatMap linePieces, pieceRejection sur web fileName piece = none) ∧
    ∃ before piece after, linePieces line = before ++ piece :: after ∧
      (∀ p ∈ before, pieceRejection sur web fileName p = none) ∧
      pieceRejection sur web fileName piece = some (.exit msg)

/-- No piece and no line is rejected, and the last piece and the last line to assign a key store
    the same. -/
structure SameAssignments (sur : Surroundings) (web : Bool) (fileName content : Bytes) :
    Prop where
  pieces : ∀ piece ∈ filePieces content, pieceRejection sur web fileName piece = none
  lines : ∀ line ∈ fileLines content, rejection sur web line = none
  same : ∀ key set, settingOf sur web key = some set →
    stored set (lastOf key ((filePieces content).filterMap assignment)) =
      stored set (lastValue content key)

/-- A first byte that is no blank stays the first one. -/
theorem head_trim_cons {b : UInt8} (hb : isBlank b = false) (s : Bytes) :
    (trim (b :: s)).head? = some b := by
  have hb' : ¬ isBlank b = true := by simp [hb]
  unfold trim
  rw [List.dropWhile_cons_of_neg hb']
  induction s using List.reverseRecOn with
  | nil =>
    show (List.rdropWhile isBlank ([] ++ [b])).head? = _
    rw [List.rdropWhile_concat_neg _ _ _ hb']
    rfl
  | append_singleton s x ih =>
    rw [← List.cons_append]
    by_cases hx : isBlank x = true
    · rw [List.rdropWhile_concat_pos _ _ _ hx, ih]
    · rw [List.rdropWhile_concat_neg _ _ _ hx]
      rfl

/-- A comment does nothing. -/
theorem parseLine_comment {line : Bytes} (h : IsComment line) (c : Config) :
    parseLine sur web line c = .ok c := by
  by_cases heq : (0x3d : UInt8) ∈ line
  · have hkey : (trim (line.takeWhile (· ≠ 0x3d))).head? = some 0x23 := by
      obtain ⟨s, hs⟩ := List.head?_eq_some_iff.mp h
      have hblank : ∀ b ∈ line.takeWhile isBlank, isBlank b = true :=
        fun b hb => List.mem_takeWhile_imp hb
      have hne : ∀ b ∈ line.takeWhile isBlank, decide (b ≠ 0x3d) = true := by
        intro b hb
        apply decide_eq_true
        rintro rfl
        exact absurd (hblank _ hb) (by decide)
      rw [← List.takeWhile_append_dropWhile (p := isBlank) (l := line), hs,
        List.takeWhile_append_of_pos hne, List.takeWhile_cons_of_pos (by decide)]
      rw [trim_append_left hblank]
      exact head_trim_cons (by decide) _
    unfold parseLine
    simp only [heq, not_true_eq_false, if_false]
    exact if_pos hkey
  · unfold parseLine
    exact if_pos heq

/-- Comments may be left out. -/
theorem parseLines_filter (texts : List Bytes) (c : Config) :
    parseLines sur web (texts.filter (¬ IsComment ·)) c = parseLines sur web texts c := by
  unfold parseLines
  induction texts generalizing c with
  | nil => rfl
  | cons text texts ih =>
    by_cases h : IsComment text
    · rw [List.filter_cons_of_neg (by simpa using h), List.foldlM_cons, parseLine_comment h]
      exact ih c
    · rw [List.filter_cons_of_pos (by simpa using h), List.foldlM_cons, List.foldlM_cons]
      apply bind_congr
      exact ih

/-- The lines of lines in front of a text. -/
theorem fileLines_joinLines {front : List Bytes} (h : ∀ l ∈ front, (0x0a : UInt8) ∉ l) (s : Bytes) :
    fileLines (joinLines front ++ s) = front ++ fileLines s := by
  induction front with
  | nil => rfl
  | cons l front ih =>
    rw [List.forall_mem_cons] at h
    show fileLines (((l ++ [0x0a]) ++ joinLines front) ++ s) = _
    rw [List.append_assoc, List.append_assoc, List.singleton_append, fileLines_append h.1, ih h.2,
      List.cons_append]

theorem filePieces_joinLines {front : List Bytes} (h : ∀ l ∈ front, (0x0a : UInt8) ∉ l)
    {line : Bytes} (hline : (0x0a : UInt8) ∉ line) :
    filePieces (joinLines front ++ line) = front.flatMap linePieces ++ linePieces line := by
  unfold filePieces
  rw [fileLines_joinLines h, fileLines_of_not_mem hline, List.flatMap_append,
    List.flatMap_singleton]

theorem parsePieces_ok_iff {content : Bytes} (hnul : (0 : UInt8) ∉ content) :
    (∃ c, parsePieces sur web fileName content.length content Config.unset = .ok c) ↔
      ∀ piece ∈ filePieces content, pieceRejection sur web fileName piece = none := by
  rw [parsePieces_eq_foldlM hnul le_rfl]
  exact judged_readPiece.foldlM_ok_iff

/-- The reading stops in a line at the first piece that is rejected. -/
theorem stopsIn_iff {content line : Bytes} (hnul : (0 : UInt8) ∉ content) {stop : Stop} :
    StopsIn sur web fileName content line stop ↔
      ∃ front rest, fileLines content = front ++ line :: rest ∧
        (∀ piece ∈ front.flatMap linePieces, pieceRejection sur web fileName piece = none) ∧
        ∃ before piece after, linePieces line = before ++ piece :: after ∧
          (∀ p ∈ before, pieceRejection sur web fileName p = none) ∧
          pieceRejection sur web fileName piece = some stop := by
  unfold StopsIn
  apply exists_congr
  intro front
  apply exists_congr
  intro rest
  apply and_congr_right
  intro hlines
  have hmem : ∀ l ∈ front ++ [line], l ∈ fileLines content := by
    intro l hl
    rw [hlines, List.append_cons]
    exact List.mem_append_left rest hl
  have hnl : ∀ l ∈ front ++ [line], (0x0a : UInt8) ∉ l := fun l hl => not_mem_fileLines (hmem l hl)
  have hnul' : ∀ l ∈ front ++ [line], (0 : UInt8) ∉ l :=
    fun l hl h => hnul (mem_of_mem_fileLines (hmem l hl) h)
  rw [List.forall_mem_append, List.forall_mem_singleton] at hnl hnul'
  have hfront : (0 : UInt8) ∉ joinLines front := by
    intro h
    obtain ⟨l, hl, h⟩ := List.mem_flatMap.mp h
    rw [List.mem_append] at h
    exact h.elim (hnul'.1 l hl) (by decide)
  have hall : (0 : UInt8) ∉ joinLines front ++ line := by
    rw [List.mem_append]
    exact not_or.mpr ⟨hfront, hnul'.2⟩
  -- what precedes the line consists of the pieces of the lines before it
  have hpieces : filePieces (joinLines front) = front.flatMap linePieces := by
    have hnil : (0x0a : UInt8) ∉ ([] : Bytes) := List.not_mem_nil
    have h := filePieces_joinLines hnl.1 hnil
    have hempty : linePieces [] = [] := cutEvery_nil (by decide)
    rwa [List.append_nil, hempty, List.append_nil] at h
  rw [parsePieces_ok_iff hfront, hpieces]
  apply and_congr_right
  intro hread
  obtain ⟨c, hc⟩ := (judged_readPiece.foldlM_ok_iff (b := Config.unset)).mpr hread
  rw [parsePieces_eq_foldlM hall le_rfl, filePieces_joinLines hnl.1 hnl.2, List.foldlM_append, hc]
  exact judged_readPiece.foldlM_error_iff

/-- `parse_conf` goes over the pieces of its file. -/
theorem parseConf_filePieces {content : Bytes} (hopen : sur.openFile fileName = .regular content)
    (hnul : (0 : UInt8) ∉ content) :
    parseConf sur web (some fileName) =
      (filePieces content).foldlM (readPiece sur web fileName) Config.unset := by
  simp only [parseConf, hopen]
  exact parsePieces_eq_foldlM hnul le_rfl Config.unset

/-- The reading of a file stops where the reading of one of its lines does. -/
theorem StopsIn.parseConf {content line : Bytes} (hopen : sur.openFile fileName = .regular content)
    (hnul : (0 : UInt8) ∉ content) {stop : Stop}
    (h : StopsIn sur web fileName content line stop) :
    parseConf sur web (some fileName) = .error stop := by
  obtain ⟨front, rest, hlines, hread, before, piece, after, hpieces, hbefore, hpiece⟩ :=
    (stopsIn_iff hnul).mp h
  rw [parseConf_filePieces hopen hnul, judged_readPiece.foldlM_error_iff]
  refine ⟨front.flatMap linePieces ++ before, piece, after ++ rest.flatMap linePieces, ?_, ?_,
    hpiece⟩
  · unfold filePieces
    rw [hlines, List.flatMap_append, List.flatMap_cons, hpieces]
    simp
  · rw [List.forall_mem_append]
    exact ⟨hread, hbefore⟩

theorem mem_filePieces_nul {content : Bytes} (hnul : (0 : UInt8) ∉ content) :
    ∀ piece ∈ filePieces content, (0 : UInt8) ∉ piece := by
  intro piece hpiece h
  obtain ⟨line, hline, hpiece⟩ := List.mem_flatMap.mp hpiece
  obtain ⟨i, -, rfl⟩ := List.mem_map.mp hpiece
  exact hnul (mem_of_mem_fileLines hline (List.mem_of_mem_drop (List.mem_of_mem_take h)))

/-! ### Short lines -/

theorem mem_linePieces_of_le {line piece : Bytes} (hline : line.length ≤ lineMaxLen - 1)
    (hpiece : piece ∈ linePieces line) : piece = line := by
  unfold linePieces at hpiece
  by_cases hne : line = []
  · rw [hne, cutEvery_nil (by decide)] at hpiece
    cases hpiece
  · rw [cutEvery_of_le hne hline] at hpiece
    exact List.mem_singleton.mp hpiece

/-- Short lines assign what their pieces do. -/
theorem filterMap_linePieces {lines : List Bytes} (h : ∀ l ∈ lines, l.length ≤ lineMaxLen - 1) :
    (lines.flatMap linePieces).filterMap assignment = lines.filterMap assignment := by
  induction lines with
  | nil => rfl
  | cons line lines ih =>
    rw [List.forall_mem_cons] at h
    rw [List.flatMap_cons, List.filterMap_append, ih h.2]
    unfold linePieces
    by_cases hne : line = []
    · rw [hne, cutEvery_nil (by decide)]
      rfl
    · rw [cutEvery_of_le hne h.1, ← List.filterMap_append, List.singleton_append]

/-- A line that is rejected has a `=` and is no comment. -/
theorem rejection_eq_some {line : Bytes} {stop : Stop} (h : rejection sur web line = some stop) :
    0x3d ∈ line ∧ ¬ IsComment line := by
  have hline := (judged_parseLine Config.unset line stop).mpr h
  constructor
  · by_contra heq
    simp [parseLine, heq] at hline
  · intro hcomment
    simp [parseLine_comment hcomment] at hline

/-- In a file whose lines fit the buffer, the first rejected line is an assignment, or the pieces
    are the lines; but a list of clients may be read forever. -/
theorem rejected_or_same_of_short {content : Bytes} (hvalid : validUtf8 content = true)
    (hshort : ∀ line ∈ fileLines content, line.length ≤ lineMaxLen - 1)
    (hhang : ∀ line ∈ fileLines content, rejection sur web line ≠ some .hang) :
    RejectedAssignment sur web fileName content ∨ SameAssignments sur web fileName content := by
  have hpiece : ∀ line ∈ fileLines content, pieceRejection sur web fileName line =
      rejection sur web line := by
    intro line hline
    unfold pieceRejection
    simp [validUtf8_of_mem_fileLines hvalid hline]
  have hpieces : ∀ lines : List Bytes, (∀ l ∈ lines, l ∈ fileLines content) →
      (∀ l ∈ lines, rejection sur web l = none) →
        ∀ piece ∈ lines.flatMap linePieces, pieceRejection sur web fileName piece = none := by
    intro lines hsub hlines piece hmem
    obtain ⟨l, hl, hmem⟩ := List.mem_flatMap.mp hmem
    rw [mem_linePieces_of_le (hshort l (hsub l hl)) hmem, hpiece l (hsub l hl), hlines l hl]
  -- lines that fit the buffer are their own pieces
  cases hfold : parseLines sur web (fileLines content) Config.unset with
  | ok c =>
    have hlines := judged_parseLine.foldlM_ok_iff.mp ⟨c, hfold⟩
    refine .inr ⟨hpieces _ (fun _ hl => hl) hlines, hlines, fun key set _ => ?_⟩
    unfold filePieces lastValue assignments
    rw [filterMap_linePieces hshort]
  | error stop =>
    obtain ⟨front, line, rest, hlines, hfront, hline⟩ := judged_parseLine.foldlM_error_iff.mp hfold
    have hmem : ∀ l ∈ front ++ [line], l ∈ fileLines content := by
      intro l hl
      rw [hlines, List.append_cons]
      exact List.mem_append_left rest hl
    rw [List.forall_mem_append, List.forall_mem_singleton] at hmem
    obtain ⟨heq, hcomment⟩ := rejection_eq_some hline
    cases stop with
    | hang => exact absurd hline (hhang line hmem.2)
    | exit msg =>
      refine .inl ⟨front, line, rest, msg, hlines, heq, hcomment,
        hpieces front hmem.1 hfront, [], line, [], ?_, fun _ h => absurd h List.not_mem_nil, ?_⟩
      · exact cutEvery_of_le (List.ne_nil_of_mem heq) (hshort line hmem.2)
      · rw [hpiece line hmem.2, hline]

/-! ### The files that are read by lines -/

/-- **A file is read by lines** if and only if the first piece that is rejected is one of an
    assignment, or nothing is rejected and the pieces assign what the lines do. -/
theorem read_by_lines_iff {content : Bytes} (hopen : sur.openFile fileName = .regular content)
    (hnul : (0 : UInt8) ∉ content) :
    ReadByLines sur web fileName content ↔
      RejectedAssignment sur web fileName content ∨ SameAssignments sur web fileName content := by
  have hlinesNul : ∀ line ∈ fileLines content, (0 : UInt8) ∉ line :=
    fun line hline h => hnul (mem_of_mem_fileLines hline h)
  apply or_congr
  · constructor
    · rintro ⟨msg, line, -, heq, hcomment, hstop⟩
      obtain ⟨front, rest, hlines, hread, hpiece⟩ := (stopsIn_iff hnul).mp hstop
      exact ⟨front, line, rest, msg, hlines, heq, hcomment, hread, hpiece⟩
    · rintro ⟨front, line, rest, msg, hlines, heq, hcomment, hread, hpiece⟩
      have hstop := (stopsIn_iff hnul).mpr ⟨front, rest, hlines, hread, hpiece⟩
      exact ⟨msg, line, hstop.parseConf hopen hnul, heq, hcomment, hstop⟩
  · rw [parseConf_filePieces hopen hnul]
    constructor
    · rintro ⟨c, hread, hlines, -⟩
      refine ⟨judged_readPiece.foldlM_ok_iff.mp ⟨c, hread⟩,
        judged_parseLine.foldlM_ok_iff.mp ⟨c, hlines⟩, ?_⟩
      exact (parseLines_eq_iff (mem_filePieces_nul hnul) hlinesNul
        (foldlM_readPiece_ok hread) hlines).mp rfl
    · rintro ⟨hpieces, hlines, hsame⟩
      obtain ⟨c, hread⟩ := (judged_readPiece.foldlM_ok_iff (b := Config.unset)).mpr hpieces
      obtain ⟨d, hd⟩ := (judged_parseLine.foldlM_ok_iff (b := Config.unset)).mpr hlines
      have hcd : c = d := (parseLines_eq_iff (mem_filePieces_nul hnul) hlinesNul
        (foldlM_readPiece_ok hread) hd).mpr hsame
      refine ⟨c, hread, ?_⟩
      rw [parseLines_filter, hcd]
      exact ⟨hd, hd⟩

/-- A file with a comment and an assignment is read by lines. -/
theorem read_by_lines_two :
    ReadByLines (Surroundings.ofFile (ascii "# the screen\ndisplay=2\n")) true
      (ascii "clipshare.conf") (ascii "# the screen\ndisplay=2\n") := by
  have hhang : ∀ line ∈ fileLines (ascii "# the screen\ndisplay=2\n"),
      rejection (Surroundings.ofFile (ascii "# the screen\ndisplay=2\n")) true line
        ≠ some .hang := by
    set_option maxRecDepth 20000 in decide
  apply (read_by_lines_iff rfl (by decide)).mpr
  exact rejected_or_same_of_short (by decide) (by decide) hhang

/-- The first 2046 bytes of a comment. -/
def longComment : Bytes := 0x23 :: List.replicate 2045 0x78

theorem length_longComment : longComment.length = lineMaxLen - 1 := by
  unfold longComment
  rw [List.length_cons, List.length_replicate]
  rfl

theorem not_mem_longComment {b : UInt8} (h1 : b ≠ 0x23) (h2 : b ≠ 0x78) : b ∉ longComment := by
  intro h
  obtain rfl | h := List.mem_cons.mp h
  · exact h1 rfl
  · exact h2 (List.eq_of_mem_replicate h)

theorem validUtf8_longComment : validUtf8 longComment = true := by
  have hrep : ∀ n, validUtf8 (List.replicate n 0x78) = true := by
    intro n
    induction n with
    | zero => rfl
    | succ n ih => rw [List.replicate_succ, validUtf8_cons_ascii (by decide), ih]
  unfold longComment
  rw [validUtf8_cons_ascii (by decide), hrep]

/-- A file that is one comment. -/
def commentFile : Bytes := longComment ++ ascii "display=2"

theorem not_mem_commentFile {b : UInt8} (h1 : b ≠ 0x23) (h2 : b ≠ 0x78)
    (h3 : b ∉ ascii "display=2") : b ∉ commentFile := by
  intro h
  exact (List.mem_append.mp h).elim (not_mem_longComment h1 h2) h3

theorem commentFile_isComment : ∀ line ∈ fileLines commentFile, IsComment line := by
  rw [fileLines_of_not_mem (not_mem_commentFile (by decide) (by decide) (by decide)),
    List.forall_mem_singleton]
  show ((0x23 :: (List.replicate 2045 0x78 ++ ascii "display=2")).dropWhile isBlank).head? = _
  rw [List.dropWhile_cons_of_neg (by decide)]
  rfl

/-- The rest of the comment sets the display. -/
theorem commentFile_display :
    parseConf (Surroundings.ofFile commentFile) true (some (ascii "clipshare.conf")) =
      .ok { Config.unset with display := 2 } := by
  have hpieces : filePieces commentFile = [longComment, ascii "display=2"] := by
    have hlast : filePieces (ascii "display=2") = [ascii "display=2"] := by decide
    unfold commentFile
    rw [filePieces_append length_longComment (not_mem_longComment (by decide) (by decide)), hlast]
  have hfirst : readPiece (Surroundings.ofFile commentFile) true (ascii "clipshare.conf")
      Config.unset longComment = .ok Config.unset := by
    have heq : (0x3d : UInt8) ∉ longComment := not_mem_longComment (by decide) (by decide)
    unfold readPiece parseLine
    rw [validUtf8_longComment, if_pos heq]
    rfl
  have hsecond : readPiece (Surroundings.ofFile commentFile) true (ascii "clipshare.conf")
      Config.unset (ascii "display=2") = .ok { Config.unset with display := 2 } := by
    set_option maxRecDepth 20000 in decide
  rw [parseConf_filePieces rfl (not_mem_commentFile (by decide) (by decide) (by decide)), hpieces,
    List.foldlM_cons, hfirst]
  apply bind_eq_ok.mpr
  refine ⟨Config.unset, rfl, ?_⟩
  rw [List.foldlM_cons, hsecond]
  rfl

/-- **A long comment sets an option.**  The only line of the file is a comment, but the display is
    set. -/
theorem long_comment_assigns :
    validUtf8 commentFile = true ∧ 0 ∉ commentFile ∧
      (∀ line ∈ fileLines commentFile, IsComment line) ∧
      parseConf (Surroundings.ofFile commentFile) true (some (ascii "clipshare.conf")) =
        .ok { Config.unset with display := 2 } ∧
      ¬ ReadByLines (Surroundings.ofFile commentFile) true (ascii "clipshare.conf")
        commentFile := by
  refine ⟨validUtf8_append validUtf8_longComment (by decide),
    not_mem_commentFile (by decide) (by decide) (by decide), commentFile_isComment,
    commentFile_display, ?_⟩
  rintro (⟨msg, line, herror, -⟩ | ⟨c, hc, -, hby⟩)
  · rw [commentFile_display] at herror
    cases herror
  · -- without the comments no line is left
    have hfilter : (fileLines commentFile).filter (¬ IsComment ·) = [] := by
      rw [List.filter_eq_nil_iff]
      intro line hline
      simp [commentFile_isComment line hline]
    rw [hfilter] at hby
    rw [commentFile_display] at hc
    have hdisplay := congrArg Config.display (Except.ok.inj (hc.trans hby.symm))
    exact absurd hdisplay (by decide)

end ClipShare
