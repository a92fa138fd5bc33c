import ClipShare.Server.InPlace
import ClipShare.Server.Methods

namespace ClipShare

open Interaction Posix Prog

/-!
# File names

Which names the upload methods accept, and which name a file gets that has come in.

* `isValidFnameInPlace_ensures` — `_is_valid_fname` does on memory what `isValidFname` says;
* `isValidFname_grammar_iff` — it accepts the names without control characters, and those that have
  a NUL behind a first part without any;
* `destinations` / `firstFree` — the names that a file can get, and the first of them that is not
  taken;
* `freeName_yields` — the loop that looks for a name finds that one;
* `freshName_firstFit` — so do `_rename_if_exists` and `_check_and_rename`.
-/

/-! ### Names that are accepted -/

/-- There are no control characters. -/
def NoControls (s : Bytes) : Prop := ∀ c ∈ s, 0x20 ≤ c

instance (s : Bytes) : Decidable (NoControls s) := inferInstanceAs (Decidable (∀ c ∈ s, 0x20 ≤ c))

theorem isValidFname_iff {name : Bytes} : isValidFname name = true ↔
    validUtf8 name = true ∧ cstr name ≠ [] ∧ NoControls (cstr name) := by
  unfold isValidFname NoControls
  simp

section Valid

variable {A : Allocator} {P : MemCall → Memory → Prop} {m : Memory} {i : Nat}

/-- **Run lemma.**  The loop of `_is_valid_fname` looks at the string up to its NUL.  The induction
    is on the string. -/
theorem isValidFnameLoop_ensures {s : Bytes} {fuel : Nat} (hs : m.Holds i s)
    (h0 : (0 : UInt8) ∉ s) (hfuel : s.length < fuel)
    (hP : ∀ k, i ≤ k → k ≤ i + s.length → P (.load k) m) :
    (Prog.loop fuel isValidFnameRound i).Ensures (memory A) P m fun r _ =>
      r = if s ≠ [] ∧ NoControls s then .success else .failure := by
  induction s generalizing i fuel with
  | nil =>
    obtain ⟨fuel, rfl⟩ := Nat.exists_eq_succ_of_ne_zero (Nat.ne_of_gt hfuel)
    refine Ensures.loop_succ ?_
    unfold isValidFnameRound
    have hnul : m.byte i < 32 := (Memory.holds_nil.mp hs) ▸ (by decide)
    rw [load_bind, ensures_load, if_pos hnul, if_neg fun h => h.1 rfl]
    exact ⟨hP i le_rfl (by simp), rfl⟩
  | cons c s ih =>
    obtain ⟨fuel, rfl⟩ := Nat.exists_eq_succ_of_ne_zero (Nat.ne_of_gt (Nat.zero_lt_of_lt hfuel))
    rw [List.length_cons] at hfuel hP
    rw [List.mem_cons, not_or] at h0
    have hall : NoControls (c :: s) ↔ 0x20 ≤ c ∧ NoControls s := List.forall_mem_cons
    refine Ensures.loop_succ ?_
    unfold isValidFnameRound
    rw [load_bind, ensures_load, hs.1]
    refine ⟨hP i le_rfl (by omega), ?_⟩
    by_cases hc : c < 32
    · rw [if_pos hc, if_neg fun h => absurd (hall.mp h.2).1 (UInt8.not_le.mpr hc)]
      exact rfl
    · have hc' : 0x20 ≤ c := UInt8.not_lt.mp hc
      rw [if_neg hc, load_bind, ensures_load]
      refine ⟨hP (i + 1) (by omega) (by omega), ?_⟩
      cases s with
      | nil =>
        -- the name ends here
        rw [if_neg (not_not.mpr (Memory.holds_nil.mp hs.2)),
          if_pos ⟨List.cons_ne_nil _ _, hall.mpr ⟨hc', List.forall_mem_nil _⟩⟩]
        exact rfl
      | cons d s =>
        have hd : m.byte (i + 1) ≠ 0 := fun h =>
          h0.2 (List.mem_cons.mpr (.inl (h.symm.trans hs.2.1)))
        rw [if_pos hd]
        refine (ih hs.2 h0.2 (by omega) fun k hk hk' => hP k (by omega) (by omega)).mono ?_
        rintro r m' rfl
        simp [hall, hc']

/-- **Refinement.**  `_is_valid_fname` stays inside the name and its NUL, and answers what
    `isValidFname` says. -/
theorem isValidFnameInPlace_ensures {name : Bytes} {fuel : Nat} (hm : m.Shows i (name ++ [0]))
    (hfuel : name.length < fuel) :
    (isValidFnameInPlace fuel i name.length).Ensures (memory A)
      (fun c _ => c.Within i name.length) m fun r _ =>
        r = if isValidFname name then .success else .failure := by
  have hle := cstr_length_le name
  have hbytes : m.Shows i name := (Memory.shows_append.mp hm).1
  have hcheck : (u8Check i name.length).Ensures (memory A) (fun c _ => c.Within i name.length) m
      fun r m' => r = validUtf8 name ∧ m' = m := by
    refine (ensures_loadBytes hbytes fun k hk hk' => ⟨hk, le_of_lt hk'⟩).bind ?_
    rintro _ m' ⟨rfl, rfl⟩
    exact ⟨rfl, rfl⟩
  refine hcheck.bind ?_
  rintro _ m' ⟨rfl, rfl⟩
  cases hutf : validUtf8 name with
  | false =>
    have hno : ¬ isValidFname name = true := by
      rw [isValidFname_iff, hutf]
      simp
    rw [if_neg hno]
    exact rfl
  | true =>
    refine (isValidFnameLoop_ensures hm.holds_cstr (zero_not_mem_cstr name) (by omega)
      fun k hk hk' => ⟨hk, by omega⟩).mono ?_
    rintro r m' rfl
    simp only [isValidFname_iff, hutf, true_and]

/-- The grammar of file names: UTF-8 without control characters. -/
def FnameGrammar (name : Bytes) : Prop := validUtf8 name = true ∧ NoControls name

/-- A UTF-8 string with a NUL, in front of which there is a name of the grammar. -/
def NameBeforeNul (name : Bytes) : Prop :=
  validUtf8 name = true ∧ (0 : UInt8) ∈ name ∧ cstr name ≠ [] ∧ NoControls (cstr name)

/-- **Names that are accepted.**  `_is_valid_fname` accepts the grammar, except that it also accepts
    a string whose NUL comes after a name of the grammar, whatever there is behind the NUL. -/
theorem isValidFname_grammar_iff {name : Bytes} {fuel : Nat} (hne : name ≠ [])
    (hm : m.Shows i (name ++ [0])) (hfuel : name.length < fuel) :
    (((isValidFnameInPlace fuel i name.length).run (memory A) m).1 = some .success ↔
      FnameGrammar name) ↔ ¬ NameBeforeNul name := by
  obtain ⟨r, m', hrun, rfl⟩ := (isValidFnameInPlace_ensures (A := A) hm hfuel).run
  have haccept : ((isValidFnameInPlace fuel i name.length).run (memory A) m).1 = some .success ↔
      isValidFname name = true := by
    rw [hrun]
    cases isValidFname name <;> simp
  rw [haccept, isValidFname_iff]
  unfold FnameGrammar NameBeforeNul
  by_cases h0 : (0 : UInt8) ∈ name
  · -- the grammar has no NUL
    have hno : ¬ NoControls name := fun h => absurd (h 0 h0) (by decide)
    simp [h0, hno]
  · simp [h0, cstr_of_not_mem h0, hne]

end Valid

/-- A name with letters of two bytes. -/
def twoByteName : Bytes := ascii "r" ++ [0xc3, 0xa9] ++ ascii "sum" ++ [0xc3, 0xa9] ++ ascii ".txt"

/-- `isValidFname_grammar_iff` for such a name. -/
theorem isValidFname_grammar_letters :
    (((isValidFnameInPlace 13 0 twoByteName.length).run (memory ⟨fun _ => 0, 0⟩)
        (.ofBlock (twoByteName ++ [0]))).1 = some .success ↔ FnameGrammar twoByteName) ↔
      ¬ NameBeforeNul twoByteName :=
  isValidFname_grammar_iff (by decide) (Memory.holds_ofBlock twoByteName []).shows (by decide)

/-- The letter `a`, a NUL and a control character. -/
theorem isValidFname_hidden_control :
    ((isValidFnameInPlace 4 0 3).run (memory ⟨fun _ => 0, 0⟩) (.ofBlock [0x61, 0, 1, 0])).1
      = some .success ∧ ¬ FnameGrammar [0x61, 0, 1] := by
  refine ⟨by decide, fun h => ?_⟩
  exact absurd (h.2 1 (by decide)) (by decide)

/-! ### Names that are free -/

/-- The names that a file can get in the working directory, in the order of preference. -/
def destinations (env : Env) (f : Bytes) : List Bytes :=
  (if f = configFile ∧ env.configuration.workingDir = none then hereDir ++ ascii "1_" ++ f
    else hereDir ++ f) ::
    (List.range' 1 999999).map fun n => hereDir ++ decimal n ++ ascii "_" ++ f

/-- Is there something at a path? -/
def Host.there (h : Host) (path : Bytes) : Bool := (h.fs.resolve h.cwd path).isSome

/-- The first of some names that is not taken. -/
def firstFree (h : Host) (names : List Bytes) : Option Bytes := names.find? fun c => !h.there c

theorem firstFree_eq_none_iff {h : Host} {names : List Bytes} :
    firstFree h names = none ↔ ∀ c ∈ names, h.there c = true := by
  unfold firstFree
  rw [List.find?_eq_none]
  simp

section Search

variable {h : Host} {f : Bytes}

theorem firstFree_taken {c : Bytes} (hc : h.there c = true) (names : List Bytes) :
    firstFree h (c :: names) = firstFree h names :=
  List.find?_cons_of_neg (by simp [hc])

theorem firstFree_free {c : Bytes} (hc : h.there c = false) (names : List Bytes) :
    firstFree h (c :: names) = some c :=
  List.find?_cons_of_pos (by simp [hc])

theorem fileExists_yields {path : Bytes} (hne : path ≠ []) :
    (fileExists path).Yields respond (fun s => s.2 = h) (· = h.there path) := by
  unfold fileExists
  rw [if_neg hne]
  refine yields_ask ?_
  rintro ⟨l, h'⟩ rfl
  rw [respond_of_failed_none rfl]
  unfold Host.there
  show (execute (.access path) (l, h')).2.2 = h' ∧ (execute (.access path) (l, h')).1 = _
  unfold execute
  dsimp only
  cases (h'.fs.resolve h'.cwd path).isSome with
  | true => exact ⟨rfl, rfl⟩
  | false => exact ⟨rfl, rfl⟩

/-- **Run lemma.**  The loop over the candidates finds the first one that is not taken.  The
    induction is on how many are left. -/
theorem freeName_yields {size : Nat} (hsize : f.length + 9 < size) {start left : Nat}
    (hstart : start + left = 1000000) (hpos : 0 < start) {tmp : Bytes} (hne : tmp ≠ []) :
    (freeName size f left tmp).Yields respond (fun s => s.2 = h)
      (· = firstFree h (tmp :: (List.range' start left).map (candidate · f))) := by
  induction left generalizing start tmp with
  | zero =>
    refine (fileExists_yields hne).bind ?_
    rintro _ rfl
    cases ht : h.there tmp with
    | true => exact yields_ret (firstFree_taken ht []).symm
    | false => exact yields_ret (firstFree_free ht []).symm
  | succ left ih =>
    refine (fileExists_yields hne).bind ?_
    rintro _ rfl
    cases ht : h.there tmp with
    | false => exact yields_ret (firstFree_free ht _).symm
    | true =>
      -- the name is taken: on to the next candidate, which fits the buffer
      have hnumber : 1000000 - (left + 1) = start := by omega
      have hfits := length_candidate (f := f) (by omega : start < 1000000)
      rw [if_pos rfl, hnumber, snprintfCheck_of_lt (by omega), List.range'_succ, List.map_cons,
        firstFree_taken ht]
      exact ih (by omega) (by omega) (List.cons_ne_nil _ _)

theorem destinations_eq (env : Env) (f : Bytes) : destinations env f =
    firstCandidate env f :: (List.range' 1 999999).map (candidate · f) := by
  have hfirst : (if f = configFile ∧ env.configuration.workingDir = none
      then hereDir ++ ascii "1_" ++ f else hereDir ++ f) = firstCandidate env f := by
    unfold firstCandidate
    by_cases hf : f = configFile
    · cases hw : env.configuration.workingDir <;> simp [hf]
    · simp [hf]
  have hnext : (fun n => hereDir ++ decimal n ++ ascii "_" ++ f) = (candidate · f) :=
    funext fun n => by simp [candidate, ascii]
  unfold destinations
  rw [hfirst, hnext]

theorem firstCandidate_ne_nil (env : Env) (f : Bytes) : firstCandidate env f ≠ [] := by
  unfold firstCandidate
  split <;> exact List.cons_ne_nil _ _

/-- The names fit the buffers of both functions. -/
theorem length_destination {env : Env} {c : Bytes} (hc : c ∈ destinations env f) :
    c.length ≤ f.length + 9 := by
  rw [destinations_eq] at hc
  rcases List.mem_cons.mp hc with rfl | hc
  · exact length_firstCandidate env f
  · obtain ⟨n, hn, rfl⟩ := List.mem_map.mp hc
    rw [List.mem_range'_1] at hn
    exact length_candidate (by omega)

/-- `_rename_if_exists` finds the first name that is free. -/
theorem renameIfExists_yields (env : Env) {maxLen : Nat} (hmax : f.length + 16 ≤ maxLen) :
    (renameIfExists env f maxLen).Yields respond (fun s => s.2 = h)
      (· = firstFree h (destinations env f)) := by
  have hfits := length_firstCandidate env f
  unfold renameIfExists
  rw [snprintfCheck_of_lt (by omega), destinations_eq]
  exact freeName_yields (by omega) rfl Nat.one_pos (firstCandidate_ne_nil env f)

/-- What `_check_and_rename` does once it has chosen a name. -/
def moveTo (env : Env) (old : Bytes) : Option Bytes → Proc (Option Bytes)
  | none => return none
  | some new => do
      if !(← renameFile old new) then return none else return some (env.cwd ++ sep :: new.drop 2)

/-- `_check_and_rename` finds the first name that is free, and moves the entry there. -/
theorem checkAndRename_run (env : Env) {dirname : Bytes} (hdir : dirname.length ≤ 16)
    (hlen : f.length ≤ maxFileNameLen) (l : Session) :
    ∃ l', (checkAndRename env f dirname).run respond (l, h) = (moveTo env (dirname ++ sep :: f)
      (firstFree h (destinations env f))).run respond (l', h) := by
  have hfits := length_firstCandidate env f
  have hold : (dirname ++ sep :: f).length < f.length + 20 := by
    rw [List.length_append, List.length_cons]
    omega
  obtain ⟨r, ⟨l', h'⟩, hrun, hh, rfl⟩ := freeName_yields (h := h)
    (by omega : f.length + 9 < f.length + 20) (rfl : 1 + 999999 = 1000000) Nat.one_pos
    (firstCandidate_ne_nil env f) (l, h) rfl
  have hh : h' = h := hh
  subst hh
  rw [← destinations_eq] at hrun
  refine ⟨l', ?_⟩
  unfold checkAndRename
  rw [if_neg (not_lt.mpr hlen)]
  dsimp only
  rw [snprintfCheck_of_lt hold]
  dsimp only
  rw [snprintfCheck_of_lt (by omega)]
  dsimp only
  rw [run_bind_of_some respond hrun]
  cases firstFree h' (destinations env f) with
  | none => rfl
  | some new => rfl

/-- A rename that succeeds is reported with the path of the new name. -/
theorem moveTo_run {env : Env} {old new : Bytes} {s s' : Session × Host}
    (hren : respond (.rename old new) s = (true, s')) :
    (moveTo env old (some new)).run respond s
      = (some (some (env.cwd ++ sep :: new.drop 2)), s') := by
  have hask : (renameFile old new).run respond s = (some true, s') := by
    unfold renameFile
    rw [run_ask, hren]
    rfl
  exact run_bind_of_some respond hask

/-- **First fit.**  Version 1 and the later versions choose the same name for a file, the first one
    that is free, and none of the names is cut. -/
theorem freshName_firstFit (env : Env) (h : Host) {f : Bytes} (hlen : f.length ≤ 2032) :
    (∀ l maxLen, f.length + 16 ≤ maxLen → ∃ l', (renameIfExists env f maxLen).run respond (l, h)
      = (some (firstFree h (destinations env f)), l', h)) ∧
    (∀ l dirname, dirname.length ≤ 16 → ∃ l', (checkAndRename env f dirname).run respond (l, h)
      = (moveTo env (dirname ++ sep :: f) (firstFree h (destinations env f))).run respond (l', h)) ∧
    (∀ old new s s', respond (.rename old new) s = (true, s') →
      (moveTo env old (some new)).run respond s
        = (some (some (env.cwd ++ sep :: new.drop 2)), s')) ∧
    (firstFree h (destinations env f) = none ↔ ∀ c ∈ destinations env f, h.there c = true) ∧
    ∀ c ∈ destinations env f, ∀ size, f.length + 16 ≤ size → snprintfCheck size c = some c := by
  refine ⟨fun l maxLen hmax => ?_, fun l dirname hdir => ?_, fun old new s s' => moveTo_run,
    firstFree_eq_none_iff, fun c hc size hsize => ?_⟩
  · obtain ⟨r, ⟨l', h'⟩, hrun, hh, rfl⟩ := renameIfExists_yields (h := h) env hmax (l, h) rfl
    have hh : h' = h := hh
    subst hh
    exact ⟨l', hrun⟩
  · exact checkAndRename_run env hdir (by unfold maxFileNameLen; omega) l
  · have hfits := length_destination hc
    exact snprintfCheck_of_lt (by omega)

/-- A file with the name of the configuration file. -/
theorem freshName_firstFit_config : ∃ l', (renameIfExists .default configFile 30).run respond
    (.fresh [] .calm, .empty) = (some (some (ascii "./1_clipshare.conf")), l', .empty) := by
  obtain ⟨l', hrun⟩ := (freshName_firstFit .default .empty (f := configFile) (by decide)).1
    (.fresh [] .calm) 30 (by decide)
  have hfirst : firstFree .empty (destinations .default configFile)
      = some (hereDir ++ ascii "1_" ++ configFile) := by
    rw [destinations_eq, firstFree_free (by decide)]
    decide
  rw [hfirst] at hrun
  exact ⟨l', hrun⟩

end Search

end ClipShare
