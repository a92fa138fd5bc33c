import ClipShare.Interaction.Contract
import ClipShare.Server.Headless

namespace ClipShare

open Interaction Posix

/-!
# The clipboard without a desktop is a store

Operations on the clipboard that come one after the other, each in a session of its own, in which
any call may fail and which may be stopped at any point, on a disk with room for what they write.

* `Headless.Held`, `Held.Step`, `Held.Runs` — the store: what an operation may answer and leave;
* `Headless.Shows` — what the two files hold;
* `at_openWrite`, `at_fwrite` and the like — what the calls do to them;
* `headless_refines` — every run is one of the store;
* `put_torn` — two texts that are put at the same time may get mixed up.
-/

namespace Headless

/-! ### The store -/

/-- What the clipboard holds; the text counts if the type says so. -/
structure Held where
  type : CopiedType
  text : Bytes

/-- The text that can be got, of a given length at most. -/
def Held.get (s : Held) (max : Nat) : Option Bytes :=
  if s.type = .text ∧ 0 < s.text.length ∧ s.text.length ≤ max ∧ s.text.head? ≠ some 0 then
    some (cstr s.text)
  else none

/-- The operation stores something. -/
def Operation.stores : Operation → Bool
  | .putText _ | .cutFiles => true
  | .getText | .getType => false

/-- **The store.**  What an operation may answer and leave.  An operation that is `steady` does what
    it should; otherwise it may fail, or be stopped without an answer, and then it leaves what was
    there, or nothing. -/
inductive Held.Step (max : Nat) (steady : Prop) (s : Held) :
    Operation → Option Outcome → Held → Prop
  | put (data : Bytes) : Step max steady s (.putText data) (some (.status .success)) ⟨.text, data⟩
  | cut {s' : Held} (h : s'.type = .file) :
      Step max steady s .cutFiles (some (.status .success)) s'
  | got : Step max steady s .getText (some (.text (s.get max))) s
  | typed : Step max steady s .getType (some (.type s.type)) s
  | failed {op : Operation} {s' : Held} (hn : ¬ steady) (hop : op.stores = true)
      (h : s' = s ∨ s'.type = .none) : Step max steady s op (some (.status .failure)) s'
  | missed (hn : ¬ steady) : Step max steady s .getText (some (.text none)) s
  | unknown (hn : ¬ steady) : Step max steady s .getType (some (.type .none)) s
  | stopped {op : Operation} {s' : Held} (h : s' = s ∨ op.stores = true ∧ s'.type = .none) :
      Step max steady s op none s'

/-- Operations one after the other. -/
inductive Held.Runs (max : Nat) : Held → List Turn → List (Option Outcome) → Held → Prop
  | nil (s : Held) : Runs max s [] [] s
  | cons {s s' s'' : Held} {turn : Turn} {turns : List Turn} {out : Option Outcome}
      {outs : List (Option Outcome)} (h : s.Step max turn.session.Sturdy turn.operation out s')
      (hs : Runs max s' turns outs s'') : Runs max s (turn :: turns) (out :: outs) s''

/-! ### The files -/

/-- The directory of the clipboard. -/
def dataDir : Path := [ascii "tmp", ascii "clipshare-data"]

/-- The name of a file of the clipboard and its path string. -/
structure Placed (file : Bytes) (n : Name) : Prop where
  absolute : file.head? = some sep
  components : components file = [] :: dataDir ++ [n]
  proper : n ≠ [] ∧ n ≠ dot ∧ n ≠ dotdot
  ends : file.getLast? ≠ some sep

theorem placed_type : Placed typeFile (ascii "type") := ⟨rfl, by decide, by decide, by decide⟩

theorem placed_text : Placed textFile (ascii "text") := ⟨rfl, by decide, by decide, by decide⟩

/-- A file, by its inode number and its contents. -/
abbrev File := Nat × Bytes

def File.node (f : File) : Node := .file f.1 f.2

/-- The files of two names of the directory, if they are there; they are two files. -/
structure Two (fs : FileSystem) (n m : Name) (a b : Option File) : Prop where
  dir : fs.node dataDir = some .dir
  first : fs.node (dataDir ++ [n]) = a.map File.node
  second : fs.node (dataDir ++ [m]) = b.map File.node
  apart : ∀ f ∈ a, ∀ g ∈ b, f.1 ≠ g.1

variable {fs fs' : FileSystem} {n m : Name} {a b : Option File} {file : Bytes} {cwd : Path}

theorem Two.symm (h : Two fs n m a b) : Two fs m n b a :=
  ⟨h.dir, h.second, h.first, fun f hf g hg => (h.apart g hg f hf).symm⟩

theorem Placed.plain (hp : Placed file n) : plain (Posix.components file) = dataDir ++ [n] := by
  have hn : stays n = false := stays_eq_false.mpr ⟨hp.proper.1, hp.proper.2.1⟩
  rw [hp.components, plain_append, plain_cons, plain_cons, hn]
  rfl

theorem Placed.dotdot (hp : Placed file n) : dotdot ∉ Posix.components file := by
  rw [hp.components]
  have hdir : Posix.dotdot ∉ [] :: dataDir := by decide
  rw [List.mem_append, List.mem_singleton, not_or]
  exact ⟨hdir, fun h => hp.proper.2.2 h.symm⟩

/-- The file that a path string names. -/
theorem Placed.resolve (hp : Placed file n) :
    fs.resolve cwd file =
      if (fs.node (dataDir ++ [n])).isSome then some (dataDir ++ [n]) else none := by
  have hne : file ≠ [] := by
    rintro rfl
    exact absurd hp.absolute nofun
  have hends : endsInDir (Posix.components file) = false := by
    unfold endsInDir
    rw [hp.components, List.getLast?_concat]
    exact stays_eq_false.mpr ⟨hp.proper.1, hp.proper.2.1⟩
  rw [FileSystem.resolve, if_neg hne, FileSystem.start, if_pos hp.absolute,
    FileSystem.walk_eq hp.dotdot, hp.plain, hends, List.nil_append]
  simp

theorem Placed.resolveNew (hp : Placed file n) (hdir : fs.node dataDir = some .dir) :
    fs.resolveNew cwd file = some (dataDir, n) := by
  have hdrop : (Posix.components file).rdropWhile (· == []) = [] :: dataDir ++ [n] := by
    rw [hp.components, List.rdropWhile_concat_neg]
    simpa using hp.proper.1
  have hwalk : fs.walk [] ([] :: dataDir) = some dataDir := by
    rw [FileSystem.walk_eq (by decide)]
    simp only [List.nil_append]
    rw [show Posix.plain ([] :: dataDir) = dataDir from by decide, hdir]
    rfl
  unfold FileSystem.resolveNew
  rw [hdrop]
  simp only [List.getLast?_concat, List.dropLast_concat, hp.proper.2.1, hp.proper.2.2, or_self,
    if_false, FileSystem.start, hp.absolute, if_true, hwalk, hdir]

/-- Other contents for the inode of the first file. -/
theorem Two.modify {i : Nat} {d : Bytes} (h : Two fs n m (some (i, d)) b) (f : Bytes → Bytes) :
    Two (fs.modify i f) n m (some (i, f d)) b where
  dir := by
    unfold FileSystem.modify
    simp only [h.dir]
  first := by
    unfold FileSystem.modify
    simp only [h.first]
    exact congrArg (fun e => some (Node.file i e)) (if_pos rfl)
  second := by
    unfold FileSystem.modify
    simp only [h.second]
    cases b with
    | none => rfl
    | some g =>
      have hg : i ≠ g.1 := h.apart (i, d) rfl g rfl
      exact congrArg (fun e => some (Node.file g.1 e)) (if_neg hg.symm)
  apart := by
    rintro _ ⟨⟩ g hg
    exact h.apart (i, d) rfl g hg

/-- Opening the first file for writing: it is there, and empty. -/
theorem Two.create (h : Two fs n m a b) (hne : n ≠ m) :
    ∃ i fs', fs.createAt dataDir n = some (i, fs') ∧ Two fs' n m (some (i, [])) b := by
  cases a with
  | none =>
    obtain ⟨fs', hcreate, hnode, -⟩ := FileSystem.createAt_new h.dir h.first
    refine ⟨_, fs', hcreate, ?_, ?_, ?_, ?_⟩
    · rw [hnode, if_neg (by simp), h.dir]
    · rw [hnode, if_pos rfl]
      rfl
    · rw [hnode, if_neg (by simpa using hne.symm), h.second]
    · rintro _ ⟨⟩ g rfl
      exact (fs.fresh _ g.1 g.2 h.second).ne'
  | some f =>
    have hfirst : fs.node (dataDir ++ [n]) = some (.file f.1 f.2) := h.first
    exact ⟨f.1, _, FileSystem.createAt_file hfirst, h.modify fun _ => []⟩

/-! ### The calls -/

/-- A session that has answers from the surroundings of `l₀`, and a host with the two files. -/
structure At (l₀ : Session) (s : Session × Host) (n m : Name) (a b : Option File) : Prop where
  oracle : s.1.oracle = l₀.oracle
  two : Two s.2.fs n m a b

variable {l₀ l : Session} {h : Host}

theorem At.symm {s : Session × Host} (hs : At l₀ s n m a b) : At l₀ s m n b a :=
  ⟨hs.oracle, hs.two.symm⟩

/-- A call fails only if the surroundings of the session do. -/
theorem At.fault (hs : At l₀ (l, h) n m a b) (hl : l.fault = true) : ¬ l₀.Sturdy := by
  intro hsturdy
  have hor : l.oracle = l₀.oracle := hs.oracle
  rw [Session.fault, hor, hsturdy] at hl
  cases hl

/-- `fopen` for writing fails, or the file is there and empty. -/
theorem at_openWrite (hs : At l₀ (l, h) n m a b) (hne : n ≠ m) (hp : Placed file n) :
    (∃ s', respond (.openWrite file) (l, h) = (none, s') ∧ ¬ l₀.Sturdy ∧ At l₀ s' n m a b) ∨
    ∃ i s', respond (.openWrite file) (l, h) = (some i, s') ∧ At l₀ s' n m (some (i, [])) b := by
  cases hl : l.fault with
  | true =>
    exact .inl ⟨_, respond_of_fault hl rfl h, hs.fault hl, hs.oracle, hs.two⟩
  | false =>
    obtain ⟨i, fs', hcreate, htwo⟩ := hs.two.create hne
    have hof : openWriteOf h file = some (dataDir ++ [n], i, fs') := by
      have hcreate' : h.fs.createAt dataDir n = some (i, fs') := hcreate
      simp [openWriteOf, hp.ends, hp.resolveNew hs.two.dir, hcreate']
    exact .inr ⟨i, _, respond_openWrite hl hof, hs.oracle, htwo⟩

theorem patch_nil (data : Bytes) : FileSystem.patch 0 data [] = data := by
  simp [FileSystem.patch]

/-- `fwrite` into the file that was opened, on a disk with room: all of the data gets there. -/
theorem at_fwrite (hroom : l₀.oracle.Roomy) {i : Nat} (hs : At l₀ (l, h) n m (some (i, [])) b)
    (data : Bytes) : ∃ s', respond (.fwrite i 0 data) (l, h) = (data.length, s') ∧
      At l₀ s' n m (some (i, data)) b := by
  have hor : l.oracle = l₀.oracle := hs.oracle
  have hwritten : l.written data = data.length := by rw [Session.written, hor, hroom]
  have hwrite := hs.two.modify (FileSystem.patch 0 data)
  rw [patch_nil] at hwrite
  have hresp : respond (.fwrite i 0 data) (l, h) =
      (data.length, l.tick, h.withFs (h.fs.writeAt i 0 data)) := by
    rw [respond_of_failed_none rfl]
    simp only [execute, hwritten, List.take_length]
  exact ⟨_, hresp, hs.oracle, hwrite⟩

/-- `fopen` for reading. -/
theorem at_openRead (hs : At l₀ (l, h) n m a b) (hp : Placed file n) :
    ∃ r s', respond (.openRead file) (l, h) = (r, s') ∧ At l₀ s' n m a b ∧ s'.2 = h ∧
      (r = none ∧ ¬ l₀.Sturdy ∨ r = a.map fun f => .regular f.1) := by
  cases hl : l.fault with
  | true =>
    exact ⟨none, _, respond_of_fault hl rfl h, ⟨hs.oracle, hs.two⟩, rfl, .inl ⟨rfl, hs.fault hl⟩⟩
  | false =>
    refine ⟨_, _, respond_of_fault_none hl _ h, ⟨hs.oracle, hs.two⟩, rfl, .inr ?_⟩
    have hfirst : h.fs.node (dataDir ++ [n]) = a.map File.node := hs.two.first
    show openReadOf h file = _
    unfold openReadOf
    rw [hp.resolve, hfirst]
    cases a with
    | none => rfl
    | some f =>
      rw [Option.map_some, Option.isSome_some, if_pos rfl]
      simp only [Option.bind_eq_bind, Option.bind_some, hfirst]
      rfl

/-- Reading the file. -/
theorem at_fread {f : File} (hs : At l₀ (l, h) n m (some f) b) (len : Nat) :
    ∃ r s', respond (.fread (.regular f.1) 0 len) (l, h) = (r, s') ∧ At l₀ s' n m (some f) b ∧
      s'.2 = h ∧ (r = [] ∧ ¬ l₀.Sturdy ∨ r = f.2.take len) := by
  cases hl : l.fault with
  | true =>
    exact ⟨[], _, respond_of_fault hl rfl h, ⟨hs.oracle, hs.two⟩, rfl, .inl ⟨rfl, hs.fault hl⟩⟩
  | false =>
    refine ⟨_, _, respond_of_fault_none hl _ h, ⟨hs.oracle, hs.two⟩, rfl, .inr ?_⟩
    show ((h.fs.dataOf f.1).getD []).take len = _
    rw [FileSystem.dataOf_eq h.fs hs.two.first]
    rfl

/-- The size of the file. -/
theorem at_fileSize {f : File} (hs : At l₀ (l, h) n m (some f) b) :
    ∃ (r : Int) (s' : _), respond (.fileSize (.regular f.1)) (l, h) = (r, s') ∧
      At l₀ s' n m (some f) b ∧ s'.2 = h ∧ (r = -1 ∧ ¬ l₀.Sturdy ∨ r = f.2.length) := by
  cases hl : l.fault with
  | true =>
    exact ⟨-1, _, respond_of_fault hl rfl h, ⟨hs.oracle, hs.two⟩, rfl, .inl ⟨rfl, hs.fault hl⟩⟩
  | false =>
    refine ⟨_, _, respond_of_fault_none hl _ h, ⟨hs.oracle, hs.two⟩, rfl, .inr ?_⟩
    show fileSizeOf h (.regular f.1) = _
    unfold fileSizeOf
    dsimp only
    rw [FileSystem.dataOf_eq h.fs hs.two.first]

/-! ### The operations -/

/-- The type that a file stands for. -/
def typeOf (content : Bytes) : CopiedType := (scanLine content).elim .none typeOfLine

/-- What the files stand for: the type and the text. -/
def held (a b : Option File) : Held where
  type := (a.map Prod.snd).elim .none typeOf
  text := (b.map Prod.snd).getD []

/-- The names of the files. -/
abbrev AtFiles (l₀ : Session) (s : Session × Host) (a b : Option File) : Prop :=
  At l₀ s (ascii "type") (ascii "text") a b

/-- What holds while an operation stores something: the clipboard is as before, or empty. -/
def Storing (l₀ : Session) (a b : Option File) (s : Session × Host) : Prop :=
  ∃ a' b', AtFiles l₀ s a' b' ∧ (held a' b' = held a b ∨ (held a' b').type = .none)

/-- How an operation that stores something ends: what it stored is there, or a call has failed. -/
def Stored (l₀ : Session) (a b : Option File) (P : Held → Prop) (out : Status)
    (s : Session × Host) : Prop :=
  out = .success ∧ (∃ a' b', AtFiles l₀ s a' b' ∧ P (held a' b')) ∨
    out = .failure ∧ ¬ l₀.Sturdy ∧ Storing l₀ a b s

variable {env : Env}

theorem storing_refl {s : Session × Host} (hs : AtFiles l₀ s a b) : Storing l₀ a b s :=
  ⟨a, b, hs, .inl rfl⟩

/-- The end of an operation: the type is written. -/
theorem during_writeType (hroom : l₀.oracle.Roomy) {i : Nat} {b' : Option File}
    {P : Held → Prop} {type : Bytes} (hlen : type.length = 4)
    (hs : AtFiles l₀ (l, h) (some (i, [])) b') (hP : P (held (some (i, type)) b')) :
    (fwrite i 0 type >>= fun written =>
      if written ≠ 4 then (.ret .failure : Proc Status) else .ret .success).During respond
        (Storing l₀ a b) (Stored l₀ a b P) (l, h) := by
  have hI : Storing l₀ a b (l, h) := ⟨_, _, hs, .inr rfl⟩
  obtain ⟨s', hr, hs'⟩ := at_fwrite hroom hs type
  refine Prog.during_call hI hr ?_
  show Prog.During _ _ _
    (if type.length ≠ 4 then (.ret .failure : Proc Status) else .ret .success) _
  rw [if_neg (not_not_intro hlen)]
  exact .inl ⟨rfl, _, _, hs', hP⟩

/-- **Putting a text.** -/
theorem putClipboardText_during (hroom : l₀.oracle.Roomy) (hs : AtFiles l₀ (l, h) a b)
    (data : Bytes) : (putClipboardText data).During respond (Storing l₀ a b)
      (Stored l₀ a b (· = ⟨.text, data⟩)) (l, h) := by
  rcases at_openWrite hs (by decide) placed_type with ⟨s', hr, hn, hs'⟩ | ⟨i, s', hr, hs'⟩
  · exact Prog.during_call (storing_refl hs) hr (.inr ⟨rfl, hn, storing_refl hs'⟩)
  refine Prog.during_call (storing_refl hs) hr ?_
  obtain ⟨l', h'⟩ := s'
  have hI : Storing l₀ a b (l', h') := ⟨_, _, hs', .inr rfl⟩
  rcases at_openWrite hs'.symm (by decide) placed_text with ⟨s', hr, hn, hs'⟩ | ⟨j, s', hr, hs'⟩
  · exact Prog.during_call hI hr (.inr ⟨rfl, hn, _, _, hs'.symm, .inr rfl⟩)
  refine Prog.during_call hI hr ?_
  obtain ⟨l', h'⟩ := s'
  have hI : Storing l₀ a b (l', h') := ⟨_, _, hs'.symm, .inr rfl⟩
  obtain ⟨s', hr, hs'⟩ := at_fwrite hroom hs' data
  refine Prog.during_call hI hr ?_
  show Prog.During _ _ _ (if data.length ≠ data.length then _ else _) _
  rw [if_neg (not_not_intro rfl)]
  exact during_writeType hroom rfl hs'.symm rfl

/-- **Cutting files.** -/
theorem setClipboardCutFiles_during (hroom : l₀.oracle.Roomy) (hs : AtFiles l₀ (l, h) a b) :
    setClipboardCutFiles.During respond (Storing l₀ a b)
      (Stored l₀ a b (·.type = .file)) (l, h) := by
  rcases at_openWrite hs (by decide) placed_type with ⟨s', hr, hn, hs'⟩ | ⟨i, s', hr, hs'⟩
  · exact Prog.during_call (storing_refl hs) hr (.inr ⟨rfl, hn, storing_refl hs'⟩)
  · exact Prog.during_call (storing_refl hs) hr (during_writeType hroom rfl hs' rfl)

/-- How an operation that reads ends: with what it should read, or a call has failed. -/
def Got {α : Type} (l₀ : Session) (a b : Option File) (value failed out : α)
    (s : Session × Host) : Prop :=
  AtFiles l₀ s a b ∧ (out = value ∨ out = failed ∧ ¬ l₀.Sturdy)

/-- The first bytes are enough to read the type. -/
theorem scanLine_take (content : Bytes) : scanLine (content.take 8) = scanLine content := by
  unfold scanLine
  rw [← List.take_takeWhile, List.take_take]
  rfl

/-- **The type.** -/
theorem getCopiedType_during (hs : AtFiles l₀ (l, h) a b) :
    getCopiedType.During respond (AtFiles l₀ · a b)
      (Got l₀ a b (held a b).type .none) (l, h) := by
  obtain ⟨r, s', hr, hs', -, hcases⟩ := at_openRead hs placed_type
  refine Prog.during_call hs hr ?_
  rcases hcases with ⟨rfl, hn⟩ | rfl
  · exact ⟨hs', .inr ⟨rfl, hn⟩⟩
  cases a with
  | none => exact ⟨hs', .inl rfl⟩
  | some f =>
    obtain ⟨l', h'⟩ := s'
    obtain ⟨r, s', hr, hs'', -, hcases⟩ := at_fread hs' 8
    refine Prog.during_call hs' hr ?_
    rcases hcases with ⟨rfl, hn⟩ | rfl
    · exact ⟨hs'', .inr ⟨rfl, hn⟩⟩
    · simp only [Prog.bind, id, scanLine_take]
      have htype : (held (some f) b).type = typeOf f.2 := rfl
      rw [htype, typeOf]
      cases scanLine f.2 with
      | none => exact ⟨hs'', .inl rfl⟩
      | some line => exact ⟨hs'', .inl rfl⟩

/-- The check on the text that was read. -/
theorem during_text {s : Session × Host} {g : File} {buf : Bytes}
    (hs : AtFiles l₀ s a (some g)) (htext : (held a (some g)).type = .text)
    (hsz : ¬ ((g.2.length : Int) ≤ 0 ∨ (g.2.length : Int) > env.configuration.maxTextLength.toNat))
    (hbuf : buf = [] ∧ ¬ l₀.Sturdy ∨ buf = g.2) :
    (if buf.length ≠ g.2.length ∨ buf.head? = some 0 then (.ret none : Proc (Option Bytes))
      else .ret (some (cstr buf))).During respond (AtFiles l₀ · a (some g))
      (Got l₀ a (some g)
        ((held a (some g)).get env.configuration.maxTextLength.toNat) none) s := by
  rcases hbuf with ⟨rfl, hn⟩ | rfl
  · have hne : ([] : Bytes).length ≠ g.2.length := by
      rw [List.length_nil]
      omega
    rw [if_pos (.inl hne)]
    exact ⟨hs, .inr ⟨rfl, hn⟩⟩
  · by_cases h0 : g.2.head? = some 0
    · rw [if_pos (.inr h0)]
      exact ⟨hs, .inl (if_neg fun h => h.2.2.2 h0).symm⟩
    · rw [if_neg (not_or.mpr ⟨not_not_intro rfl, h0⟩)]
      refine ⟨hs, .inl (if_pos ⟨htext, ?_, ?_, h0⟩).symm⟩
      · show 0 < g.2.length
        omega
      · show g.2.length ≤ _
        omega

/-- **The text.** -/
theorem getClipboardText_during (hs : AtFiles l₀ (l, h) a b) :
    (getClipboardText env).During respond (AtFiles l₀ · a b)
      (Got l₀ a b ((held a b).get env.configuration.maxTextLength.toNat) none) (l, h) := by
  unfold getClipboardText
  refine (getCopiedType_during hs).bind fun type s ⟨hs, htype⟩ => ?_
  by_cases ht : type = .text
  · rw [if_neg (not_not_intro ht)]
    have htext : (held a b).type = .text := by
      rcases htype with rfl | ⟨rfl, -⟩
      · exact ht
      · cases ht
    obtain ⟨l', h'⟩ := s
    obtain ⟨r, s', hr, hs', -, hcases⟩ := at_openRead hs.symm placed_text
    refine Prog.during_call hs hr ?_
    rcases hcases with ⟨rfl, hn⟩ | rfl
    · exact ⟨hs'.symm, .inr ⟨rfl, hn⟩⟩
    cases b with
    | none => exact ⟨hs'.symm, .inl (if_neg fun h => absurd h.2.1 (lt_irrefl 0)).symm⟩
    | some g =>
      obtain ⟨l', h'⟩ := s'
      obtain ⟨sz, s', hr, hs'', -, hcases⟩ := at_fileSize hs'
      refine Prog.during_call hs'.symm hr ?_
      simp only [Prog.bind, id]
      by_cases hsz : sz ≤ 0 ∨ sz > env.configuration.maxTextLength.toNat
      · rw [if_pos hsz]
        refine ⟨hs''.symm, ?_⟩
        rcases hcases with ⟨-, hn⟩ | rfl
        · exact .inr ⟨rfl, hn⟩
        · refine .inl (if_neg ?_).symm
          rintro ⟨-, hpos, hle, -⟩
          have hpos' : 0 < g.2.length := hpos
          have hle' : g.2.length ≤ env.configuration.maxTextLength.toNat := hle
          omega
      · rw [if_neg hsz]
        rcases hcases with ⟨rfl, -⟩ | rfl
        · exact absurd (.inl (by decide)) hsz
        · obtain ⟨l', h'⟩ := s'
          obtain ⟨buf, s', hr, hs3, -, hcases⟩ := at_fread hs'' (g.2.length : Int).toNat
          refine Prog.during_call hs''.symm hr ?_
          simp only [Prog.bind, id]
          rw [Int.toNat_natCast] at hcases ⊢
          refine during_text hs3.symm htext hsz ?_
          rwa [List.take_length] at hcases
  · rw [if_pos ht]
    refine ⟨hs, ?_⟩
    rcases htype with rfl | ⟨-, hn⟩
    · exact .inl (if_neg fun h => ht h.1).symm
    · exact .inr ⟨rfl, hn⟩

/-! ### Runs -/

/-- What one turn does to the files is a step of the store. -/
def Turns (env : Env) (turn : Turn) (a b : Option File) (out : Option Outcome)
    (s : Session × Host) : Prop :=
  ∃ a' b', Two s.2.fs (ascii "type") (ascii "text") a' b' ∧
    (held a b).Step env.configuration.maxTextLength.toNat turn.session.Sturdy turn.operation out
      (held a' b')

/-- A turn whose operation is a program with a value, wrapped. -/
theorem Turns.of_during {α : Type} {turn : Turn} {p : Proc α} {f : α → Outcome}
    {I : Session × Host → Prop} {Q : α → Session × Host → Prop}
    (hperform : perform env turn.operation = p >>= fun r => .ret (f r))
    (hp : p.During respond I Q (turn.session, h))
    (hI : ∀ s, I s → Turns env turn a b none s)
    (hQ : ∀ r s, Q r s → Turns env turn a b (some (f r)) s) :
    Turns env turn a b
      (((perform env turn.operation).upTo turn.calls).run respond (turn.session, h)).1
      (((perform env turn.operation).upTo turn.calls).run respond (turn.session, h)).2 := by
  have hwrap : (perform env turn.operation).During respond I
      (fun out s => Turns env turn a b (some out) s) (turn.session, h) := by
    rw [hperform]
    exact hp.bind fun r s hr => hQ r s hr
  rcases hwrap.stopped turn.calls with ⟨out, hout, hq⟩ | ⟨hnone, hi⟩
  · rw [hout]
    exact hq
  · rw [hnone]
    exact hI _ hi

/-- A turn that stores something. -/
theorem turns_storing {turn : Turn} {s : Session × Host}
    (hop : turn.operation.stores = true) (hs : Storing turn.session a b s) :
    Turns env turn a b none s := by
  obtain ⟨a', b', hs', hheld⟩ := hs
  exact ⟨a', b', hs'.two, .stopped (hheld.imp_right fun h => ⟨hop, h⟩)⟩

theorem turns_stored {turn : Turn} {P : Held → Prop} {status : Status} {s : Session × Host}
    (hop : turn.operation.stores = true)
    (hstep : ∀ s', P s' → (held a b).Step env.configuration.maxTextLength.toNat
      turn.session.Sturdy turn.operation (some (.status .success)) s')
    (hs : Stored turn.session a b P status s) : Turns env turn a b (some (.status status)) s := by
  rcases hs with ⟨rfl, a', b', hs', hP⟩ | ⟨rfl, hn, a', b', hs', hheld⟩
  · exact ⟨a', b', hs'.two, hstep _ hP⟩
  · exact ⟨a', b', hs'.two, .failed hn hop hheld⟩

/-- **Step lemma.** -/
theorem perform_turns (turn : Turn) (hroom : turn.session.oracle.Roomy)
    (htwo : Two h.fs (ascii "type") (ascii "text") a b) :
    Turns env turn a b
      (((perform env turn.operation).upTo turn.calls).run respond (turn.session, h)).1
      (((perform env turn.operation).upTo turn.calls).run respond (turn.session, h)).2 := by
  have hs : AtFiles turn.session (turn.session, h) a b := ⟨rfl, htwo⟩
  obtain ⟨op, l, calls⟩ := turn
  cases op with
  | putText data =>
    refine Turns.of_during rfl (putClipboardText_during hroom hs data)
      (fun s => turns_storing rfl) (fun status s => turns_stored rfl ?_)
    rintro s' rfl
    exact .put data
  | cutFiles =>
    exact Turns.of_during rfl (setClipboardCutFiles_during hroom hs) (fun s => turns_storing rfl)
      (fun status s => turns_stored rfl fun s' => .cut)
  | getText =>
    refine Turns.of_during rfl (getClipboardText_during hs)
      (fun s hs => ⟨a, b, hs.two, .stopped (.inl rfl)⟩) ?_
    rintro r s ⟨hs, rfl | ⟨rfl, hn⟩⟩
    · exact ⟨a, b, hs.two, .got⟩
    · exact ⟨a, b, hs.two, .missed hn⟩
  | getType =>
    refine Turns.of_during rfl (getCopiedType_during hs)
      (fun s hs => ⟨a, b, hs.two, .stopped (.inl rfl)⟩) ?_
    rintro r s ⟨hs, rfl | ⟨rfl, hn⟩⟩
    · exact ⟨a, b, hs.two, .typed⟩
    · exact ⟨a, b, hs.two, .unknown hn⟩

/-- The two files are in place, or not there yet: the clipboard of a file tree. -/
def Tidy (fs : FileSystem) (s : Held) : Prop :=
  ∃ a b, Two fs (ascii "type") (ascii "text") a b ∧ held a b = s

/-- **The files are a store.**  Whatever is done with the clipboard, one operation after the other,
    also when calls fail or a process is killed in the middle of its operation: as long as the disk
    has room, the answers are those of the store, and a text is never found in part or with another
    one's end. -/
theorem headless_refines (env : Env) (turns : List Turn)
    (hroom : ∀ turn ∈ turns, turn.session.oracle.Roomy) {h : Host} {s : Held}
    (htidy : Tidy h.fs s) :
    ∃ s', Tidy (performAll env turns h).2.fs s' ∧
      s.Runs env.configuration.maxTextLength.toNat turns (performAll env turns h).1 s' := by
  induction turns generalizing h s with
  | nil => exact ⟨s, htidy, .nil s⟩
  | cons turn turns ih =>
    obtain ⟨a, b, htwo, rfl⟩ := htidy
    have hturn : Turns env turn a b _ _ := perform_turns turn (hroom turn List.mem_cons_self) htwo
    obtain ⟨a', b', htwo', hstep⟩ := hturn
    have hrest : ∀ t ∈ turns, t.session.oracle.Roomy := fun t ht =>
      hroom t (List.mem_cons_of_mem turn ht)
    obtain ⟨s', htidy', hruns⟩ := ih hrest ⟨a', b', htwo', rfl⟩
    exact ⟨s', htidy', .cons hstep hruns⟩

/-- An empty clipboard. -/
def emptyClipboard : Host := { Host.empty with fs := .chain dataDir }

theorem emptyClipboard_tidy : Tidy emptyClipboard.fs ⟨.none, []⟩ := by
  refine ⟨none, none, ⟨?_, ?_, ?_, nofun⟩, rfl⟩
  · exact FileSystem.chain_node dataDir
  · decide
  · decide

/-- A text, another one whose session is killed in the middle, and a look. -/
def killedPut : List Turn :=
  [⟨.putText (ascii "hello world"), .fresh [] .calm, 9⟩,
    ⟨.putText (ascii "abc"), .fresh [] .calm, 3⟩, ⟨.getText, .fresh [] .calm, 9⟩]

/-- `headless_refines` for a session that is killed. -/
theorem headless_refines_killed :
    (performAll Env.default killedPut emptyClipboard).1 =
        [some (.status .success), none, some (.text none)] ∧
      ∃ s', Tidy (performAll Env.default killedPut emptyClipboard).2.fs s' ∧
        Held.Runs 4194304 ⟨.none, []⟩ killedPut
          (performAll Env.default killedPut emptyClipboard).1 s' := by
  have hroom : ∀ turn ∈ killedPut, turn.session.oracle.Roomy := by
    intro turn hturn k
    simp only [killedPut, List.mem_cons, List.not_mem_nil, or_false] at hturn
    rcases hturn with rfl | rfl | rfl <;> rfl
  refine ⟨?_, headless_refines Env.default killedPut hroom emptyClipboard_tidy⟩
  decide

/-- Sessions that put texts at the same time. -/
def puts (data other : Bytes) : Pool Calls Bool Status Session Host where
  prog i := putClipboardText (if i then other else data)
  own _ := .fresh [] .calm
  shared := emptyClipboard

/-- One after the other is needed: two texts that are put at the same time leave a text that nobody
    has put. -/
theorem put_torn :
    ((getClipboardText Env.default).run respond (.fresh [] .calm,
      ((puts (ascii "hello world") (ascii "abc")).run respond
        [false, true, false, true, false, true, false, true]).shared)).1 =
        some (some (ascii "abclo world")) := by
  decide

end Headless

end ClipShare
