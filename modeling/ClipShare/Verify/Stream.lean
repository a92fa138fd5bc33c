import ClipShare.Verify.Listing
import ClipShare.Verify.Reply

namespace ClipShare

open Interaction Posix

/-!
# The stream of copied files

The bytes that the methods for fetching files write on a connection that does not fail, and what the
methods for uploading files read from them.

* `Puts` — the program succeeds and writes exactly these bytes;
* `frame` / `frames` — the bytes for an entry, and for the leaves of a tree;
* `transferFiles_puts` — the loop over the files writes the frames;
* `carries_frames` — the frames carry the entries.
-/

variable {env : Env} {h : Host} {fs : FileSystem} {w v : Bytes}

/-! ### Programs that write -/

/-- On a reliable connection, the program succeeds and writes exactly these bytes. -/
def Puts (h : Host) (p : Proc Status) (w : Bytes) : Prop :=
  ∀ l : Session, l.Reliable → ∃ l', p.run respond (l, h) = (some .success, l', h) ∧ l'.Reliable ∧
    l'.output = l.output ++ w

namespace Puts

theorem success : Puts h (.ret .success) [] := fun l hl =>
  ⟨l, rfl, hl, (List.append_nil _).symm⟩

/-- A write, and what follows. -/
theorem write {data : Bytes} {k : Bool → Proc Status} (hk : Puts h (k true) w) :
    Puts h (.call (.writeSock data) k) (data ++ w) := by
  intro l hl
  have hwrite := @Session.writeSock_ok l data hl.opened (hl.write _)
  obtain ⟨l', hrun, hl', hout⟩ :=
    hk { l.tick with output := l.output ++ data }
      ⟨hl.opened, hl.read, hl.write, hl.fs, hl.roomy⟩
  refine ⟨l', ?_, hl', ?_⟩
  · rw [Prog.run_call, respond_writeSock, hwrite]
    exact hrun
  · rw [hout, ← List.append_assoc]

/-- A call whose answer is known, and what follows. -/
theorem call {c : Call} (hc : c.onSocket = false) {k : c.Resp → Proc Status} {r : c.Resp}
    (hr : ∀ l : Session, (execute c (l, h)).1 = r ∧ (execute c (l, h)).2.2 = h)
    (hk : Puts h (k r) w) : Puts h (.call c k) w := by
  intro l hl
  obtain ⟨hans, hhost⟩ := hr l
  obtain ⟨-, hout, hclosed, horacle⟩ := respond_sameSocket hc l h
  have hfault : l.fault = false := hl.fs l.calls
  rw [← respond_of_fault_none hfault] at hans hhost
  obtain ⟨l', hrun, hl', hout'⟩ := hk (respond c (l, h)).2.1 (hl.of_eq hclosed horacle)
  refine ⟨l', ?_, hl', hout'.trans (by rw [hout])⟩
  rw [Prog.run_call, hans]
  have hstate : (respond c (l, h)).2 = ((respond c (l, h)).2.1, h) := Prod.ext rfl hhost
  rw [hstate]
  exact hrun

theorem bind {p : Proc Status} {f : Status → Proc Status} (hp : Puts h p w)
    (hf : Puts h (f .success) v) : Puts h (p >>= f) (w ++ v) := by
  intro l hl
  obtain ⟨l1, hrun1, hl1, hout1⟩ := hp l hl
  obtain ⟨l2, hrun2, hl2, hout2⟩ := hf l1 hl1
  refine ⟨l2, ?_, hl2, ?_⟩
  · rw [Prog.run_bind_of_some respond hrun1]
    exact hrun2
  · rw [hout2, hout1, List.append_assoc]

/-- Data with its length before it, and what follows. -/
theorem sendData {data : Bytes} {f : Status → Proc Status} (hf : Puts h (f .success) w) :
    Puts h (sendData data >>= f) (sizeBytes 8 data.length ++ (data ++ w)) :=
  write (write hf)

end Puts

/-- The content of a file from a position on.  A read that nothing disturbs delivers at least one
    byte, so that the fuel lasts. -/
theorem transferContent_puts {ino : Nat} {data : Bytes} (hdata : h.fs.dataOf ino = some data)
    (fuel : Nat) {off : Nat} (hoff : off ≤ data.length) (hfuel : data.length - off < fuel) :
    Puts h (transferContent (.regular ino) fuel off (data.length - off : Nat)) (data.drop off) := by
  induction fuel generalizing off with
  | zero => exact absurd hfuel (Nat.not_lt_zero _)
  | succ fuel ih =>
    unfold transferContent
    by_cases hend : ((data.length - off : Nat) : Int) ≤ 0
    · rw [if_pos hend, List.drop_eq_nil_of_le (by omega)]
      exact .success
    · rw [if_neg hend]
      obtain ⟨chunk, hchunk⟩ : ∃ chunk, chunk = (data.drop off).take fileBufSz := ⟨_, rfl⟩
      have hlen : chunk.length = min fileBufSz (data.length - off) := by
        rw [hchunk, List.length_take, List.length_drop]
      have hbuf : fileBufSz = 65536 := rfl
      refine .call (r := chunk) rfl (fun l => ⟨?_, rfl⟩) ?_
      · show freadOf h (.regular ino) off fileBufSz = chunk
        rw [hchunk, freadOf, hdata]
        rfl
      show Puts h (if chunk = [] then _ else _) _
      rw [if_neg fun h0 => by rw [h0, List.length_nil] at hlen; omega]
      have hsplit : data.drop off = chunk ++ data.drop (off + chunk.length) := by
        rw [hchunk]
        exact drop_eq_chunk_append data off fileBufSz
      have hcast : ((data.length - (off + chunk.length) : Nat) : Int)
          = ((data.length - off : Nat) : Int) - chunk.length := by omega
      have hrest := @ih (off + chunk.length) (by omega) (by omega)
      rw [hcast] at hrest
      rw [hsplit]
      exact .write hrest

/-! ### Frames -/

/-- The bytes for an entry with a name. -/
def frame (name : Bytes) : Entry → Bytes
  | .dir => sizeBytes 8 name.length ++ (name ++ sizeBytes 8 (-1))
  | .file d => sizeBytes 8 name.length ++ (name ++ (sizeBytes 8 d.length ++ d))
  | .special => []

/-- A file is sent as its frame. -/
theorem transferRegularFile_puts {path : Bytes} (name : Bytes) {ino : Nat} {d : Bytes}
    (hopen : openReadOf h path = some (.regular ino)) (hdata : h.fs.dataOf ino = some d)
    (hmax : (d.length : Int) ≤ env.configuration.maxFileSize) (hfuel : d.length < env.fuel) :
    Puts h (transferRegularFile env path name) (frame name (.file d)) := by
  refine .call (r := some (.regular ino)) rfl (fun l => ⟨hopen, rfl⟩) ?_
  refine .call (r := (d.length : Int)) rfl (fun l => ⟨?_, rfl⟩) ?_
  · show fileSizeOf h (.regular ino) = d.length
    rw [fileSizeOf, hdata]
  show Puts h (if (d.length : Int) < 0 ∨ (d.length : Int) > env.configuration.maxFileSize
    then _ else _) _
  rw [if_neg (by omega)]
  refine .sendData (.write ?_)
  exact transferContent_puts hdata env.fuel (Nat.zero_le _) hfuel

/-- A directory is sent as its frame. -/
theorem transferDirectory_puts (name : Bytes) :
    Puts h (transferDirectory name) (frame name .dir) := by
  refine .sendData ?_
  have hmark : Puts h (do return Status.ofBool (← sendSize (-1))) (sizeBytes 8 (-1) ++ []) :=
    .write .success
  rwa [List.append_nil] at hmark

/-- A leaf that can be sent: its path names it, and a file is not too long. -/
structure Transferable (env : Env) (fs : FileSystem) (q : Path) : Prop where
  ne : q ≠ []
  names : ∀ c ∈ q, Proper c ∧ (0 : UInt8) ∉ c
  short : (absolute q).length ≤ 680
  shown : fs.node q = some .dir ∨ ∃ ino d, fs.node q = some (.file ino d) ∧
    (d.length : Int) ≤ env.configuration.maxFileSize ∧ d.length < env.fuel

/-- The name under which a location is sent. -/
def nameUnder (p q : Path) : Bytes := (absolute q).drop (nameStart p)

/-- **Step lemma.**  A leaf is sent as the frame of its entry. -/
theorem transferSingleFile_puts {version : Nat} (hversion : version ≠ 1) {p q : Path}
    (hq : Transferable env h.fs q) (hstart : nameStart p < (absolute q).length) :
    Puts h (transferSingleFile env version (listedPath h.fs q) (nameStart p))
      (frame (nameUnder p q) (h.fs.entryAt q)) := by
  have hname : ∀ path, transferName version path (nameStart p) = path.drop (nameStart p) :=
    fun path => if_neg hversion
  have hlen : (nameUnder p q).length = (absolute q).length - nameStart p := List.length_drop
  have hshort := hq.short
  have hmax : maxFileNameLen = 2048 := rfl
  unfold transferSingleFile
  rw [hname]
  dsimp only
  rcases hq.shown with hdir | ⟨ino, d, hfile, hsize, hfuel⟩
  · -- a directory is listed with a separator, which is not sent
    have hpath : (listedPath h.fs q).drop (nameStart p) = nameUnder p q ++ [sep] := by
      rw [listedPath, if_pos hdir, List.drop_append_of_le_length hstart.le]
      rfl
    rw [hpath, List.length_append, List.length_singleton, if_neg (by omega), if_pos (by simp),
      List.dropLast_concat, FileSystem.entryAt_eq hdir]
    exact transferDirectory_puts _
  · -- a file is listed as it is, and its name does not end in a separator
    have hno : h.fs.node q ≠ some .dir := by
      rw [hfile]
      intro h0
      cases h0
    have hsome : h.fs.node q ≠ none := by
      rw [hfile]
      exact Option.some_ne_none _
    have hlast : (nameUnder p q).getLast? ≠ some sep := by
      unfold nameUnder
      rw [List.getLast?_drop, if_neg (by omega)]
      exact absolute_getLast hq.ne hq.names
    have hpath : (listedPath h.fs q).drop (nameStart p) = nameUnder p q := by
      rw [listedPath, if_neg hno]
      rfl
    have hres := resolve_absolute hq.ne hq.names hsome h.cwd
    have hopen : openReadOf h (absolute q) = some (.regular ino) := by
      simp [openReadOf, hres, hfile]
    rw [hpath, if_neg (by omega), if_neg hlast, FileSystem.entryAt_eq hfile, listedPath, if_neg hno]
    exact transferRegularFile_puts _ hopen (h.fs.dataOf_eq hfile) hsize hfuel

/-- The frames of leaves under a directory. -/
def frames (fs : FileSystem) (p : Path) (qs : List Path) : Bytes :=
  qs.flatMap fun q => frame (nameUnder p q) (fs.entryAt q)

/-- **Run lemma.**  The loop over the files sends the frames of the leaves. -/
theorem transferFiles_puts {version : Nat} (hversion : version ≠ 1) {p : Path} {qs : List Path}
    (hqs : ∀ q ∈ qs, Transferable env h.fs q ∧ nameStart p < (absolute q).length) :
    Puts h (transferFiles env version (nameStart p) (qs.map (listedPath h.fs)))
      (frames h.fs p qs) := by
  induction qs with
  | nil => exact .success
  | cons q qs ih =>
    obtain ⟨hq, hstart⟩ := hqs q List.mem_cons_self
    exact .bind (transferSingleFile_puts hversion hq hstart)
      (ih fun r hr => hqs r (List.mem_cons_of_mem _ hr))

/-- The reply with all the files. -/
theorem getFilesCommon_puts {version : Nat} (hversion : version ≠ 1) {p : Path} {qs : List Path}
    (hqs : ∀ q ∈ qs, Transferable env h.fs q ∧ nameStart p < (absolute q).length)
    (hne : qs ≠ []) (hcount : qs.length ≤ env.configuration.maxFileCount.toNat) :
    Puts h (getFilesCommon env version (some (qs.map (listedPath h.fs))) (nameStart p))
      ([statusOk] ++ (sizeBytes 8 qs.length ++ frames h.fs p qs)) := by
  have hsend : (some (qs.map (listedPath h.fs))).filter (sendableFiles env)
      = some (qs.map (listedPath h.fs)) := by
    simp [Option.filter, sendableFiles, hcount, hne]
  unfold getFilesCommon
  rw [hsend]
  dsimp only
  rw [List.length_map]
  exact .write (.write (transferFiles_puts hversion hqs))

/-! ### Reading the frames -/

/-- A name that a client may send: a proper name, in UTF-8, and without control bytes. -/
structure Ordinary (c : Name) : Prop where
  proper : Proper c
  utf8 : validUtf8 c = true
  printable : ∀ b ∈ c, 32 ≤ b

theorem Ordinary.zero_not_mem {c : Name} (hc : Ordinary c) : (0 : UInt8) ∉ c := fun h0 =>
  absurd (hc.printable 0 h0) (by decide)

theorem mem_joined {cs : List Name} {b : UInt8} (hb : b ∈ joined cs) :
    b = sep ∨ ∃ c ∈ cs, b ∈ c := by
  induction cs with
  | nil => cases hb
  | cons c cs ih =>
    cases cs with
    | nil =>
      rw [joined_singleton] at hb
      exact .inr ⟨c, List.mem_cons_self, hb⟩
    | cons d ds =>
      rw [joined_cons_cons] at hb
      rcases List.mem_append.mp hb with hb | hb
      · exact .inr ⟨c, List.mem_cons_self, hb⟩
      · rcases List.mem_cons.mp hb with hb | hb
        · exact .inl hb
        · exact (ih hb).imp_right fun ⟨e, he, hbe⟩ => ⟨e, List.mem_cons_of_mem c he, hbe⟩

theorem validUtf8_joined {cs : List Name} (hcs : ∀ c ∈ cs, validUtf8 c = true) :
    validUtf8 (joined cs) = true := by
  induction cs with
  | nil => rfl
  | cons c cs ih =>
    have ih := ih fun d hd => hcs d (List.mem_cons_of_mem c hd)
    cases cs with
    | nil =>
      rw [joined_singleton]
      exact hcs c List.mem_cons_self
    | cons d ds =>
      have hsep : sep < 0x80 := by decide
      rw [joined_cons_cons]
      refine validUtf8_append (hcs c List.mem_cons_self) ?_
      rw [validUtf8_cons_ascii hsep]
      exact ih

/-- A path of ordinary names is accepted as a name, with or without a separator before it. -/
theorem NameFor.valid {cs : List Name} {name : Bytes} (hname : NameFor cs name) (hne : cs ≠ [])
    (hcs : ∀ c ∈ cs, Ordinary c) : isValidFname name = true := by
  have hutf := validUtf8_joined fun c hc => (hcs c hc).utf8
  have hsep : sep < 0x80 := by decide
  have hprint : ∀ b ∈ joined cs, 32 ≤ b := by
    intro b hb
    rcases mem_joined hb with rfl | ⟨c, hc, hbc⟩
    · decide
    · exact (hcs c hc).printable b hbc
  have hjoined : joined cs ≠ [] := by
    obtain ⟨c, ds, rfl⟩ := List.exists_cons_of_ne_nil hne
    have hc := (hcs c List.mem_cons_self).proper.ne
    cases ds with
    | nil => rwa [joined_singleton]
    | cons d ds =>
      rw [joined_cons_cons]
      simp
  have hall : validUtf8 name = true ∧ name ≠ [] ∧ ∀ b ∈ name, 32 ≤ b := by
    rcases hname.eq with rfl | rfl
    · exact ⟨hutf, hjoined, hprint⟩
    · refine ⟨by rw [validUtf8_cons_ascii hsep]; exact hutf, List.cons_ne_nil _ _, ?_⟩
      exact List.forall_mem_cons.mpr ⟨by decide, hprint⟩
  obtain ⟨h1, h2, h3⟩ := hall
  have hcstr : cstr name = name := cstr_of_not_mem fun h0 => absurd (h3 0 h0) (by decide)
  unfold isValidFname
  rw [hcstr]
  simp only [h1, h2, List.any_eq_true, decide_eq_true_eq, not_exists, not_and, ne_eq,
    not_false_eq_true, Bool.not_eq_true', Bool.eq_false_iff, true_and]
  exact fun b hb => UInt8.not_lt.mpr (h3 b hb)

theorem field_append (a rest : Bytes) : field a.length (a ++ rest) = some (a, rest) :=
  field_eq_some.mpr ⟨rfl, rfl⟩

theorem sizeField_append (sz : Int) (hlo : -2 ^ 63 ≤ sz) (hhi : sz < 2 ^ 63) (rest : Bytes) :
    sizeField (sizeBytes 8 sz ++ rest) = some (sz, rest) := by
  have h8 := field_append (sizeBytes 8 sz) rest
  rw [length_sizeBytes] at h8
  simp [sizeField, h8, sizeOfBytes_sizeBytes hlo hhi]

/-- The name at the start of a frame. -/
theorem nameOf_append {name : Bytes} (hvalid : isValidFname name = true) (hne : name ≠ [])
    (hlen : name.length ≤ maxFileNameLen) (rest : Bytes) :
    nameOf (sizeBytes 8 name.length ++ (name ++ rest)) = some (name, rest) := by
  have hpos := List.length_pos_of_ne_nil hne
  have hmax : maxFileNameLen = 2048 := rfl
  have hsize := sizeField_append (name.length : Int) (by omega) (by omega) (name ++ rest)
  have hfield := field_append name rest
  have hrange : ¬ ((name.length : Int) ≤ 0 ∨ (name.length : Int) > maxFileNameLen) := by omega
  have hcast : (name.length : Int).toNat = name.length := Int.toNat_natCast _
  unfold nameOf
  rw [hsize]
  show (if (name.length : Int) ≤ 0 ∨ (name.length : Int) > maxFileNameLen then none else _) = _
  rw [if_neg hrange, hcast, hfield]
  show (if isValidFname name = true then some (name, rest) else none) = _
  rw [if_pos hvalid]

/-- The entry at the end of a frame. -/
theorem contentOf_dir {version : Nat} (hversion : 3 ≤ version)
    (hmax : 0 ≤ env.configuration.maxFileSize) (rest : Bytes) :
    contentOf env version (sizeBytes 8 (-1) ++ rest) = some (.dir, rest) := by
  rw [contentOf_eq (sizeField_append (-1) (by omega) (by omega) rest)]
  exact bodyOf_dir (by omega) ⟨rfl, hversion⟩

theorem contentOf_file {version : Nat} {d : Bytes}
    (hmax : (d.length : Int) ≤ env.configuration.maxFileSize)
    (hbits : env.configuration.maxFileSize < 2 ^ 63) (rest : Bytes) :
    contentOf env version (sizeBytes 8 d.length ++ (d ++ rest)) = some (.file d, rest) := by
  rw [contentOf_eq (sizeField_append _ (by omega) (by omega) (d ++ rest)),
    bodyOf_file (by omega) (by omega) (by omega) (by simp), Int.toNat_natCast, List.take_left,
    List.drop_left]

/-- The name of a location under a directory is stored as its path below that directory. -/
theorem nameFor_under {p cs : Path} (hne : cs ≠ []) (hnames : ∀ c ∈ cs, Ordinary c)
    (hshort : (absolute (p ++ cs)).length ≤ 680) :
    NameFor cs (nameUnder p (p ++ cs)) ∧ nameStart p < (absolute (p ++ cs)).length ∧
      nameUnder p (p ++ cs) ≠ [] := by
  have hparts : ∀ c ∈ cs, Proper c ∧ (0 : UInt8) ∉ c := fun c hc =>
    ⟨(hnames c hc).proper, (hnames c hc).zero_not_mem⟩
  unfold nameUnder nameStart
  by_cases hp : p = []
  · -- below the root, the names keep the separator at their start
    subst hp
    rw [List.nil_append] at hshort ⊢
    rw [if_pos rfl, List.drop_zero]
    unfold absolute at hshort ⊢
    rw [List.length_cons] at hshort ⊢
    exact ⟨⟨.inr rfl, hparts, by omega⟩, by omega, List.cons_ne_nil _ _⟩
  · have hpath : absolute (p ++ cs) = absolute p ++ [sep] ++ joined cs := by
      unfold absolute
      rw [joined_append hp hne]
      simp
    have hlen : (absolute p ++ [sep]).length = (absolute p).length + 1 := by simp
    have hjoined : joined cs ≠ [] := by
      intro h0
      obtain ⟨hcomp, -⟩ := joined_proper hne hparts
      rw [h0, components_of_not_mem (by simp)] at hcomp
      exact (hparts [] (by rw [← hcomp]; exact List.mem_singleton_self _)).1.ne rfl
    have hpos := List.length_pos_of_ne_nil hjoined
    have htotal : (absolute (p ++ cs)).length = (absolute p).length + 1 + (joined cs).length := by
      rw [hpath, List.length_append, hlen]
    have hdrop : (absolute (p ++ cs)).drop ((absolute p).length + 1) = joined cs := by
      rw [hpath, ← hlen, List.drop_left]
    rw [if_neg hp, hdrop]
    exact ⟨⟨.inl rfl, hparts, by omega⟩, by omega, hjoined⟩

/-- **The frames carry the entries.** -/
theorem carries_frames {version : Nat} (hversion : 3 ≤ version)
    (hmax : 0 ≤ env.configuration.maxFileSize) (hbits : env.configuration.maxFileSize < 2 ^ 63)
    {p : Path} {qs : List Path}
    (hqs : ∀ q ∈ qs, Transferable env fs q ∧ ∃ cs, cs ≠ [] ∧ q = p ++ cs ∧ ∀ c ∈ cs, Ordinary c) :
    Carries env version (fs.entriesOf p qs) (frames fs p qs) [] := by
  induction qs with
  | nil => rfl
  | cons q qs ih =>
    obtain ⟨hq, cs, hne, rfl, hnames⟩ := hqs q List.mem_cons_self
    have ih := ih fun r hr => hqs r (List.mem_cons_of_mem _ hr)
    obtain ⟨hfor, -, hname⟩ := nameFor_under hne hnames hq.short
    have hlen : (nameUnder p (p ++ cs)).length ≤ maxFileNameLen := by
      have hshort := hq.short
      have hmax : maxFileNameLen = 2048 := rfl
      unfold nameUnder
      rw [List.length_drop]
      omega
    have hread := nameOf_append (hfor.valid hne hnames) hname hlen
    show Carries env version (((p ++ cs).drop p.length, fs.entryAt (p ++ cs)) :: fs.entriesOf p qs)
      (frame (nameUnder p (p ++ cs)) (fs.entryAt (p ++ cs)) ++ frames fs p qs) []
    rw [List.drop_left]
    rcases hq.shown with hdir | ⟨ino, d, hfile, hsize, -⟩
    · rw [FileSystem.entryAt_eq hdir]
      refine ⟨_, hfor, _, _, ?_, contentOf_dir hversion hmax _, ih⟩
      show nameOf (_ ++ (_ ++ sizeBytes 8 (-1)) ++ _) = _
      rw [List.append_assoc, List.append_assoc, hread]
    · rw [FileSystem.entryAt_eq hfile]
      refine ⟨_, hfor, _, _, ?_, contentOf_file hsize hbits _, ih⟩
      show nameOf (_ ++ (_ ++ (sizeBytes 8 d.length ++ d)) ++ _) = _
      rw [List.append_assoc, List.append_assoc, hread, List.append_assoc]

end ClipShare
