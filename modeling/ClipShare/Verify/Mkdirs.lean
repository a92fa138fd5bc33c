import ClipShare.Interaction.Ensures
import ClipShare.Verify.Inside

namespace ClipShare

open Interaction Posix

/-!
# Making directories

`mkdirs` cuts its path at every separator and makes what is missing, from the first component to
the last one.

* `DirsAdded` — nothing has changed but for directories at some locations that were empty;
* `Makes` — what is known when directories were asked for at some locations, with the rules for
  one request after the other;
* `ensures_mkdirCheck`, `ensures_mkdirsLoop` — one component, and the loop over those that are left;
* `mkdirs_spec` — when `mkdirs` succeeds, and what it changes.
-/

/-- Any call may be issued. -/
abbrev anyProcCall : Call → Session × Host → Prop := fun _ _ => True

/-- Nothing but a directory is in the way at a location. -/
def Host.Passable (h : Host) (q : Path) : Prop := h.fs.node q = none ∨ h.fs.node q = some .dir

/-- The only change is that there are directories at locations in `S` that were empty. -/
structure DirsAdded (S : Set Path) (h h' : Host) : Prop where
  cwd : h'.cwd = h.cwd
  desktop : h'.desktop = h.desktop
  node : ∀ q, h'.fs.node q = h.fs.node q ∨
    q ∈ S ∧ h.fs.node q = none ∧ h'.fs.node q = some .dir

namespace DirsAdded

variable {S S' : Set Path} {h h1 h' : Host}

theorem refl (h : Host) : DirsAdded S h h := ⟨rfl, rfl, fun _ => .inl rfl⟩

theorem mono (hadd : DirsAdded S h h') (hS : S ⊆ S') : DirsAdded S' h h' :=
  ⟨hadd.cwd, hadd.desktop, fun q => (hadd.node q).imp_right fun hq => ⟨hS hq.1, hq.2⟩⟩

theorem trans (hadd : DirsAdded S h h1) (hadd' : DirsAdded S h1 h') : DirsAdded S h h' := by
  refine ⟨hadd'.cwd.trans hadd.cwd, hadd'.desktop.trans hadd.desktop, fun q => ?_⟩
  rcases hadd'.node q with heq | ⟨hq, hnone, hdir⟩
  · rw [heq]
    exact hadd.node q
  · rcases hadd.node q with heq1 | ⟨-, -, hdir1⟩
    · exact .inr ⟨hq, heq1.symm.trans hnone, hdir⟩
    · rw [hdir1] at hnone
      cases hnone

/-- Directories stay. -/
theorem dir (hadd : DirsAdded S h h') {q : Path} (hq : h.fs.node q = some .dir) :
    h'.fs.node q = some .dir := by
  rcases hadd.node q with heq | ⟨-, -, hdir⟩
  · rw [heq, hq]
  · exact hdir

/-- Adding directories neither clears a way nor blocks it. -/
theorem passable_iff (hadd : DirsAdded S h h') {q : Path} : h'.Passable q ↔ h.Passable q := by
  unfold Host.Passable
  rcases hadd.node q with heq | ⟨-, hnone, hdir⟩
  · rw [heq]
  · exact iff_of_true (.inr hdir) (.inl hnone)

end DirsAdded

/-- Directories were asked for at the locations in `S`: this succeeds if nothing is in the way. -/
structure Makes (S : Set Path) (l : Session) (h : Host) (status : Status) (t : Session × Host) :
    Prop where
  oracle : t.1.oracle = l.oracle
  added : DirsAdded S h t.2
  success_iff : status = .success ↔ ∀ q ∈ S, h.Passable q
  dirs : status = .success → ∀ q ∈ S, t.2.fs.node q = some .dir

namespace Makes

variable {S S' : Set Path} {l l1 : Session} {h h1 : Host} {status : Status} {t : Session × Host}

/-- Something was in the way. -/
theorem failure (hm : Makes S l h .failure t) (hS : S ⊆ S') : Makes S' l h .failure t where
  oracle := hm.oracle
  added := hm.added.mono hS
  success_iff := iff_of_false nofun fun hall =>
    nomatch hm.success_iff.mpr fun q hq => hall q (hS hq)
  dirs := nofun

/-- One request after the other. -/
theorem trans (hm : Makes S l h .success (l1, h1)) (hm' : Makes S' l1 h1 status t) :
    Makes (S ∪ S') l h status t where
  oracle := hm'.oracle.trans hm.oracle
  added := (hm.added.mono Set.subset_union_left).trans (hm'.added.mono Set.subset_union_right)
  success_iff := by
    rw [hm'.success_iff]
    constructor
    · rintro hall q (hq | hq)
      · exact hm.success_iff.mp rfl q hq
      · exact hm.added.passable_iff.mp (hall q hq)
    · exact fun hall q hq => hm.added.passable_iff.mpr (hall q (.inr hq))
  dirs hs q hq := by
    rcases hq with hq | hq
    · exact hm'.added.dir (hm.dirs rfl q hq)
    · exact hm'.dirs hs q hq

end Makes

variable {l : Session} {h : Host} {s : Bytes} {p : Path}

/-! ### Looking -/

theorem ensures_fileExists (hn : Names s p) :
    (fileExists s).Ensures respond anyProcCall (l, h) fun b t =>
      t.1.oracle = l.oracle ∧ t.2 = h ∧ (b = true ↔ (h.fs.node (h.cwd ++ p)).isSome ∧
        (endsInDir (components s) = true → h.fs.node (h.cwd ++ p) = some .dir)) := by
  unfold fileExists
  rw [if_neg hn.ne]
  refine ⟨trivial, ?_⟩
  rw [respond_access, hn.resolve]
  by_cases hfound : (h.fs.node (h.cwd ++ p)).isSome ∧
      (endsInDir (components s) = true → h.fs.node (h.cwd ++ p) = some .dir)
  · rw [if_pos hfound]
    exact ⟨rfl, rfl, iff_of_true rfl hfound⟩
  · rw [if_neg hfound]
    exact ⟨rfl, rfl, iff_of_false Bool.false_ne_true hfound⟩

theorem statAt_eq_dir_iff (hn : Names s p) :
    statAt h s = some .dir ↔ h.fs.node (h.cwd ++ p) = some .dir := by
  unfold statAt
  rw [hn.resolve]
  cases hnode : h.fs.node (h.cwd ++ p) with
  | none => simp
  | some nd => cases nd <;> cases endsInDir (components s) <;> simp [hnode, kindOf]

theorem ensures_isDirectory (hn : Names s p) :
    (isDirectory s).Ensures respond anyProcCall (l, h) fun d t =>
      t.1.oracle = l.oracle ∧ t.2 = h ∧ (d = 1 ↔ h.fs.node (h.cwd ++ p) = some .dir) := by
  unfold isDirectory
  rw [if_neg hn.ne, ← statAt_eq_dir_iff hn]
  refine ⟨trivial, ?_⟩
  rw [respond_stat]
  cases statAt h s with
  | none => exact ⟨rfl, rfl, iff_of_false (by decide) nofun⟩
  | some kind =>
    cases kind with
    | dir => exact ⟨rfl, rfl, iff_of_true rfl rfl⟩
    | regular => exact ⟨rfl, rfl, iff_of_false (by decide) nofun⟩
    | other => exact ⟨rfl, rfl, iff_of_false (by decide) nofun⟩

/-! ### One component -/

theorem ensures_mkdir (hl : l.Sturdy) {ks : List Name} {n : Name} (hn : Names s (p ++ [n]))
    (hks : components s = ks ++ [n]) (hdir : h.fs.node (h.cwd ++ p) = some .dir)
    (hnone : h.fs.node (h.cwd ++ (p ++ [n])) = none) :
    (mkdir s).Ensures respond anyProcCall (l, h) fun b t =>
      b = true ∧ Makes {h.cwd ++ (p ++ [n])} l h .success t := by
  rw [← List.append_assoc] at hnone ⊢
  obtain ⟨fs, hmk⟩ := Option.isSome_iff_exists.mp (FileSystem.mkdirAt_isSome hdir hnone)
  obtain ⟨-, -, -, hnode⟩ := FileSystem.mkdirAt_eq_some hmk
  have hnew := hn.resolveNew hks (hn.plain_init hks) hdir
  refine ⟨trivial, ?_⟩
  rw [respond_mkdir hl.fault hnew hmk]
  refine ⟨rfl, rfl, ⟨rfl, rfl, fun q => ?_⟩, iff_of_true rfl ?_, fun _ => ?_⟩
  · by_cases hq : q = h.cwd ++ p ++ [n]
    · right
      rw [hq]
      exact ⟨rfl, hnone, (hnode _).trans (if_pos rfl)⟩
    · exact .inl ((hnode q).trans (if_neg hq))
  · rintro q rfl
    exact .inl hnone
  · rintro q rfl
    exact (hnode _).trans (if_pos rfl)

/-- A request for a directory that is there, or for a location that is taken by something else. -/
theorem Makes.found {status : Status} {t : Session × Host} {q : Path}
    (ho : t.1.oracle = l.oracle) (hh : t.2 = h) (hsome : (h.fs.node q).isSome)
    (hs : status = .success ↔ h.fs.node q = some .dir) : Makes {q} l h status t where
  oracle := ho
  added := hh ▸ DirsAdded.refl _
  success_iff := by
    rw [hs]
    constructor
    · rintro hdir _ rfl
      exact .inr hdir
    · refine fun hpass => (hpass q rfl).resolve_left fun hnone => ?_
      rw [hnone] at hsome
      cases hsome
  dirs hsucc := by
    rintro _ rfl
    rw [hh]
    exact hs.mp hsucc

/-- `_mkdir_check`, at a directory or at a name in one. -/
theorem ensures_mkdirCheck (hl : l.Sturdy) (hn : Names s p)
    (hparent : h.fs.node (h.cwd ++ p) = some .dir ∨ ∃ ks ds n, p = ds ++ [n] ∧
      components s = ks ++ [n] ∧ h.fs.node (h.cwd ++ ds) = some .dir) :
    (mkdirCheck s).Ensures respond anyProcCall (l, h) (Makes {h.cwd ++ p} l h) := by
  refine (ensures_fileExists hn).bind ?_
  rintro b ⟨l1, h1⟩ ⟨ho1, hh1, hfound⟩
  obtain rfl : h = h1 := hh1.symm
  cases b with
  | true =>
    refine (ensures_isDirectory hn).bind ?_
    rintro d ⟨l2, h2⟩ ⟨ho2, hh2, hdir⟩
    obtain rfl : h = h2 := hh2.symm
    have hsome := (hfound.mp rfl).1
    have ho := ho2.trans ho1
    by_cases hone : d = 1
    · rw [if_neg (not_not.mpr hone)]
      exact .found ho rfl hsome (iff_of_true rfl (hdir.mp hone))
    · rw [if_pos hone]
      exact .found ho rfl hsome (iff_of_false nofun (hdir.not.mp hone))
  | false =>
    have hnot := fun h0 => Bool.false_ne_true (hfound.mpr h0)
    rcases hparent with hdir | ⟨ks, ds, n, rfl, hks, hdir⟩
    · exact absurd ⟨by rw [hdir]; rfl, fun _ => hdir⟩ hnot
    · have hnone : h.fs.node (h.cwd ++ (ds ++ [n])) = none := by
        rw [hn.endsInDir hks] at hnot
        simpa using hnot
      refine (ensures_mkdir (hl.of_oracle ho1) hn hks hdir hnone).bind ?_
      rintro b t ⟨rfl, hmade⟩
      exact ⟨hmade.oracle.trans ho1, hmade.added, hmade.success_iff, hmade.dirs⟩

/-! ### The loop -/

/-- The locations of the path strings that go on from components by at least one of others. -/
def goingOn (cwd : Path) (cs ks : List Name) : Set Path :=
  {q | ∃ ds, ds ≠ [] ∧ ds <+: ks ∧ q = cwd ++ plain (cs ++ ds)}

theorem goingOn_singleton (cwd : Path) (cs : List Name) (k : Name) :
    goingOn cwd cs [k] = {cwd ++ plain (cs ++ [k])} := by
  ext q
  constructor
  · rintro ⟨ds, hne, hds, rfl⟩
    rcases List.prefix_cons_iff.mp hds with rfl | ⟨es, rfl, hes⟩
    · exact absurd rfl hne
    · rw [List.prefix_nil.mp hes]
      rfl
  · rintro rfl
    exact ⟨[k], List.cons_ne_nil k [], List.prefix_rfl, rfl⟩

theorem goingOn_cons (cwd : Path) (cs : List Name) (k : Name) (ks : List Name) :
    goingOn cwd cs (k :: ks) =
      {cwd ++ plain (cs ++ [k])} ∪ goingOn cwd (cs ++ [k]) ks := by
  ext q
  constructor
  · rintro ⟨ds, hne, hds, rfl⟩
    rcases List.prefix_cons_iff.mp hds with rfl | ⟨es, rfl, hes⟩
    · exact absurd rfl hne
    · by_cases hnil : es = []
      · exact .inl (by rw [hnil]; rfl)
      · exact .inr ⟨es, hnil, hes, by simp⟩
  · rintro (rfl | ⟨es, -, hes, rfl⟩)
    · exact ⟨[k], List.cons_ne_nil k [], by simp, rfl⟩
    · exact ⟨k :: es, List.cons_ne_nil k es, by simpa using hes, by simp⟩

/-- The path string with one more component still starts with the dot. -/
theorem head?_next {done : Bytes} {k : Name} {ks : List Name}
    (hhead : (done ++ joined (k :: ks)).head? = some 0x2e) : (done ++ k).head? = some 0x2e := by
  obtain ⟨v, hv, hsep⟩ : ∃ v, joined (k :: ks) = k ++ v ∧ v.head? ≠ some 0x2e := by
    cases ks with
    | nil => exact ⟨[], by rw [joined_singleton, List.append_nil], nofun⟩
    | cons k' ks => exact ⟨_, joined_cons_cons k k' ks, by simp [sep]⟩
  rw [hv, ← List.append_assoc] at hhead
  by_cases hnil : done ++ k = []
  · rw [hnil] at hhead
    exact absurd hhead hsep
  · rwa [List.head?_append_of_ne_nil _ hnil] at hhead

/-- One round of the loop: the next component of a path whose directories are there. -/
theorem ensures_mkdirsStep (hl : l.Sturdy) {done : Bytes} {cs : List Name} {k : Name}
    (hcomp : components (done ++ k) = cs ++ [k]) (hup : dotdot ∉ cs ++ [k])
    (hhead : (done ++ k).head? = some 0x2e)
    (hdir : h.fs.node (h.cwd ++ plain cs) = some .dir) :
    (mkdirCheck (done ++ k)).Ensures respond anyProcCall (l, h)
      (Makes {h.cwd ++ plain (cs ++ [k])} l h) := by
  have hn : Names (done ++ k) (plain (cs ++ [k])) := by
    refine ⟨fun h0 => ?_, fun h0 => ?_, hcomp ▸ hup, by rw [hcomp]⟩
    · rw [h0] at hhead
      cases hhead
    · rw [hhead] at h0
      cases h0
  refine ensures_mkdirCheck hl hn ?_
  rw [plain_append, plain_cons]
  split
  · left
    rw [plain_nil, List.append_nil]
    exact hdir
  · exact .inr ⟨cs, plain cs, k, rfl, hcomp, hdir⟩

/-- **Run lemma.**  The loop of `mkdirs` over the components that are left. -/
theorem ensures_mkdirsLoop (hl : l.Sturdy) {done : Bytes} {cs ks : List Name} (hne : ks ≠ [])
    (hdone : ∀ u, components (done ++ u) = cs ++ components u)
    (hsep : ∀ k ∈ ks, sep ∉ k) (hup : dotdot ∉ cs ++ ks)
    (hhead : (done ++ joined ks).head? = some 0x2e)
    (hdir : h.fs.node (h.cwd ++ plain cs) = some .dir) :
    (mkdirsLoop done (joined ks)).Ensures respond anyProcCall (l, h)
      (Makes (goingOn h.cwd cs ks) l h) := by
  induction ks generalizing done cs l h with
  | nil => exact absurd rfl hne
  | cons k ks ih =>
    have hk : sep ∉ k := hsep k List.mem_cons_self
    have hcomp : components (done ++ k) = cs ++ [k] := by rw [hdone, components_of_not_mem hk]
    have hsub : cs ++ [k] ⊆ cs ++ k :: ks := by simp
    have hstep := ensures_mkdirsStep hl hcomp (fun h0 => hup (hsub h0)) (head?_next hhead) hdir
    cases ks with
    | nil =>
      rw [joined_singleton, mkdirsLoop_last hk, goingOn_singleton]
      exact hstep
    | cons k' ks =>
      rw [joined_cons_cons, mkdirsLoop_next hk, goingOn_cons]
      refine hstep.bind ?_
      rintro status ⟨l1, h1⟩ hmade
      cases status with
      | failure => exact hmade.failure Set.subset_union_left
      | success =>
        -- the directory is there, and the loop goes on below it
        have hcwd := hmade.added.cwd
        have hdir1 := hmade.dirs rfl _ rfl
        rw [← hcwd] at hdir1 ⊢
        refine (ih (hl.of_oracle hmade.oracle) (List.cons_ne_nil k' ks) ?_ ?_ ?_ ?_ hdir1).mono
          fun status t hmade' => ?_
        · intro u
          rw [List.append_assoc, List.append_assoc, List.singleton_append, hdone,
            components_append_sep, components_of_not_mem hk, List.append_assoc]
        · exact fun c hc => hsep c (List.mem_cons_of_mem k hc)
        · rwa [List.append_assoc, List.singleton_append]
        · rw [joined_cons_cons] at hhead
          simpa using hhead
        · exact (hcwd ▸ hmade).trans hmade'

/-! ### `mkdirs` -/

/-- The locations of the parts of a path string. -/
def Host.onTheWay (h : Host) (path : Bytes) : Set Path := {q | ∃ u, IsPart u path ∧ h.locate u = q}

variable {path : Bytes}

/-- A part of a path that starts with a dot starts with it. -/
theorem names_of_isPart {u : Bytes} (hu : IsPart u path) (hhead : path.head? = some 0x2e)
    (hup : dotdot ∉ components path) : Names u (plain (components u)) := by
  have hhead' : u.head? = some 0x2e := by
    rcases hu with rfl | ⟨v, rfl⟩
    · exact hhead
    · by_cases hnil : u = []
      · rw [hnil] at hhead
        exact absurd hhead (by simp [sep])
      · rwa [List.head?_append_of_ne_nil _ hnil] at hhead
  refine ⟨fun h0 => ?_, fun h0 => ?_, fun h0 => hup ((isPart_iff.mp hu).subset h0), rfl⟩
  · rw [h0] at hhead'
    cases hhead'
  · rw [hhead'] at h0
    cases h0

/-- They are the locations that the loop comes to. -/
theorem onTheWay_eq (hhead : path.head? = some 0x2e) (hup : dotdot ∉ components path) :
    h.onTheWay path = goingOn h.cwd [] (components path) := by
  ext q
  constructor
  · rintro ⟨u, hu, rfl⟩
    exact ⟨components u, components_ne_nil u, isPart_iff.mp hu,
      (names_of_isPart hu hhead hup).locate h⟩
  · rintro ⟨ds, hne, hds, rfl⟩
    obtain ⟨u, hu, rfl⟩ := exists_isPart hne hds
    exact ⟨u, hu, (names_of_isPart hu hhead hup).locate h⟩

/-- Above a directory there are directories. -/
theorem dirs_above {u : Bytes} (hu : IsPart u path) (hhead : path.head? = some 0x2e)
    (hup : dotdot ∉ components path) (hdir : h.fs.node (h.locate path) = some .dir) :
    h.fs.node (h.locate u) = some .dir := by
  rw [(names_of_isPart hu hhead hup).locate]
  rw [(names_of_isPart (.inl rfl) hhead hup).locate] at hdir
  obtain ⟨ds, hds⟩ := isPart_iff.mp hu
  rw [← hds, plain_append, ← List.append_assoc] at hdir
  by_cases hnil : plain ds = []
  · rwa [hnil, List.append_nil] at hdir
  · by_contra hno
    rw [h.fs.node_below hno hnil] at hdir
    cases hdir

/-- The loop of `mkdirs` over the whole path. -/
theorem ensures_mkdirsLoop_path (hl : l.Sturdy) (hcwd : h.fs.node h.cwd = some .dir)
    (hhead : path.head? = some 0x2e) (hup : dotdot ∉ components path) :
    (mkdirsLoop [] path).Ensures respond anyProcCall (l, h) (Makes (h.onTheWay path) l h) := by
  have hloop : (mkdirsLoop [] (joined (components path))).Ensures respond anyProcCall (l, h)
      (Makes (goingOn h.cwd [] (components path)) l h) :=
    ensures_mkdirsLoop hl (components_ne_nil path) (fun _ => rfl)
      (fun _ => sep_not_mem_of_mem_components) hup
      (by rwa [List.nil_append, joined_components])
      (by rwa [plain_nil, List.append_nil])
  rwa [joined_components, ← onTheWay_eq hhead hup] at hloop

/-- **`mkdirs` makes exactly what is missing.**  It succeeds if the path is a directory, or if it
    is not too long and there is nothing but directories on the way; then all parts of the path
    are directories.  In every case the only change is that directories have been added at parts of
    the path. -/
theorem mkdirs_spec (hl : l.Sturdy) (hcwd : h.fs.node h.cwd = some .dir)
    (hhead : path.head? = some 0x2e) (hup : dotdot ∉ components path) :
    (mkdirs path).Ensures respond anyProcCall (l, h) fun status t =>
      (status = .success ↔ h.fs.node (h.locate path) = some .dir ∨
        path.length ≤ maxFileNameLen ∧ ∀ q ∈ h.onTheWay path, h.Passable q) ∧
      (status = .success → ∀ q ∈ h.onTheWay path, t.2.fs.node q = some .dir) ∧
      DirsAdded (h.onTheWay path) h t.2 := by
  have hself : IsPart path path := .inl rfl
  have hn := names_of_isPart hself hhead hup
  have hloc := hn.locate h
  unfold mkdirs
  rw [if_neg (not_not.mpr hhead)]
  refine (ensures_fileExists hn).bind ?_
  rintro b ⟨l1, h1⟩ ⟨ho1, hh1, hfound⟩
  obtain rfl : h = h1 := hh1.symm
  rw [← hloc] at hfound
  cases b with
  | true =>
    refine (ensures_isDirectory hn).bind ?_
    rintro d ⟨l2, h2⟩ ⟨-, hh2, hdir⟩
    obtain rfl : h = h2 := hh2.symm
    rw [← hloc] at hdir
    by_cases hone : d = 1
    · rw [if_pos hone]
      refine ⟨iff_of_true rfl (.inl (hdir.mp hone)), fun _ => ?_, .refl h⟩
      rintro _ ⟨u, hu, rfl⟩
      exact dirs_above hu hhead hup (hdir.mp hone)
    · -- something else has the name
      rw [if_neg hone]
      refine ⟨iff_of_false nofun ?_, nofun, .refl h⟩
      rintro (hd | ⟨-, hpass⟩)
      · exact hone (hdir.mpr hd)
      · have hsome := (hfound.mp rfl).1
        rcases hpass _ ⟨path, hself, rfl⟩ with hnone | hd
        · rw [hnone] at hsome
          cases hsome
        · exact hone (hdir.mpr hd)
  | false =>
    have hnot : h.fs.node (h.locate path) ≠ some .dir := fun hd =>
      Bool.false_ne_true (hfound.mpr ⟨by rw [hd]; rfl, fun _ => hd⟩)
    rw [if_neg Bool.false_ne_true]
    by_cases hlen : path.length > maxFileNameLen
    · rw [if_pos hlen]
      refine ⟨trivial, ?_⟩
      rw [respond_error]
      refine ⟨iff_of_false nofun ?_, nofun, .refl h⟩
      rintro (hd | ⟨hle, -⟩)
      · exact hnot hd
      · exact absurd hlen (not_lt.mpr hle)
    · rw [if_neg hlen]
      refine (ensures_mkdirsLoop_path (hl.of_oracle ho1) hcwd hhead hup).mono
        fun status t hmade => ?_
      refine ⟨hmade.success_iff.trans ⟨fun hpass => .inr ⟨not_lt.mp hlen, hpass⟩, ?_⟩, hmade.dirs,
        hmade.added⟩
      rintro (hd | ⟨-, hpass⟩)
      · exact absurd hd hnot
      · exact hpass

/-- Two directories in an empty tree. -/
theorem mkdirs_spec_two :
    (mkdirs (ascii "./a/b")).Ensures respond anyProcCall (.fresh [] .calm, .empty)
      fun status t => status = .success ∧ t.2.fs.node [ascii "a"] = some .dir ∧
        DirsAdded (Host.empty.onTheWay (ascii "./a/b")) .empty t.2 := by
  have hpass : ∀ q ∈ Host.empty.onTheWay (ascii "./a/b"), Host.empty.Passable q := by
    intro q _
    by_cases hq : q = []
    · exact .inr (if_pos hq)
    · exact .inl (if_neg hq)
  refine (mkdirs_spec (fun _ => rfl) rfl rfl (by decide)).mono fun status t h => ?_
  have hs := h.1.mpr (.inr ⟨by decide, hpass⟩)
  exact ⟨hs, h.2.1 hs _ ⟨ascii "./a", .inr ⟨ascii "b", by decide⟩, by decide⟩, h.2.2⟩

end ClipShare
