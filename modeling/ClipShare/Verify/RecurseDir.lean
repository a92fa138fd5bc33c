import ClipShare.Interaction.Relate
import ClipShare.Posix.Leaves
import ClipShare.Verify.Walk

namespace ClipShare

open Interaction Posix Prog

/-!
# The walk through a directory

`_recurse_dir` lists the regular files under a directory and, if it is asked to, the directories
that are empty.  It goes through the tree in the same order in both cases.

* `pathBelow` — the path of a location under a directory;
* `WalkableBelow` — what the walk asks of the tree;
* `Listed` / `listedFrom` — which leaves are listed, and under which paths;
* `recurseDir_both` — the walk that lists empty directories next to the one that does not;
* `recurseDir_complete` — what is listed, and that nothing is listed twice.
-/

variable {A : Oracle → Prop} {h : Host} {fs : FileSystem} {cwd p r : Path} {s : Bytes} {n : Name}

/-! ### Paths below a directory -/

/-- The path of a location under a directory, which is given by the names on the way to it. -/
def pathBelow (dirPath : Bytes) (r : Path) : Bytes :=
  if r = [] then dirPath else withSep dirPath ++ joined r

@[simp] theorem pathBelow_nil (s : Bytes) : pathBelow s [] = s := if_pos rfl

theorem withSep_of_name {u : Bytes} (hn : Proper n) : withSep (u ++ n) = u ++ n ++ [sep] := by
  have hlast : (u ++ n).getLast? ≠ some sep := by
    rw [List.getLast?_append_of_ne_nil _ hn.ne]
    exact fun hl => hn.sep (List.mem_of_getLast? hl)
  exact if_neg hlast

/-- One step into a directory. -/
theorem pathBelow_cons (hn : Proper n) (r : Path) :
    pathBelow s (n :: r) = pathBelow (withSep s ++ n) r := by
  unfold pathBelow
  rw [if_neg (List.cons_ne_nil n r)]
  cases r with
  | nil => rw [if_pos rfl, joined_singleton]
  | cons c r =>
    rw [if_neg (List.cons_ne_nil c r), withSep_of_name hn, joined_cons_cons]
    simp

/-- The path of a location below a directory does not end in a separator. -/
theorem getLast_pathBelow (hr : r ≠ []) (hproper : ∀ c ∈ r, Proper c) :
    (pathBelow s r).getLast? ≠ some sep := by
  induction r generalizing s with
  | nil => exact absurd rfl hr
  | cons n r ih =>
    have hn := hproper n List.mem_cons_self
    rw [pathBelow_cons hn]
    cases r with
    | nil =>
      rw [pathBelow_nil, List.getLast?_append_of_ne_nil _ hn.ne]
      exact fun hl => hn.sep (List.mem_of_getLast? hl)
    | cons c r => exact ih (List.cons_ne_nil c r) fun d hd => hproper d (List.mem_cons_of_mem n hd)

theorem getLast_withSep (s : Bytes) : (withSep s).getLast? = some sep := by
  unfold withSep
  split
  · assumption
  · simp

/-- The components of a path with a separator at its end lead to the directory that the path
    names. -/
theorem walk_of_resolve (hs : fs.resolve cwd s = some p) :
    ∃ cs, (∀ n, sep ∉ n → components (withSep s ++ n) = cs ++ [n]) ∧
      fs.walk (FileSystem.start cwd s) cs = some p := by
  have hne : s ≠ [] := by
    rintro rfl
    cases hs
  unfold FileSystem.resolve at hs
  rw [if_neg hne] at hs
  unfold withSep
  by_cases hlast : s.getLast? = some sep
  · obtain ⟨u, rfl⟩ := List.getLast?_eq_some_iff.mp hlast
    -- an empty component at the end stays where it is
    rw [components_append_sep, FileSystem.walk_append] at hs
    obtain ⟨p', hu, hp'⟩ := Option.bind_eq_some_iff.mp hs
    refine ⟨components u, fun n hn => ?_, ?_⟩
    · rw [if_pos hlast, List.append_assoc, List.singleton_append, components_append_sep,
        components_of_not_mem hn]
    · rw [hu]
      have hdir : fs.walk p' [[]] = if fs.node p' = some .dir then fs.walk p' [] else none := rfl
      rw [components_of_not_mem List.not_mem_nil, hdir] at hp'
      split at hp'
      · unfold FileSystem.walk at hp'
        split at hp'
        · exact hp'
        · cases hp'
      · cases hp'
  · refine ⟨components s, fun n hn => ?_, hs⟩
    rw [if_neg hlast, List.append_assoc, List.singleton_append, components_append_sep,
      components_of_not_mem hn]

/-- The path of an entry of a directory names the entry. -/
theorem resolve_entry (hs : fs.resolve cwd s = some p) (hd : fs.node p = some .dir)
    (hn : Proper n) (hnode : fs.node (p ++ [n]) ≠ none) :
    fs.resolve cwd (withSep s ++ n) = some (p ++ [n]) := by
  obtain ⟨cs, hcs, hwalk⟩ := walk_of_resolve hs
  have hne : s ≠ [] := by
    rintro rfl
    cases hs
  have hstart : FileSystem.start cwd (withSep s ++ n) = FileSystem.start cwd s := by
    obtain ⟨t, ht⟩ := self_prefix_withSep s
    obtain ⟨c, u, rfl⟩ := List.exists_cons_of_ne_nil hne
    rw [← ht]
    rfl
  have hlast : fs.walk p [n] = some (p ++ [n]) := by
    unfold FileSystem.walk
    rw [if_pos hd, hn.stays, if_neg Bool.false_ne_true, if_neg hn.up]
    exact if_pos (Option.ne_none_iff_isSome.mp hnode)
  unfold FileSystem.resolve
  rw [if_neg (List.append_ne_nil_of_right_ne_nil _ hn.ne), hstart, hcs n hn.sep,
    FileSystem.walk_append, hwalk]
  exact hlast

theorem statAt_of_resolve {nd : Node} (hs : h.fs.resolve h.cwd s = some p)
    (hnode : h.fs.node p = some nd) : statAt h s = some (kindOf nd) := by
  simp [statAt, hs, hnode]

theorem readDirOf_of_resolve (hs : h.fs.resolve h.cwd s = some p)
    (hd : h.fs.node p = some .dir) : readDirOf h s = some (h.fs.list p) := by
  simp [readDirOf, hs, hd]

/-! ### What is listed -/

/-- Everything below the location has an ordinary name, and a path that fits the buffers. -/
structure WalkableBelow (fs : FileSystem) (p : Path) (s : Bytes) : Prop where
  names : ∀ r, fs.node (p ++ r) ≠ none → ∀ c ∈ r, Proper c
  short : ∀ r, fs.node (p ++ r) ≠ none → (pathBelow s r).length ≤ maxFileNameLen

/-- An entry of the directory, with the path that the walk gives it. -/
theorem WalkableBelow.entry (hw : WalkableBelow fs p s) (hnode : fs.node (p ++ [n]) ≠ none) :
    WalkableBelow fs (p ++ [n]) (withSep s ++ n) := by
  have hn : Proper n := hw.names [n] hnode n List.mem_cons_self
  have hpath : ∀ r, p ++ [n] ++ r = p ++ n :: r := fun r => List.append_cons p n r ▸ rfl
  constructor
  case names =>
    intro r hr c hc
    rw [hpath] at hr
    exact hw.names (n :: r) hr c (List.mem_cons_of_mem n hc)
  case short =>
    intro r hr
    rw [hpath] at hr
    rw [← pathBelow_cons hn]
    exact hw.short (n :: r) hr

/-- The leaves that are listed: regular files, and empty directories if they are asked for. -/
def Listed (fs : FileSystem) (leaf : Bool) (q : Path) : Bool :=
  match fs.node q with
  | some (.file _ _) => true
  | some .dir => leaf
  | _ => false

/-- The path of a leaf, with a separator at the end of a directory. -/
def leafPath (fs : FileSystem) (p : Path) (s : Bytes) (q : Path) : Bytes :=
  if fs.node q = some .dir then withSep (pathBelow s (q.drop p.length))
  else pathBelow s (q.drop p.length)

/-- What the walk lists for some leaves below a location. -/
def listedFrom (fs : FileSystem) (p : Path) (s : Bytes) (leaf : Bool) (ps : List Path) :
    List Bytes :=
  (ps.filter (Listed fs leaf)).map (leafPath fs p s)

theorem listedFrom_append (leaf : Bool) (ps qs : List Path) :
    listedFrom fs p s leaf (ps ++ qs) = listedFrom fs p s leaf ps ++ listedFrom fs p s leaf qs := by
  unfold listedFrom
  rw [List.filter_append, List.map_append]

/-- A leaf below an entry has the same path, seen from the directory and from the entry. -/
theorem leafPath_entry (hn : Proper n) {q : Path} (hq : p ++ [n] <+: q) :
    leafPath fs (p ++ [n]) (withSep s ++ n) q = leafPath fs p s q := by
  obtain ⟨r, rfl⟩ := hq
  unfold leafPath
  rw [List.drop_left, List.append_assoc, List.drop_left, List.singleton_append, pathBelow_cons hn]

theorem listedFrom_entry (hn : Proper n) {leaf : Bool} {ps : List Path}
    (hps : fs.Under (p ++ [n]) ps) :
    listedFrom fs (p ++ [n]) (withSep s ++ n) leaf ps = listedFrom fs p s leaf ps := by
  refine List.map_congr_left fun q hq => leafPath_entry hn ?_
  exact ((hps.mem q).mp (List.mem_of_mem_filter hq)).1

/-! ### The walk -/

/-- Two programs that go through the leaves under a location alike: one lists the empty directories,
    the other one does not. -/
def ListsBoth (A : Oracle → Prop) (h : Host) (p : Path) (s : Bytes)
    (prog prog' : Proc (List Bytes)) : Prop :=
  YieldsBoth respond (Reading A h) prog prog' fun lst lst' => ∃ ps, h.fs.Under p ps ∧
    lst = listedFrom h.fs p s true ps ∧ lst' = listedFrom h.fs p s false ps

/-- What `_recurse_dir` makes of the entries of a directory. -/
theorem recurseEntries_both {process process' : Bytes → Proc (List Bytes)} {names : List Name}
    (hnodup : names.Nodup) (hproper : ∀ n ∈ names, Proper n)
    (hproc : ∀ n ∈ names, ListsBoth A h (p ++ [n]) (withSep s ++ n)
      (process (withSep s ++ n)) (process' (withSep s ++ n)))
    (hlen : ∀ n ∈ names, (withSep s ++ n).length ≤ maxFileNameLen) :
    YieldsBoth respond (Reading A h) (recurseEntries process (withSep s) names)
      (recurseEntries process' (withSep s) names) fun r r' => r.2 = true ∧ r'.2 = true ∧
        ∃ ps, h.fs.Among p names ps ∧ r.1 = listedFrom h.fs p s true ps ∧
          r'.1 = listedFrom h.fs p s false ps := by
  induction names with
  | nil => exact yieldsBoth_ret ⟨rfl, rfl, [], FileSystem.among_nil, rfl, rfl⟩
  | cons n names ih =>
    obtain ⟨hn, hnodup⟩ := List.nodup_cons.mp hnodup
    have ih := ih hnodup (fun m hm => hproper m (List.mem_cons_of_mem _ hm))
      (fun m hm => hproc m (List.mem_cons_of_mem _ hm))
      fun m hm => hlen m (List.mem_cons_of_mem _ hm)
    have hfits := hlen n List.mem_cons_self
    rw [List.length_append] at hfits
    have hno : ¬ n.length + (withSep s).length > maxFileNameLen := by omega
    unfold recurseEntries
    rw [if_neg hno, if_neg hno]
    apply (hproc n List.mem_cons_self).bind
    rintro _ _ ⟨ps, hps, rfl, rfl⟩
    apply ih.bind
    rintro ⟨more, complete⟩ ⟨more', complete'⟩ ⟨hcomplete, hcomplete', qs, hqs, hmore, hmore'⟩
    refine yieldsBoth_ret ⟨hcomplete, hcomplete', ps ++ qs, .cons hn hps hqs, ?_, ?_⟩
    · rw [listedFrom_append, ← hmore, listedFrom_entry (hproper n List.mem_cons_self) hps]
    · rw [listedFrom_append, ← hmore', listedFrom_entry (hproper n List.mem_cons_self) hps]

/-- `_process_path` lists the leaves under a location, if `_recurse_dir` does for a directory. -/
theorem processPath_both {recurse recurse' : Bytes → Proc (List Bytes)}
    (hs : h.fs.resolve h.cwd s = some p) (hnode : h.fs.node p ≠ none)
    (hrec : h.fs.node p = some .dir → ListsBoth A h p s (recurse s) (recurse' s)) :
    ListsBoth A h p s (processPath recurse s) (processPath recurse' s) := by
  obtain ⟨nd, hnd⟩ := Option.ne_none_iff_exists'.mp hnode
  apply (stat_yields s).both.bind
  rintro _ _ ⟨rfl, rfl⟩
  rw [statAt_of_resolve hs hnd]
  cases nd with
  | dir => exact hrec hnd
  | file ino d =>
    have hfile : h.fs.node p ≠ some .dir := by rw [hnd]; nofun
    refine yieldsBoth_ret ⟨[p], FileSystem.under_of_file hnode hfile, ?_, ?_⟩
    · simp [listedFrom, Listed, leafPath, hnd]
    · simp [listedFrom, Listed, leafPath, hnd]
  | special =>
    have hfile : h.fs.node p ≠ some .dir := by rw [hnd]; nofun
    refine yieldsBoth_ret ⟨[p], FileSystem.under_of_file hnode hfile, ?_, ?_⟩
    · simp [listedFrom, Listed, hnd]
    · simp [listedFrom, Listed, hnd]

/-- **Walk lemma.**  `_recurse_dir` goes through the leaves of a directory that is not nested too
    deep, and in the same order whether it lists the empty directories or not.  The induction is on
    the levels that are still allowed. -/
theorem recurseDir_both (hA : ∀ o, A o → ∀ k, o.fs k = false) (depth : Nat)
    (hs : h.fs.resolve h.cwd s = some p) (hd : h.fs.node p = some .dir)
    (hw : WalkableBelow h.fs p s)
    (hdepth : ∀ r, h.fs.node (p ++ r) = some .dir → r.length < depth) :
    ListsBoth A h p s (recurseDir true depth s) (recurseDir false depth s) := by
  induction depth generalizing p s with
  | zero => exact absurd (hdepth [] (by rw [List.append_nil]; exact hd)) (Nat.not_lt_zero _)
  | succ depth ih =>
    have hnil : h.fs.node (p ++ []) ≠ none := by rw [List.append_nil, hd]; nofun
    have hlong : ¬ s.length > maxFileNameLen := not_lt.mpr (pathBelow_nil s ▸ hw.short [] hnil)
    apply (readDir_sturdy hA (readDirOf_of_resolve hs hd)).both.bind
    rintro _ _ ⟨rfl, ns, rfl, hperm⟩
    have hentry : ∀ n ∈ ns, h.fs.node (p ++ [n]) ≠ none := fun n hn => by
      rw [hperm.mem_iff, FileSystem.mem_list] at hn
      exact Option.ne_none_iff_isSome.mpr hn
    have hproper : ∀ n ∈ ns, Proper n := fun n hn =>
      hw.names [n] (hentry n hn) n List.mem_cons_self
    -- each entry contributes its leaves
    have hproc : ∀ n ∈ ns, ListsBoth A h (p ++ [n]) (withSep s ++ n)
        (processPath (recurseDir true depth) (withSep s ++ n))
        (processPath (recurseDir false depth) (withSep s ++ n)) := by
      intro n hn
      have hres := resolve_entry hs hd (hproper n hn) (hentry n hn)
      refine processPath_both hres (hentry n hn) fun hdn => ih hres hdn (hw.entry (hentry n hn)) ?_
      intro r hr
      have hlt := hdepth (n :: r) (by simpa using hr)
      rw [List.length_cons] at hlt
      omega
    have hlen : ∀ n ∈ ns, (withSep s ++ n).length ≤ maxFileNameLen := fun n hn => by
      have hshort := hw.short [n] (hentry n hn)
      rwa [pathBelow_cons (hproper n hn), pathBelow_nil] at hshort
    have hnodup : ns.Nodup := hperm.nodup_iff.mpr (h.fs.nodup_list p)
    dsimp only
    rw [if_neg hlong, if_neg hlong]
    apply (recurseEntries_both hnodup hproper hproc hlen).bind
    rintro ⟨lst, complete⟩ ⟨lst', complete'⟩ ⟨hcomplete, -, ps, hps, hlst, hlst'⟩
    have hcomplete : complete = true := hcomplete
    have hlst : lst = listedFrom h.fs p s true ps := hlst
    have hlst' : lst' = listedFrom h.fs p s false ps := hlst'
    subst hcomplete hlst hlst'
    have hleaf : ¬ (complete' = true ∧ false = true ∧ ns = []) := fun hno =>
      Bool.false_ne_true hno.2.1
    dsimp only
    rw [if_neg hleaf]
    by_cases hempty : ns = []
    · -- an empty directory is a leaf itself
      rw [if_pos ⟨rfl, rfl, hempty⟩]
      have hlist : h.fs.list p = [] := by
        rw [hempty] at hperm
        exact hperm.symm.eq_nil
      rw [hempty] at hps
      have hps : ps = [] := by
        rw [List.eq_nil_iff_forall_not_mem]
        intro q hq
        obtain ⟨⟨n, hn, -⟩, -⟩ := (hps.mem q).mp hq
        cases hn
      subst hps
      refine yieldsBoth_ret ⟨[p], FileSystem.under_of_empty hd hlist, ?_, ?_⟩
      · simp [listedFrom, Listed, leafPath, hd, withSep]
      · simp [listedFrom, Listed, hd]
    · rw [if_neg fun hno => hempty hno.2.2]
      exact yieldsBoth_ret ⟨ps, FileSystem.under_of_among hd hperm hempty hps, rfl, rfl⟩

/-! ### The list -/

/-- The paths of the regular files below a directory. -/
def filePaths (fs : FileSystem) (p : Path) (s : Bytes) : Set Bytes :=
  {x | ∃ r ino d, fs.node (p ++ r) = some (.file ino d) ∧ x = pathBelow s r}

/-- The paths of the directories below a directory that have no entries, with a separator at the
    end. -/
def emptyDirPaths (fs : FileSystem) (p : Path) (s : Bytes) : Set Bytes :=
  {x | ∃ r, fs.node (p ++ r) = some .dir ∧ fs.list (p ++ r) = [] ∧ x = withSep (pathBelow s r)}

/-- A regular file is not the directory itself. -/
theorem ne_nil_of_not_dir (hd : fs.node p = some .dir) (hr : fs.node (p ++ r) ≠ some .dir) :
    r ≠ [] := by
  rintro rfl
  rw [List.append_nil] at hr
  exact hr hd

/-- What is listed. -/
theorem mem_listedFrom {ps : List Path} (hps : fs.Under p ps) (leaf : Bool) (x : Bytes) :
    x ∈ listedFrom fs p s leaf ps ↔
      x ∈ filePaths fs p s ∨ leaf = true ∧ x ∈ emptyDirPaths fs p s := by
  unfold listedFrom
  rw [List.mem_map]
  constructor
  · rintro ⟨q, hq, rfl⟩
    obtain ⟨hq, hlisted⟩ := List.mem_filter.mp hq
    obtain ⟨⟨r, rfl⟩, hleaf⟩ := (hps.mem q).mp hq
    obtain ⟨nd, hnd⟩ := Option.ne_none_iff_exists'.mp hleaf.1
    unfold Listed at hlisted
    unfold leafPath
    rw [hnd] at hlisted ⊢
    rw [List.drop_left]
    cases nd with
    | dir => exact .inr ⟨hlisted, r, hnd, hleaf.2 hnd, if_pos rfl⟩
    | file ino d => exact .inl ⟨r, ino, d, hnd, if_neg (by simp)⟩
    | special => cases hlisted
  · rintro (⟨r, ino, d, hnd, rfl⟩ | ⟨hleaf, r, hnd, hlist, rfl⟩)
    · have hfile : fs.IsLeaf (p ++ r) := ⟨by rw [hnd]; exact Option.some_ne_none _, by simp [hnd]⟩
      have hmem : p ++ r ∈ ps := (hps.mem _).mpr ⟨List.prefix_append p r, hfile⟩
      exact ⟨p ++ r, List.mem_filter.mpr ⟨hmem, by simp [Listed, hnd]⟩, by simp [leafPath, hnd]⟩
    · have hempty : fs.IsLeaf (p ++ r) :=
        ⟨by rw [hnd]; exact Option.some_ne_none _, fun _ => hlist⟩
      have hmem : p ++ r ∈ ps := (hps.mem _).mpr ⟨List.prefix_append p r, hempty⟩
      exact ⟨p ++ r, List.mem_filter.mpr ⟨hmem, by simp [Listed, hnd, hleaf]⟩,
        by simp [leafPath, hnd]⟩

section Leaves

variable {ps : List Path} (hd : fs.node p = some .dir) (hw : WalkableBelow fs p s)

include hd hw

/-- Directories are told apart by the separator at the end of their paths. -/
theorem leafPath_getLast (hnode : fs.node (p ++ r) ≠ none) :
    (leafPath fs p s (p ++ r)).getLast? = some sep ↔ fs.node (p ++ r) = some .dir := by
  unfold leafPath
  rw [List.drop_left]
  by_cases hdir : fs.node (p ++ r) = some .dir
  · rw [if_pos hdir]
    exact ⟨fun _ => hdir, fun _ => getLast_withSep _⟩
  · rw [if_neg hdir]
    exact ⟨fun hl => absurd hl (getLast_pathBelow (ne_nil_of_not_dir hd hdir) (hw.names r hnode)),
      fun h => absurd h hdir⟩

/-- What a leaf is called after the path of the directory gives its location. -/
theorem leafPath_eq (hnode : fs.node (p ++ r) ≠ none) :
    ∃ t, leafPath fs p s (p ++ r) = withSep s ++ t ∧
      components t = if fs.node (p ++ r) = some .dir then r ++ [[]] else r := by
  have hproper := hw.names r hnode
  have hjoined : r ≠ [] → components (joined r) = r :=
    components_joined fun c hc => (hproper c hc).sep
  unfold leafPath
  rw [List.drop_left]
  by_cases hdir : fs.node (p ++ r) = some .dir
  · rw [if_pos hdir, if_pos hdir]
    by_cases hr : r = []
    · subst hr
      exact ⟨[], by rw [pathBelow_nil, List.append_nil], components_of_not_mem List.not_mem_nil⟩
    · refine ⟨joined r ++ [sep], ?_, ?_⟩
      · have hlast := getLast_pathBelow (s := s) hr hproper
        rw [withSep, if_neg hlast, pathBelow, if_neg hr, List.append_assoc]
      · rw [components_append_sep, hjoined hr, components_of_not_mem List.not_mem_nil]
  · rw [if_neg hdir, if_neg hdir]
    have hr := ne_nil_of_not_dir hd hdir
    exact ⟨joined r, by rw [pathBelow, if_neg hr], hjoined hr⟩

/-- Two leaves have two paths. -/
theorem leafPath_inj {r' : Path} (hnode : fs.node (p ++ r) ≠ none)
    (hnode' : fs.node (p ++ r') ≠ none)
    (heq : leafPath fs p s (p ++ r) = leafPath fs p s (p ++ r')) : r = r' := by
  have hdir : fs.node (p ++ r) = some .dir ↔ fs.node (p ++ r') = some .dir := by
    rw [← leafPath_getLast hd hw hnode, heq, leafPath_getLast hd hw hnode']
  obtain ⟨t, ht, hcomp⟩ := leafPath_eq hd hw hnode
  obtain ⟨t', ht', hcomp'⟩ := leafPath_eq hd hw hnode'
  rw [ht, ht'] at heq
  rw [List.append_cancel_left heq, hcomp'] at hcomp
  by_cases h : fs.node (p ++ r) = some .dir
  · rw [if_pos h, if_pos (hdir.mp h)] at hcomp
    exact (List.append_cancel_right hcomp).symm
  · rw [if_neg h, if_neg fun h' => h (hdir.mpr h')] at hcomp
    exact hcomp.symm

/-- Nothing is listed twice. -/
theorem nodup_listedFrom (hps : fs.Under p ps) (leaf : Bool) :
    (listedFrom fs p s leaf ps).Nodup := by
  refine (hps.nodup.filter _).map_on fun q hq q' hq' heq => ?_
  obtain ⟨⟨r, rfl⟩, hleaf⟩ := (hps.mem q).mp (List.mem_of_mem_filter hq)
  obtain ⟨⟨r', rfl⟩, hleaf'⟩ := (hps.mem q').mp (List.mem_of_mem_filter hq')
  rw [leafPath_inj hd hw hleaf.1 hleaf'.1 heq]

/-- Without the empty directories, the list is the part of it that does not end in a separator. -/
theorem listedFrom_false (hps : fs.Under p ps) : listedFrom fs p s false ps =
    (listedFrom fs p s true ps).filter fun x => x.getLast? ≠ some sep := by
  unfold listedFrom
  rw [List.filter_map, List.filter_filter]
  refine congrArg _ (List.filter_congr fun q hq => ?_)
  obtain ⟨⟨r, rfl⟩, hleaf⟩ := (hps.mem q).mp hq
  have hlast := leafPath_getLast hd hw hleaf.1
  obtain ⟨nd, hnd⟩ := Option.ne_none_iff_exists'.mp hleaf.1
  rw [hnd] at hlast
  cases nd with
  | dir => simp [Listed, hnd, hlast.mpr rfl]
  | file ino d =>
    have hno : (leafPath fs p s (p ++ r)).getLast? ≠ some sep := fun h => by
      cases hlast.mp h
    simp [Listed, hnd, hno]
  | special => simp [Listed, hnd]

end Leaves

/-- **Complete and without duplicates.**  The walk lists every regular file below the directory, and
    if it is asked to, every empty directory, each once and nothing else.  If it is not asked to,
    the rest of the list stays the same. -/
theorem recurseDir_complete {l : Session} (hl : l.Sturdy) (hs : h.fs.resolve h.cwd s = some p)
    (hd : h.fs.node p = some .dir) (hw : WalkableBelow h.fs p s)
    (hdepth : ∀ r, h.fs.node (p ++ r) = some .dir → r.length < maxRecurseDepth) :
    ∃ all files l',
      (recurseDir true maxRecurseDepth s).run respond (l, h) = (some all, l', h) ∧
      (recurseDir false maxRecurseDepth s).run respond (l, h) = (some files, l', h) ∧
      all.Nodup ∧ (∀ x, x ∈ all ↔ x ∈ filePaths h.fs p s ∨ x ∈ emptyDirPaths h.fs p s) ∧
      files.Nodup ∧ (∀ x, x ∈ files ↔ x ∈ filePaths h.fs p s) ∧
      files = all.filter fun x => x.getLast? ≠ some sep := by
  have hboth := recurseDir_both (A := fun o => ∀ k, o.fs k = false) (fun _ hfs => hfs)
    maxRecurseDepth hs hd hw hdepth
  obtain ⟨all, files, ⟨l', h'⟩, hall, hfiles, ⟨-, hh⟩, ps, hps, rfl, rfl⟩ := hboth (l, h) ⟨hl, rfl⟩
  have hh : h' = h := hh
  subst hh
  refine ⟨_, _, l', hall, hfiles, nodup_listedFrom hd hw hps true, fun x => ?_,
    nodup_listedFrom hd hw hps false, fun x => ?_, listedFrom_false hd hw hps⟩
  · rw [mem_listedFrom hps]
    simp
  · rw [mem_listedFrom hps]
    simp

/-- A directory in a directory. -/
theorem recurseDir_complete_nested : ∃ all l', (recurseDir true maxRecurseDepth (ascii "/a")).run
    respond (.fresh [] .calm, ⟨.chain [ascii "a", ascii "b"], [], .empty⟩)
      = (some all, l', ⟨.chain [ascii "a", ascii "b"], [], .empty⟩) ∧ ascii "/a/b/" ∈ all := by
  have hbelow : ∀ r, (FileSystem.chain [ascii "a", ascii "b"]).node ([ascii "a"] ++ r) ≠ none →
      r = [] ∨ r = [ascii "b"] := by
    intro r hr
    have hpre : [ascii "a"] ++ r <+: [ascii "a"] ++ [ascii "b"] := by
      by_contra hno
      exact hr (if_neg hno)
    rw [List.prefix_append_right_inj] at hpre
    cases r with
    | nil => exact .inl rfl
    | cons c r =>
      obtain ⟨rfl, hnil⟩ := List.cons_prefix_cons.mp hpre
      rw [List.prefix_nil.mp hnil]
      exact .inr rfl
  have hw : WalkableBelow (.chain [ascii "a", ascii "b"]) [ascii "a"] (ascii "/a") := by
    refine ⟨fun r hr => ?_, fun r hr => ?_⟩
    · rcases hbelow r hr with rfl | rfl
      · exact List.forall_mem_nil _
      · exact List.forall_mem_singleton.mpr ⟨by decide, by decide, by decide, by decide⟩
    · rcases hbelow r hr with rfl | rfl <;> decide
  obtain ⟨all, files, l', hall, -, -, hmem, -⟩ := recurseDir_complete (s := ascii "/a")
    (h := ⟨.chain [ascii "a", ascii "b"], [], .empty⟩) (l := .fresh [] .calm) (fun _ => rfl)
    (by decide : _ = some [ascii "a"]) (by decide) hw fun r hr => by
      rcases hbelow r (by rw [hr]; exact Option.some_ne_none _) with rfl | rfl <;> decide
  refine ⟨all, l', hall, (hmem _).mpr (.inr ⟨[ascii "b"], by decide, ?_, by decide⟩)⟩
  exact FileSystem.chain_list _

end ClipShare
