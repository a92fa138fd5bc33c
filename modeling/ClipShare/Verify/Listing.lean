import ClipShare.Posix.Leaves
import ClipShare.Verify.Exchange
import ClipShare.Verify.Frames
import ClipShare.Verify.Url
import ClipShare.Verify.RecurseDir

namespace ClipShare

open Interaction Posix Prog

/-!
# The list of copied files

What `get_copied_dirs_files` lists for entries of one directory: every regular file and every empty
directory under them, each once.

* `absolute` / `listedPath` — the absolute path of a location, and the path under which a leaf is
  listed;
* `Walkable` — what the walk asks of the files;
* `ListsBoth.under` — where all leaves are regular files or directories, `_recurse_dir` lists them;
* `copiedLoop_lists` — the loop over the lines lists the leaves of all the copied entries;
* `getCopiedDirsFiles_lists` — the whole function, and the bytes that are left out of every name.
-/

variable {A : Oracle → Prop} {h : Host} {fs : FileSystem} {p q : Path}

/-! ### Absolute paths -/

/-- The absolute path of a location other than the root. -/
def absolute (p : Path) : Bytes := sep :: joined p

/-- The path under which a leaf is listed: a directory gets a separator at its end. -/
def listedPath (fs : FileSystem) (p : Path) : Bytes :=
  if fs.node p = some .dir then absolute p ++ [sep] else absolute p

theorem absolute_concat (hp : p ≠ []) (n : Name) :
    absolute (p ++ [n]) = absolute p ++ [sep] ++ n := by
  obtain ⟨c, cs, rfl⟩ := List.exists_cons_of_ne_nil hp
  unfold absolute
  rw [joined_concat]
  simp

theorem absolute_ne_nil (p : Path) : absolute p ≠ [] := List.cons_ne_nil _ _

theorem zero_not_mem_absolute (hp : p ≠ []) (hc : ∀ c ∈ p, Proper c ∧ (0 : UInt8) ∉ c) :
    (0 : UInt8) ∉ absolute p := by
  obtain ⟨-, -, -, hzero⟩ := joined_proper hp hc
  unfold absolute
  rw [List.mem_cons, not_or]
  exact ⟨by decide, hzero⟩

theorem absolute_getLast (hp : p ≠ []) (hc : ∀ c ∈ p, Proper c ∧ (0 : UInt8) ∉ c) :
    (absolute p).getLast? ≠ some sep := by
  obtain ⟨hcomp, -, hlast, -⟩ := joined_proper hp hc
  have hne : joined p ≠ [] := by
    intro h0
    rw [h0, components_of_not_mem (by simp)] at hcomp
    exact (hc [] (by rw [← hcomp]; exact List.mem_singleton_self _)).1.ne rfl
  unfold absolute
  rw [List.getLast?_cons_of_ne_nil hne]
  exact hlast

/-- An absolute path names its location. -/
theorem resolve_absolute (hp : p ≠ []) (hc : ∀ c ∈ p, Proper c ∧ (0 : UInt8) ∉ c)
    (hnode : fs.node p ≠ none) (cwd : Path) : fs.resolve cwd (absolute p) = some p := by
  obtain ⟨hcomp, -, -, -⟩ := joined_proper hp hc
  have hcomps : components (absolute p) = [] :: p := by
    unfold absolute
    rw [components_cons_sep, hcomp]
  have hup : dotdot ∉ ([] : Name) :: p := by
    rw [List.mem_cons, not_or]
    exact ⟨by decide, fun hmem => (hc _ hmem).1.up rfl⟩
  have hplain : plain ([] :: p) = p := by
    have hsep : stays [] = true := rfl
    rw [plain_cons, if_pos hsep]
    exact plain_of_proper fun c hmem => (hc c hmem).1
  have hend : endsInDir ([] :: p) = false := by
    unfold endsInDir
    rw [List.getLast?_cons_of_ne_nil hp, List.getLast?_eq_some_getLast hp]
    exact (hc _ (List.getLast_mem hp)).1.stays
  have hstart : FileSystem.start cwd (absolute p) = [] := if_pos rfl
  unfold FileSystem.resolve
  rw [if_neg (absolute_ne_nil p), hstart, hcomps, FileSystem.walk_eq hup, hplain, hend,
    List.nil_append, if_pos ⟨Option.ne_none_iff_isSome.mp hnode, nofun⟩]

/-! ### Walking through a directory -/

/-- All that is found under a location has an ordinary name and a path that fits the buffers, and is
    a regular file or a directory. -/
structure Walkable (fs : FileSystem) (p : Path) : Prop where
  names : ∀ q, p <+: q → fs.node q ≠ none → ∀ c ∈ q, Proper c ∧ (0 : UInt8) ∉ c
  short : ∀ q, p <+: q → fs.node q ≠ none → (absolute q).length ≤ maxFileNameLen
  plain : ∀ q, p <+: q → fs.node q ≠ some .special

theorem Walkable.below (hw : Walkable fs p) (hpq : p <+: q) : Walkable fs q where
  names r hr := hw.names r (hpq.trans hr)
  short r hr := hw.short r (hpq.trans hr)
  plain r hr := hw.plain r (hpq.trans hr)

/-- The program lists the leaves under a location. -/
def ListsUnder (A : Oracle → Prop) (h : Host) (p : Path) (prog : Proc (List Bytes)) : Prop :=
  prog.Yields respond (Reading A h) fun lst =>
    ∃ ps, lst = ps.map (listedPath h.fs) ∧ h.fs.Under p ps

theorem withSep_absolute (hp : p ≠ []) (hc : ∀ c ∈ p, Proper c ∧ (0 : UInt8) ∉ c) :
    withSep (absolute p) = absolute p ++ [sep] := if_neg (absolute_getLast hp hc)

/-- The paths below an absolute path are absolute. -/
theorem pathBelow_absolute (hp : p ≠ []) (hc : ∀ c ∈ p, Proper c ∧ (0 : UInt8) ∉ c) (r : Path) :
    pathBelow (absolute p) r = absolute (p ++ r) := by
  unfold pathBelow
  by_cases hr : r = []
  · rw [if_pos hr, hr, List.append_nil]
  · rw [if_neg hr, withSep_absolute hp hc]
    unfold absolute
    rw [joined_append hp hr]
    simp

theorem Walkable.walkableBelow (hp : p ≠ []) (hw : Walkable fs p) (hnode : fs.node p ≠ none) :
    WalkableBelow fs p (absolute p) where
  names r hr c hc :=
    (hw.names (p ++ r) (List.prefix_append p r) hr c (List.mem_append_right p hc)).1
  short r hr := by
    rw [pathBelow_absolute hp (hw.names p List.prefix_rfl hnode)]
    exact hw.short (p ++ r) (List.prefix_append p r) hr

/-- Where there are only regular files and directories, all leaves are listed. -/
theorem ListsBoth.under (hp : p ≠ []) (hw : Walkable h.fs p) (hnode : h.fs.node p ≠ none)
    {prog prog' : Proc (List Bytes)} (hboth : ListsBoth A h p (absolute p) prog prog') :
    ListsUnder A h p prog := by
  have hnames := hw.names p List.prefix_rfl hnode
  refine hboth.left.mono ?_
  rintro _ ⟨_, ps, hps, rfl, -⟩
  refine ⟨ps, ?_, hps⟩
  have hall : ps.filter (Listed h.fs true) = ps := by
    refine List.filter_eq_self.mpr fun q hq => ?_
    obtain ⟨hpre, hleaf⟩ := (hps.mem q).mp hq
    obtain ⟨nd, hnd⟩ := Option.ne_none_iff_exists'.mp hleaf.1
    have hplain := hw.plain q hpre
    unfold Listed
    rw [hnd] at hplain ⊢
    cases nd with
    | dir => rfl
    | file ino d => rfl
    | special => exact absurd rfl hplain
  unfold listedFrom
  rw [hall]
  refine List.map_congr_left fun q hq => ?_
  obtain ⟨⟨r, rfl⟩, hleaf⟩ := (hps.mem q).mp hq
  have hq := hw.names (p ++ r) (List.prefix_append p r) hleaf.1
  unfold leafPath listedPath
  rw [List.drop_left, pathBelow_absolute hp hnames,
    withSep_absolute (List.append_ne_nil_of_left_ne_nil hp r) hq]

/-! ### The lines of the clipboard -/

/-- Where the names of the entries of a directory start in their paths. -/
def nameStart (p : Path) : Nat := if p = [] then 0 else (absolute p).length + 1

theorem parentLength_absolute (p : Path) {n : Name} (hn : sep ∉ n) :
    parentLength (absolute (p ++ [n])) = nameStart p := by
  unfold parentLength nameStart
  by_cases hp : p = []
  · have hpath : absolute (p ++ [n]) = [] ++ sep :: n := by
      rw [hp]
      simp [absolute]
    rw [hpath, beforeLast_append [] n hn, if_pos hp]
    rfl
  · have hpath : absolute (p ++ [n]) = absolute p ++ sep :: n := by
      rw [absolute_concat hp]
      simp
    rw [hpath, beforeLast_append (absolute p) n hn, if_neg hp]
    dsimp only
    rw [if_neg (absolute_ne_nil p)]

/-- What an entry of a directory needs to be listed with all that is in it. -/
structure Listable (fs : FileSystem) (p : Path) (n : Name) : Prop where
  walkable : Walkable fs (p ++ [n])
  there : fs.node (p ++ [n]) ≠ none
  depth : ∀ q, fs.node (p ++ n :: q) = some .dir → q.length < maxRecurseDepth
  short : (absolute (p ++ [n])).length ≤ 680

theorem copiedPath_lists (hA : ∀ o, A o → ∀ k, o.fs k = false) {n : Name}
    (hn : Listable h.fs p n) :
    ListsUnder A h (p ++ [n]) (copiedPath true (absolute (p ++ [n]))) := by
  have hne : p ++ [n] ≠ [] := by simp
  have hnames := hn.walkable.names _ List.prefix_rfl hn.there
  have hres := resolve_absolute hne hnames hn.there h.cwd
  have hrec : h.fs.node (p ++ [n]) = some .dir → ListsBoth A h (p ++ [n]) (absolute (p ++ [n]))
      (recurseDir true maxRecurseDepth (absolute (p ++ [n])))
      (recurseDir false maxRecurseDepth (absolute (p ++ [n]))) := by
    intro hd
    refine recurseDir_both hA _ hres hd (hn.walkable.walkableBelow hne hn.there) fun r hr => ?_
    exact hn.depth r (by simpa using hr)
  exact (processPath_both hres hn.there hrec).under hne hn.walkable hn.there

/-- The URLs of entries of a directory. -/
def urisOf (p : Path) (ns : List Name) : Bytes := uriList (ns.map fun n => absolute (p ++ [n]))

/-- **Loop lemma.**  The loop over the lines lists the leaves under the copied entries. -/
theorem copiedLoop_lists (hA : ∀ o, A o → ∀ k, o.fs k = false) {ns : List Name} (hnodup : ns.Nodup)
    (hns : ∀ n ∈ ns, Listable h.fs p n) (first : Bool) :
    (copiedDirsFilesLoop true first ns.length (lineBuffer (urisOf p ns))).Yields respond
      (Reading A h) fun r => (first = true → ns ≠ [] → r.pathLen = nameStart p) ∧
        ∃ ps, r.lst = some (ps.map (listedPath h.fs)) ∧ h.fs.Among p ns ps := by
  induction ns generalizing first with
  | nil => exact yields_ret ⟨fun _ hne => absurd rfl hne, [], rfl, FileSystem.among_nil⟩
  | cons n ns ih =>
    obtain ⟨hn, hnodup⟩ := List.nodup_cons.mp hnodup
    have ih := ih hnodup (fun m hm => hns m (List.mem_cons_of_mem _ hm)) false
    have hl := hns n List.mem_cons_self
    have hne : p ++ [n] ≠ [] := by simp
    have hnames := hl.walkable.names _ List.prefix_rfl hl.there
    have hproper : Proper n := (hnames n (by simp)).1
    -- the line is decoded to the path, and nothing is cut off
    obtain ⟨t, hbuf, ht, hrest⟩ :=
      exists_uriLine (absolute (p ++ [n])) (ns.map fun n => absolute (p ++ [n]))
    have hdec := urlDecode_urlEncode (absolute_ne_nil (p ++ [n])) ht
    have hdrop := drop_overwrite (s := absolute (p ++ [n])) (t := t)
      (by have := hl.short; unfold maxFileNameLen; omega) ht
    have hchop : (if first then chopSep (absolute (p ++ [n])) else absolute (p ++ [n]))
        = absolute (p ++ [n]) := by
      unfold chopSep
      rw [if_neg (absolute_getLast hne hnames), ite_self]
    have hlong : ¬ ((absolute (p ++ [n])).length = 0 ∨
      (absolute (p ++ [n])).length > maxFileNameLen) := by
      have hpos := List.length_pos_of_ne_nil (absolute_ne_nil (p ++ [n]))
      have hshort := hl.short
      unfold maxFileNameLen
      omega
    have hstart : lineBuffer (urisOf p (n :: ns)) = urlEncode (absolute (p ++ [n])) ++ t := hbuf
    rw [List.length_cons]
    unfold copiedDirsFilesLoop
    rw [hstart, hdec]
    dsimp only
    rw [if_neg hlong, hchop, cstr_of_not_mem (zero_not_mem_absolute hne hnames), hdrop, hrest]
    apply (copiedPath_lists hA hl).bind
    rintro lst ⟨ps, rfl, hps⟩
    apply ih.bind
    rintro ⟨len, lst⟩ ⟨-, qs, hlst, hqs⟩
    have hlst : lst = some (qs.map (listedPath h.fs)) := hlst
    subst hlst
    refine yields_ret ⟨fun hfirst _ => ?_, ps ++ qs, ?_, .cons hn hps hqs⟩
    · rw [hfirst]
      exact parentLength_absolute p hproper.sep
    · rw [List.map_append]
      rfl

variable {l : Session} {ns : List Name}

theorem lineCount_urisOf (p : Path) (hne : ns ≠ []) : lineCount (urisOf p ns) = ns.length := by
  unfold urisOf
  rw [lineCount_uriList (by simpa using hne), List.length_map]

/-- **The list of copied files.**  When entries of one directory are on the clipboard, the leaves
    under them are listed, and the name of each starts behind that directory. -/
theorem getCopiedDirsFiles_lists (hl : l.Sturdy) (hclip : OnClipboard (urisOf p ns) h)
    (hne : ns ≠ []) (hfew : ns.length < 0xFFFFFFFF) (hnodup : ns.Nodup)
    (hns : ∀ n ∈ ns, Listable h.fs p n) :
    ∃ l' ps, (getCopiedDirsFiles true).run respond (l, h)
        = (some ⟨nameStart p, some (ps.map (listedPath h.fs))⟩, l', h) ∧
      l.SameSocket l' ∧ h.fs.Among p ns ps := by
  have hA : ∀ o : Oracle, (∀ k, o.fs k = false) → ∀ k, o.fs k = false := fun _ h => h
  obtain ⟨⟨len, o⟩, ⟨l', h'⟩, hloop, ⟨-, hh⟩, hlen, ps, hlst, hps⟩ :=
    copiedLoop_lists (h := h) hA hnodup hns true (l.tick.tick, h) ⟨hl, rfl⟩
  have hh : h' = h := hh
  have hlen : len = nameStart p := hlen rfl hne
  have hlst : o = some (ps.map (listedPath h.fs)) := hlst
  subst hh hlen hlst
  have hrun : (getCopiedDirsFiles true).run respond (l, h')
      = (some ⟨nameStart p, some (ps.map (listedPath h'.fs))⟩, l', h') := by
    unfold getCopiedDirsFiles
    rw [run_bind_of_some respond (getCopiedFilesAsStr_run hl hclip (zero_not_mem_uriList _))]
    dsimp only
    rw [lineCount_urisOf p hne, if_neg (not_le.mpr hfew)]
    exact hloop
  have hsame := ((OffSocket.getCopiedDirsFiles true).sat l h').run
  rw [hrun] at hsame
  exact ⟨l', ps, hrun, hsame, hps⟩

end ClipShare
