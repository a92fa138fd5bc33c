import ClipShare.Verify.Walk

namespace ClipShare

open Interaction Posix Prog

/-!
# The names of copied files

`get_copied_dirs_files` takes the length of the parent directory of the first copied path, and
the names that are sent are what follows that many bytes of every listed path.  That is right as
long as the other copied paths are in the same directory, which nothing checks.

* `copiedEntries` — the copied paths, as the loop decodes them;
* `nameOffset` — the number of bytes that are left out of every listed path;
* `Suffixed` — leaving out these bytes leaves a name;
* `copiedLoop_yields` — what the loop lists, from what each path contributes;
* `copied_paths_named` — when all listed paths have a name.
-/

/-- The copied paths that the loop of `get_copied_dirs_files` comes to: it stops at the first line
    that is not a file URL. -/
def entriesFrom : Bool → Nat → Bytes → List Bytes
  | _, 0, _ => []
  | first, cnt + 1, buf =>
      match urlDecode buf with
      | none => []
      | some s =>
        if s.length = 0 ∨ s.length > maxFileNameLen then []
        else
          let s := if first then chopSep s else s
          cstr s :: entriesFrom false cnt ((overwrite buf s).drop (lineOffset buf))

/-- The copied paths in a list of URIs. -/
def copiedEntries (uris : Bytes) : List Bytes := entriesFrom true (lineCount uris) (lineBuffer uris)

/-- The number of bytes that are left out of every listed path: the parent directory of the first
    copied path, with its separator. -/
def nameOffset (entries : List Bytes) : Nat := match entries.head? with
  | none => 0
  | some fname => parentLength fname

/-- Leaving out `n` bytes leaves a name: the path is longer, and a separator comes before. -/
def Suffixed (n : Nat) (path : Bytes) : Prop := n < path.length ∧ (n = 0 ∨ path[n - 1]? = some sep)

/-- A path that goes on has a name if its beginning has one. -/
theorem Suffixed.extend {n : Nat} {p x : Bytes} (hp : Suffixed n p) (h : p <+: x) :
    Suffixed n x := by
  obtain ⟨hlt, hsep⟩ := hp
  obtain ⟨t, rfl⟩ := h
  refine ⟨?_, ?_⟩
  · rw [List.length_append]
    omega
  · rcases hsep with hzero | hsep
    · exact .inl hzero
    · refine .inr ?_
      rw [List.getElem?_append_left (by omega)]
      exact hsep

/-- The path of a file has a name if it would have one as a directory. -/
theorem Suffixed.of_withSep {n : Nat} {path : Bytes} (hne : path ≠ [])
    (h : Suffixed n (withSep path)) : Suffixed n path := by
  unfold withSep at h
  by_cases hlast : path.getLast? = some sep
  · rw [if_pos hlast] at h
    exact h
  · rw [if_neg hlast] at h
    obtain ⟨hlt, hsep⟩ := h
    have hpos : 0 < path.length := List.length_pos_iff.mpr hne
    rw [List.length_append, List.length_singleton] at hlt
    rcases hsep with hzero | hsep
    · exact ⟨by omega, .inl hzero⟩
    · by_cases hn : n = 0
      · exact ⟨by omega, .inl hn⟩
      · have hin : n - 1 < path.length := by omega
        rw [List.getElem?_append_left hin] at hsep
        refine ⟨?_, .inr hsep⟩
        -- otherwise the separator would be the last byte of the path
        by_contra hle
        apply hlast
        have hn' : n - 1 = path.length - 1 := by omega
        rw [List.getLast?_eq_getElem?, ← hn']
        exact hsep

variable {A : Oracle → Prop} {h : Host}

/-- **Loop lemma.**  What the loop lists comes from a copied path, and what a copied path surely
    contributes is listed. -/
theorem copiedLoop_yields (leaf first : Bool) (cnt : Nat) (buf : Bytes) :
    (copiedDirsFilesLoop leaf first cnt buf).Yields respond (Reading A h) fun r =>
      r.pathLen = (if first then nameOffset (entriesFrom first cnt buf) else 0) ∧
      ∃ lst, r.lst = some lst ∧ (∀ x ∈ lst, ∃ e ∈ entriesFrom first cnt buf, From h e x) ∧
        ∀ e ∈ entriesFrom first cnt buf, ∀ x,
          (copiedPath leaf e).Yields respond (Reading A h) (x ∈ ·) → x ∈ lst := by
  induction cnt generalizing first buf with
  | zero =>
    refine yields_ret ⟨?_, [], rfl, List.forall_mem_nil _, List.forall_mem_nil _⟩
    cases first <;> rfl
  | succ cnt ih =>
    -- where the loop stops, nothing is listed
    have hstop : entriesFrom first (cnt + 1) buf = [] →
        (.ret ⟨0, some []⟩ : Proc DirFiles).Yields respond (Reading A h) fun r =>
          r.pathLen = (if first then nameOffset (entriesFrom first (cnt + 1) buf) else 0) ∧
          ∃ lst, r.lst = some lst ∧
            (∀ x ∈ lst, ∃ e ∈ entriesFrom first (cnt + 1) buf, From h e x) ∧
            ∀ e ∈ entriesFrom first (cnt + 1) buf, ∀ x,
              (copiedPath leaf e).Yields respond (Reading A h) (x ∈ ·) → x ∈ lst := by
      intro hnil
      rw [hnil]
      refine yields_ret ⟨?_, [], rfl, List.forall_mem_nil _, List.forall_mem_nil _⟩
      cases first <;> rfl
    unfold copiedDirsFilesLoop
    cases hdec : urlDecode buf with
    | none =>
      apply hstop
      simp only [entriesFrom, hdec]
    | some s =>
      dsimp only
      by_cases hlong : s.length = 0 ∨ s.length > maxFileNameLen
      · rw [if_pos hlong]
        apply hstop
        simp only [entriesFrom, hdec, if_pos hlong]
      · rw [if_neg hlong]
        have hentries : entriesFrom first (cnt + 1) buf
            = cstr (if first then chopSep s else s) :: entriesFrom false cnt
              ((overwrite buf (if first then chopSep s else s)).drop (lineOffset buf)) := by
          simp only [entriesFrom, hdec, if_neg hlong]
        rw [hentries]
        apply (copiedPath_from leaf _).sure.bind
        rintro lst ⟨hfrom, hsure⟩
        apply (ih false _).bind
        rintro ⟨n, o⟩ ⟨-, rest, rfl, hrest, hrests⟩
        refine yields_ret ⟨rfl, lst ++ rest, rfl, fun x hx => ?_, fun e he x hx => ?_⟩
        · rcases List.mem_append.mp hx with hx | hx
          · exact ⟨_, List.mem_cons_self, hfrom x hx⟩
          · obtain ⟨e, he, hex⟩ := hrest x hx
            exact ⟨e, List.mem_cons_of_mem _ he, hex⟩
        · rcases List.mem_cons.mp he with rfl | he
          · exact List.mem_append_left _ (hsure _ hx)
          · exact List.mem_append_right _ (hrests e he x hx)

/-! ### Lists of URIs -/

/-- The clipboard offers this list of URIs. -/
def OffersUris (uris : Bytes) (l : Session) (h : Host) : Prop :=
  (getCopiedFilesAsStr.run respond (l, h)).1 = some (some uris)

/-- What is listed. -/
def Lists (leaf : Bool) (l : Session) (h : Host) (n : Nat) (lst : List Bytes) : Prop :=
  ((getCopiedDirsFiles leaf).run respond (l, h)).1 = some ⟨n, some lst⟩

variable {uris : Bytes} {l : Session}

/-- What becomes of the list of URIs. -/
theorem OffersUris.run (ho : OffersUris uris l h) (hcount : lineCount uris < 0xFFFFFFFF)
    (leaf : Bool) (hA : A l.oracle) : ∃ s, Reading A h s ∧
      (getCopiedDirsFiles leaf).run respond (l, h)
        = (copiedDirsFilesLoop leaf true (lineCount uris) (lineBuffer uris)).run respond s := by
  obtain ⟨o, s, hrun, hs, -⟩ := getCopiedFilesAsStr_yields (A := A) (l, h) ⟨hA, rfl⟩
  have ho' : o = some uris := by
    unfold OffersUris at ho
    rw [hrun] at ho
    exact Option.some.inj ho
  refine ⟨s, hs, ?_⟩
  unfold getCopiedDirsFiles
  rw [run_bind_of_some respond hrun, ho']
  dsimp only
  rw [if_neg (by omega)]

/-- Every listed path comes from a copied path, and the offset is that of the first one. -/
theorem OffersUris.lists (ho : OffersUris uris l h) (hcount : lineCount uris < 0xFFFFFFFF)
    {leaf : Bool} {n : Nat} {lst : List Bytes} (hl : Lists leaf l h n lst) :
    n = nameOffset (copiedEntries uris) ∧ ∀ x ∈ lst, ∃ e ∈ copiedEntries uris, From h e x := by
  obtain ⟨s, hs, hrun⟩ := ho.run (A := fun _ => True) hcount leaf trivial
  obtain ⟨r, s', hloop, -, hn, lst', hlst, hfrom, -⟩ := copiedLoop_yields leaf true _ _ s hs
  unfold Lists at hl
  rw [hrun, hloop] at hl
  have hr : r = ⟨n, some lst⟩ := Option.some.inj hl
  rw [hr] at hn hlst
  have hlst' : lst = lst' := Option.some.inj hlst
  rw [hlst']
  exact ⟨hn, hfrom⟩

/-- A path that is listed for a copied path has a name, if the copied path has one. -/
theorem From.suffixed {e x : Bytes} {n : Nat} (hfrom : From h e x)
    (hgood : (statAt h e).isSome → Suffixed n (withSep e)) : Suffixed n x := by
  rcases hfrom with ⟨hfile, rfl⟩ | ⟨hdir, hpre⟩
  · have hgood := hgood (by rw [hfile]; rfl)
    apply hgood.of_withSep
    rintro rfl
    cases hfile
  · exact (hgood (by rw [hdir]; rfl)).extend hpre

/-! ### A path that is an empty directory -/

/-- A host with this clipboard, where a path names an empty directory. -/
def emptyDirHost (uris path : Bytes) : Host where
  fs := .chain (plain (components path))
  cwd := []
  desktop := { Desktop.empty with clipboard := uriClipboard uris }

/-- The list of URIs is offered. -/
theorem emptyDirHost_offers (hnul : (0 : UInt8) ∉ uris) (path : Bytes) :
    OffersUris uris (.fresh [] .calm) (emptyDirHost uris path) := by
  have hclip : OnClipboard uris (emptyDirHost uris path) := uriClipboard_on rfl rfl
  exact congrArg Prod.fst (getCopiedFilesAsStr_run (fun _ => rfl) hclip hnul)

/-- The path names the empty directory. -/
theorem emptyDirHost_dir (uris : Bytes) {path : Bytes} (hne : path ≠ [])
    (hup : dotdot ∉ components path) :
    statAt (emptyDirHost uris path) path = some .dir ∧
      readDirOf (emptyDirHost uris path) path = some [] := by
  have hnode := FileSystem.chain_node (plain (components path))
  have hstart : FileSystem.start [] path = [] := by
    unfold FileSystem.start
    split <;> rfl
  have hres : (FileSystem.chain (plain (components path))).resolve [] path
      = some (plain (components path)) := by
    unfold FileSystem.resolve
    rw [if_neg hne, hstart, FileSystem.walk_eq hup, List.nil_append, if_pos]
    rw [hnode]
    exact ⟨rfl, fun _ => rfl⟩
  constructor
  · show ((FileSystem.chain _).resolve [] path).bind _ = _
    rw [hres]
    show ((FileSystem.chain _).node _).bind _ = _
    rw [hnode]
    rfl
  · show ((FileSystem.chain _).resolve [] path).bind _ = _
    rw [hres]
    show (if (FileSystem.chain _).node _ = some .dir then some ((FileSystem.chain _).list _)
      else none) = _
    rw [if_pos hnode, FileSystem.chain_list]

/-- Copied paths fit the buffers for names. -/
theorem length_le_of_mem_entriesFrom {first : Bool} {cnt : Nat} {buf e : Bytes}
    (he : e ∈ entriesFrom first cnt buf) : e.length ≤ maxFileNameLen := by
  induction cnt generalizing first buf with
  | zero => cases he
  | succ cnt ih =>
    unfold entriesFrom at he
    cases hdec : urlDecode buf with
    | none =>
      rw [hdec] at he
      cases he
    | some s =>
      rw [hdec] at he
      dsimp only at he
      split at he
      · cases he
      · rename_i hlong
        rcases List.mem_cons.mp he with rfl | he
        · refine (cstr_length_le _).trans ?_
          have hchop : (chopSep s).length ≤ s.length := by
            unfold chopSep
            split
            · rw [List.length_append, List.length_dropLast, List.length_singleton]
              omega
            · exact le_refl _
          split <;> omega
        · exact ih he

/-- **The names of copied files.**  If every copied path that exists has a name behind the parent
    directory of the first one, then so has every listed path; and if all listed paths have one in
    every state, then so has every copied path, at least if it does not go up. -/
theorem copied_paths_named (uris : Bytes) (hnul : (0 : UInt8) ∉ uris)
    (hcount : lineCount uris < 0xFFFFFFFF) :
    (∀ leaf l h n lst, OffersUris uris l h → Lists leaf l h n lst →
      (∀ e ∈ copiedEntries uris, (statAt h e).isSome →
        Suffixed (nameOffset (copiedEntries uris)) (withSep e)) →
      ∀ x ∈ lst, Suffixed n x) ∧
    ((∀ leaf l h n lst, OffersUris uris l h → Lists leaf l h n lst → ∀ x ∈ lst, Suffixed n x) →
      ∀ e ∈ copiedEntries uris, e ≠ [] → dotdot ∉ components e →
        Suffixed (nameOffset (copiedEntries uris)) (withSep e)) := by
  constructor
  · intro leaf l h n lst ho hl hgood x hx
    obtain ⟨rfl, hfrom⟩ := ho.lists hcount hl
    obtain ⟨e, he, hex⟩ := hfrom x hx
    exact hex.suffixed (hgood e he)
  · intro hall e he hne hup
    -- a state in which the path is an empty directory, so that it is listed itself
    have ho := emptyDirHost_offers hnul e
    obtain ⟨hdir, hempty⟩ := emptyDirHost_dir uris hne hup
    have hcalm : ∀ o : Oracle, (∀ k, o.fs k = false) → ∀ k, o.fs k = false := fun _ h => h
    obtain ⟨s, hs, hrun⟩ := ho.run (A := fun o => ∀ k, o.fs k = false) hcount true fun _ => rfl
    obtain ⟨r, s', hloop, -, hn, lst, hlst, -, hsure⟩ := copiedLoop_yields true true _ _ s hs
    have hself : withSep e ∈ lst := by
      apply hsure e he
      apply (stat_yields e).bind
      rintro _ rfl
      rw [hdir]
      exact (recurseDir_empty hcalm hempty (length_le_of_mem_entriesFrom he) 255).mono
        fun a ha => ha ▸ List.mem_singleton_self _
    have hl : Lists true (.fresh [] .calm) (emptyDirHost uris e) r.pathLen lst := by
      unfold Lists
      rw [hrun, hloop, ← hlst]
    rw [show nameOffset (copiedEntries uris) = r.pathLen from hn.symm]
    exact hall true _ _ _ lst ho hl _ hself

/-- Two copied paths in one directory. -/
theorem copied_paths_named_docs : ∃ l h,
    Lists true l h 13 [ascii "/home/u/docs/d/"] ∧ Suffixed 13 (ascii "/home/u/docs/d/") := by
  let uris := ascii "file:///home/u/docs/a\nfile:///home/u/docs/d"
  let h := emptyDirHost uris (ascii "/home/u/docs/d")
  have ho : OffersUris uris (.fresh [] .calm) h := emptyDirHost_offers (by decide) _
  have hl : Lists true (.fresh [] .calm) h 13 [ascii "/home/u/docs/d/"] := by
    unfold Lists
    decide +kernel
  have hentries : copiedEntries uris = [ascii "/home/u/docs/a", ascii "/home/u/docs/d"] := by
    decide +kernel
  refine ⟨.fresh [] .calm, h, hl, (copied_paths_named uris (by decide) (by decide)).1 true _ h 13 _
    ho hl (fun e he _ => ?_) _ (List.mem_singleton_self _)⟩
  rw [hentries] at he ⊢
  unfold Suffixed
  rcases List.mem_cons.mp he with rfl | he
  · decide
  · rw [List.mem_singleton.mp he]
    decide

/-- Two copied paths in different directories. -/
theorem copied_paths_unnamed : ∃ l h n lst,
    OffersUris (ascii "file:///home/u/docs/a\nfile:///b") l h ∧ Lists true l h n lst ∧
      ∃ x ∈ lst, ¬ Suffixed n x := by
  let h := emptyDirHost (ascii "file:///home/u/docs/a\nfile:///b") (ascii "/b")
  have hl : Lists true (.fresh [] .calm) h 13 [ascii "/b/"] := by
    unfold Lists
    decide +kernel
  refine ⟨.fresh [] .calm, h, 13, [ascii "/b/"], emptyDirHost_offers (by decide) _, hl, ascii "/b/",
    List.mem_singleton_self _, ?_⟩
  unfold Suffixed
  decide

end ClipShare
