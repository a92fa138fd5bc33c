import ClipShare.Posix.Outline
import ClipShare.Server.World

namespace ClipShare

open Interaction Posix

/-!
# What calls touch

A call changes, and depends on, only a part of what all sessions share.

* `Resource`, `Call.touches` — the parts, and what a call touches;
* `respond_fs`, `respond_desktop` — calls keep what they do not touch;
* `Host.Same` — two hosts look the same to calls that touch only some resources;
* `Host.Same.respond` — these calls get the same answers from both.
-/

/-- What a call touches. -/
inductive Resource
  /-- The connection, the error log, the clock and the random numbers. -/
  | own
  /-- The clipboard is read under a target. -/
  | clipboard (target : Option Bytes)
  /-- A text is put into the clipboard. -/
  | text
  /-- Files are put into the clipboard. -/
  | cut
  | screen
  /-- The names and kinds of files. -/
  | names
  /-- The contents of files. -/
  | contents
  /-- Directories are made, and files and directories are moved and removed. -/
  | tree
  /-- Files are made and written. -/
  | written
  deriving DecidableEq

def Call.touches : Call → Resource
  | .readSock _ | .writeSock _ | .closeSocket _ _ | .time | .rand | .error _ | .enter _ => .own
  | .access _ | .stat _ | .readDir _ => .names
  | .mkdir _ | .rmdir _ | .rename _ _ | .remove _ => .tree
  | .openWrite _ | .fwrite _ _ _ => .written
  | .openRead _ | .fileSize _ | .fread _ _ _ => .contents
  | .xclipOut target => .clipboard target
  | .xclipIn _ _ => .text
  | .cutFiles _ => .cut
  | .screenshot _ => .screen

/-! ### What calls keep -/

/-- A call that fails changes nothing, and any other does what `execute` says. -/
theorem respond_cases (c : Call) (l : Session) :
    (∃ r, ∀ h, respond c (l, h) = (r, l.tick.release, h)) ∨
      ∀ h, respond c (l, h) = execute c (l, h) := by
  cases hl : l.fault with
  | false => exact .inr (respond_of_fault_none hl c)
  | true =>
    cases hc : c.failed with
    | none => exact .inr (respond_of_failed_none hc l)
    | some r => exact .inl ⟨r, respond_of_fault hl hc⟩

/-- Files change only in calls that touch the tree or write files. -/
theorem respond_fs {c : Call} (hc : c.touches ≠ .tree) (hw : c.touches ≠ .written) (l : Session)
    (h : Host) : (respond c (l, h)).2.2.fs = h.fs := by
  rcases respond_cases c l with ⟨r, hr⟩ | hr
  · rw [hr]
  · rw [hr]
    cases c with
    | mkdir | rmdir | rename | remove => exact absurd rfl hc
    | openWrite | fwrite => exact absurd rfl hw
    | access path =>
      unfold execute
      dsimp only
      split <;> rfl
    | _ => rfl

/-- The clipboard changes only in calls that put something into it. -/
theorem respond_desktop {c : Call} (ht : c.touches ≠ .text) (hc : c.touches ≠ .cut) (l : Session)
    (h : Host) : (respond c (l, h)).2.2.desktop = h.desktop := by
  rcases respond_cases c l with ⟨r, hr⟩ | hr
  · rw [hr]
  · rw [hr]
    cases c with
    | xclipIn => exact absurd rfl ht
    | cutFiles => exact absurd rfl hc
    | access path =>
      unfold execute
      dsimp only
      split <;> rfl
    | mkdir path | rmdir path | rename old new | remove path | openWrite path =>
      unfold execute
      dsimp only
      split <;> rfl
    | _ => rfl

theorem respond_cwd (c : Call) (l : Session) (h : Host) : (respond c (l, h)).2.2.cwd = h.cwd := by
  rcases respond_cases c l with ⟨r, hr⟩ | hr
  · rw [hr]
  · rw [hr]
    cases c with
    | access path | mkdir path | rmdir path | rename old new | remove path | openWrite path =>
      unfold execute
      dsimp only
      split <;> rfl
    | _ => rfl

/-! ### What calls see -/

/-- Two hosts look the same to calls that touch only some resources.  Only calls that read files
    find a difference in their contents. -/
structure Host.Same (R : Resource → Prop) (h h' : Host) : Prop where
  cwd : h'.cwd = h.cwd
  outline : R .names ∨ R .tree ∨ R .written → h.fs.SameOutline h'.fs
  contents : R .contents → h'.fs = h.fs
  clipboard : ∀ target, R (.clipboard target) →
    h'.desktop.read target = h.desktop.read target
  offer : R .text → h'.desktop.offer = h.desktop.offer
  cut : R .cut → h'.desktop.cut = h.desktop.cut
  screen : R .screen → h'.desktop.screen = h.desktop.screen

theorem Host.Same.refl (R : Resource → Prop) (h : Host) : h.Same R h :=
  ⟨rfl, fun _ => .refl h.fs, fun _ => rfl, fun _ _ => rfl, fun _ => rfl, fun _ => rfl, fun _ => rfl⟩

/-- What a new owner of the clipboard delivers does not depend on the old one. -/
theorem Desktop.owned_congr {d d' : Desktop} {f g : Option Bytes → Option Bytes} (h : g = f)
    (target : Option Bytes) : (d'.owned g).read target = (d.owned f).read target := by
  rw [h]
  rfl

/-- The calls on files see nothing of the desktop. -/
def Call.onFiles (c : Call) : Prop :=
  c.touches = .names ∨ c.touches = .contents ∨ c.touches = .tree ∨ c.touches = .written

theorem execute_onFiles {c : Call} (hc : c.onFiles) (l : Session) (fs : FileSystem) (cwd : Path)
    (d d' : Desktop) : (execute c (l, ⟨fs, cwd, d'⟩)).1 = (execute c (l, ⟨fs, cwd, d⟩)).1 ∧
      (execute c (l, ⟨fs, cwd, d'⟩)).2.1 = (execute c (l, ⟨fs, cwd, d⟩)).2.1 ∧
      ∃ fs', (execute c (l, ⟨fs, cwd, d⟩)).2.2 = ⟨fs', cwd, d⟩ ∧
        (execute c (l, ⟨fs, cwd, d'⟩)).2.2 = ⟨fs', cwd, d'⟩ := by
  rcases hc with hc | hc | hc | hc
  · cases c with
    | access path =>
      by_cases hfound : (fs.resolve cwd path).isSome = true
      · simp only [execute, hfound]
        exact ⟨rfl, rfl, fs, rfl, rfl⟩
      · simp only [execute, hfound]
        exact ⟨rfl, rfl, fs, rfl, rfl⟩
    | stat | readDir => exact ⟨rfl, rfl, fs, rfl, rfl⟩
    | _ => cases hc
  · cases c with
    | openRead | fileSize => exact ⟨rfl, rfl, fs, rfl, rfl⟩
    | fread => exact ⟨rfl, rfl, fs, rfl, rfl⟩
    | _ => cases hc
  · cases c with
    | mkdir path =>
      have hof : mkdirOf ⟨fs, cwd, d'⟩ path = mkdirOf ⟨fs, cwd, d⟩ path := rfl
      simp only [execute, hof]
      cases mkdirOf ⟨fs, cwd, d⟩ path with
      | none => exact ⟨rfl, rfl, fs, rfl, rfl⟩
      | some r => exact ⟨rfl, rfl, r.2, rfl, rfl⟩
    | rmdir path =>
      have hof : rmdirOf ⟨fs, cwd, d'⟩ path = rmdirOf ⟨fs, cwd, d⟩ path := rfl
      simp only [execute, hof]
      cases rmdirOf ⟨fs, cwd, d⟩ path with
      | none => exact ⟨rfl, rfl, fs, rfl, rfl⟩
      | some r => exact ⟨rfl, rfl, r.2, rfl, rfl⟩
    | rename old new =>
      have hof : renameOf ⟨fs, cwd, d'⟩ old new = renameOf ⟨fs, cwd, d⟩ old new := rfl
      simp only [execute, hof]
      cases renameOf ⟨fs, cwd, d⟩ old new with
      | none => exact ⟨rfl, rfl, fs, rfl, rfl⟩
      | some r => exact ⟨rfl, rfl, r.2, rfl, rfl⟩
    | remove path =>
      have hof : removeOf ⟨fs, cwd, d'⟩ path = removeOf ⟨fs, cwd, d⟩ path := rfl
      simp only [execute, hof]
      cases removeOf ⟨fs, cwd, d⟩ path with
      | none => exact ⟨rfl, rfl, fs, rfl, rfl⟩
      | some r => exact ⟨rfl, rfl, r.2, rfl, rfl⟩
    | _ => cases hc
  · cases c with
    | openWrite path =>
      have hof : openWriteOf ⟨fs, cwd, d'⟩ path = openWriteOf ⟨fs, cwd, d⟩ path := rfl
      simp only [execute, hof]
      cases openWriteOf ⟨fs, cwd, d⟩ path with
      | none => exact ⟨rfl, rfl, fs, rfl, rfl⟩
      | some r => exact ⟨rfl, rfl, r.2.2, rfl, rfl⟩
    | fwrite ino off data => exact ⟨rfl, rfl, _, rfl, rfl⟩
    | _ => cases hc

/-! ### Trees that differ in the contents of files -/

/-- Both attempts fail, or both succeed at the same place with trees that differ in the contents of
    their files at most. -/
def Paired {α : Type} (a b : Option (α × FileSystem)) : Prop :=
  (a = none ∧ b = none) ∨
    ∃ x fs fs', a = some (x, fs) ∧ b = some (x, fs') ∧ fs.SameOutline fs'

theorem paired_of_rel {α : Type} {a b : Option FileSystem}
    (h : Option.Rel FileSystem.SameOutline a b) (x : α) :
    Paired (a.bind fun fs => some (x, fs)) (b.bind fun fs => some (x, fs)) := by
  cases h with
  | none => exact .inl ⟨rfl, rfl⟩
  | some h => exact .inr ⟨x, _, _, rfl, rfl, h⟩

section outline

variable {fs fs' : FileSystem} (hfs : fs.SameOutline fs') (cwd : Path) (d d' : Desktop)
include hfs

theorem statAt_outline (path : Bytes) : statAt ⟨fs', cwd, d'⟩ path = statAt ⟨fs, cwd, d⟩ path := by
  simp only [statAt, hfs.resolve]
  cases fs.resolve cwd path with
  | none => rfl
  | some p =>
    rcases hfs.cases p with ⟨h1, h2⟩ | ⟨h1, h2⟩ | ⟨h1, h2⟩ | ⟨i, e, e', h1, h2⟩ <;>
      simp [h1, h2, kindOf]

theorem readDirOf_outline (path : Bytes) :
    readDirOf ⟨fs', cwd, d'⟩ path = readDirOf ⟨fs, cwd, d⟩ path := by
  simp only [readDirOf, hfs.resolve, hfs.eq_dir, hfs.list]

theorem mkdirOf_outline (path : Bytes) :
    Paired (mkdirOf ⟨fs, cwd, d⟩ path) (mkdirOf ⟨fs', cwd, d'⟩ path) := by
  simp only [mkdirOf, hfs.resolveNew]
  cases fs.resolveNew cwd path with
  | none => exact .inl ⟨rfl, rfl⟩
  | some r => exact paired_of_rel (hfs.mkdirAt r.1 r.2) (r.1 ++ [r.2])

theorem rmdirOf_outline (path : Bytes) :
    Paired (rmdirOf ⟨fs, cwd, d⟩ path) (rmdirOf ⟨fs', cwd, d'⟩ path) := by
  simp only [rmdirOf, hfs.resolve]
  cases fs.resolve cwd path with
  | none => exact .inl ⟨rfl, rfl⟩
  | some p => exact paired_of_rel (hfs.rmdirAt p) p

theorem removeOf_outline (path : Bytes) :
    Paired (removeOf ⟨fs, cwd, d⟩ path) (removeOf ⟨fs', cwd, d'⟩ path) := by
  simp only [removeOf, hfs.resolve]
  cases fs.resolve cwd path with
  | none => exact .inl ⟨rfl, rfl⟩
  | some p => exact paired_of_rel (hfs.removeAt p) p

theorem renameOf_outline (old new : Bytes) :
    Paired (renameOf ⟨fs, cwd, d⟩ old new) (renameOf ⟨fs', cwd, d'⟩ old new) := by
  simp only [renameOf, hfs.resolve, hfs.resolveNew]
  cases fs.resolve cwd old with
  | none => exact .inl ⟨rfl, rfl⟩
  | some p =>
    cases fs.resolveNew cwd new with
    | none => exact .inl ⟨rfl, rfl⟩
    | some r => exact paired_of_rel (hfs.renameAt p r.1 r.2) (r.1 ++ [r.2])

theorem openWriteOf_outline (path : Bytes) :
    (openWriteOf ⟨fs, cwd, d⟩ path = none ∧ openWriteOf ⟨fs', cwd, d'⟩ path = none) ∨
      ∃ p ino f f', openWriteOf ⟨fs, cwd, d⟩ path = some (p, ino, f) ∧
        openWriteOf ⟨fs', cwd, d'⟩ path = some (p, ino, f') ∧ f.SameOutline f' := by
  simp only [openWriteOf, hfs.resolveNew]
  split
  · exact .inl ⟨rfl, rfl⟩
  cases fs.resolveNew cwd path with
  | none => exact .inl ⟨rfl, rfl⟩
  | some r =>
    have hrel := hfs.createAt r.1 r.2
    dsimp only [Option.bind_eq_bind, Option.bind_some]
    revert hrel
    generalize fs.createAt r.1 r.2 = a
    generalize fs'.createAt r.1 r.2 = b
    rintro (⟨hino, h⟩ | _)
    · exact .inr ⟨r.1 ++ [r.2], _, _, _, rfl, by rw [← hino]; rfl, h⟩
    · exact .inl ⟨rfl, rfl⟩

/-- The calls that do not read files see and keep the outline. -/
theorem execute_outline {c : Call}
    (hc : c.touches = .names ∨ c.touches = .tree ∨ c.touches = .written) (l : Session) :
    (execute c (l, ⟨fs', cwd, d'⟩)).1 = (execute c (l, ⟨fs, cwd, d⟩)).1 ∧
      (execute c (l, ⟨fs', cwd, d'⟩)).2.1 = (execute c (l, ⟨fs, cwd, d⟩)).2.1 ∧
      ∃ f f', (execute c (l, ⟨fs, cwd, d⟩)).2.2 = ⟨f, cwd, d⟩ ∧
        (execute c (l, ⟨fs', cwd, d'⟩)).2.2 = ⟨f', cwd, d'⟩ ∧ f.SameOutline f' := by
  rcases hc with hc | hc | hc
  · cases c with
    | access path =>
      dsimp only [execute]
      rw [hfs.resolve]
      split
      · exact ⟨rfl, rfl, fs, fs', rfl, rfl, hfs⟩
      · exact ⟨rfl, rfl, fs, fs', rfl, rfl, hfs⟩
    | stat path => exact ⟨statAt_outline hfs cwd d d' path, rfl, fs, fs', rfl, rfl, hfs⟩
    | readDir path =>
      dsimp only [execute]
      rw [readDirOf_outline hfs cwd d d' path]
      exact ⟨rfl, rfl, fs, fs', rfl, rfl, hfs⟩
    | _ => cases hc
  · cases c with
    | mkdir path =>
      rcases mkdirOf_outline hfs cwd d d' path with ⟨h1, h2⟩ | ⟨p, f, f', h1, h2, hf⟩ <;>
        dsimp only [execute] <;> rw [h1, h2]
      · exact ⟨rfl, rfl, fs, fs', rfl, rfl, hfs⟩
      · exact ⟨rfl, rfl, f, f', rfl, rfl, hf⟩
    | rmdir path =>
      rcases rmdirOf_outline hfs cwd d d' path with ⟨h1, h2⟩ | ⟨p, f, f', h1, h2, hf⟩ <;>
        dsimp only [execute] <;> rw [h1, h2]
      · exact ⟨rfl, rfl, fs, fs', rfl, rfl, hfs⟩
      · exact ⟨rfl, rfl, f, f', rfl, rfl, hf⟩
    | rename old new =>
      rcases renameOf_outline hfs cwd d d' old new with ⟨h1, h2⟩ | ⟨p, f, f', h1, h2, hf⟩ <;>
        dsimp only [execute] <;> rw [h1, h2]
      · exact ⟨rfl, rfl, fs, fs', rfl, rfl, hfs⟩
      · exact ⟨rfl, rfl, f, f', rfl, rfl, hf⟩
    | remove path =>
      rcases removeOf_outline hfs cwd d d' path with ⟨h1, h2⟩ | ⟨p, f, f', h1, h2, hf⟩ <;>
        dsimp only [execute] <;> rw [h1, h2]
      · exact ⟨rfl, rfl, fs, fs', rfl, rfl, hfs⟩
      · exact ⟨rfl, rfl, f, f', rfl, rfl, hf⟩
    | _ => cases hc
  · cases c with
    | openWrite path =>
      rcases openWriteOf_outline hfs cwd d d' path with ⟨h1, h2⟩ | ⟨p, i, f, f', h1, h2, hf⟩ <;>
        dsimp only [execute] <;> rw [h1, h2]
      · exact ⟨rfl, rfl, fs, fs', rfl, rfl, hfs⟩
      · exact ⟨rfl, rfl, f, f', rfl, rfl, hf⟩
    | fwrite ino off data => exact ⟨rfl, rfl, _, _, rfl, rfl, hfs.writeAt ino off _⟩
    | _ => cases hc

end outline

/-! ### Hosts that look the same -/

variable {R : Resource → Prop}

/-- The calls on files. -/
theorem Host.Same.execute_files {c : Call} {h h' : Host} (hs : h.Same R h') (hc : R c.touches)
    (hfiles : c.onFiles) (l : Session) :
    (execute c (l, h)).1 = (execute c (l, h')).1 ∧
      (execute c (l, h)).2.1 = (execute c (l, h')).2.1 ∧
      (execute c (l, h)).2.2.Same R (execute c (l, h')).2.2 := by
  obtain ⟨fs, cwd, d⟩ := h
  obtain ⟨fs', cwd', d'⟩ := h'
  obtain rfl : cwd' = cwd := hs.cwd
  by_cases hread : R .contents
  · obtain rfl : fs' = fs := hs.contents hread
    obtain ⟨hresp, hown, f, h1, h2⟩ := execute_onFiles hfiles l fs' cwd' d d'
    refine ⟨hresp.symm, hown.symm, ?_⟩
    rw [h1, h2]
    exact ⟨rfl, fun _ => .refl f, fun _ => rfl, hs.clipboard, hs.offer, hs.cut, hs.screen⟩
  · -- no call reads a file
    have hkind : c.touches = .names ∨ c.touches = .tree ∨ c.touches = .written := by
      rcases hfiles with h1 | h1 | h1 | h1
      · exact .inl h1
      · rw [h1] at hc
        exact absurd hc hread
      · exact .inr (.inl h1)
      · exact .inr (.inr h1)
    have hfs : fs.SameOutline fs' := hs.outline (by
      rcases hkind with h1 | h1 | h1 <;> rw [h1] at hc
      · exact .inl hc
      · exact .inr (.inl hc)
      · exact .inr (.inr hc))
    obtain ⟨hresp, hown, f, f', h1, h2, hf⟩ := execute_outline hfs cwd' d d' hkind l
    refine ⟨hresp.symm, hown.symm, ?_⟩
    rw [h1, h2]
    exact ⟨rfl, fun _ => hf, fun h => absurd h hread, hs.clipboard, hs.offer, hs.cut, hs.screen⟩

/-- **The calls on granted resources** get the same answers from hosts that look the same, and the
    hosts still look the same. -/
theorem Host.Same.execute {c : Call} {h h' : Host} (hs : h.Same R h') (hc : R c.touches)
    (l : Session) : (execute c (l, h)).1 = (ClipShare.execute c (l, h')).1 ∧
      (ClipShare.execute c (l, h)).2.1 = (ClipShare.execute c (l, h')).2.1 ∧
      (ClipShare.execute c (l, h)).2.2.Same R (ClipShare.execute c (l, h')).2.2 := by
  by_cases hfiles : c.onFiles
  · exact hs.execute_files hc hfiles l
  · cases c with
    | readSock | writeSock | closeSocket | time | rand | error | enter => exact ⟨rfl, rfl, hs⟩
    | xclipOut target => exact ⟨(hs.clipboard target hc).symm, rfl, hs⟩
    | screenshot disp => exact ⟨congrFun (hs.screen hc).symm disp, rfl, hs⟩
    | xclipIn target data =>
      refine ⟨rfl, rfl, hs.cwd, hs.outline, hs.contents, fun t _ => ?_, hs.offer, hs.cut, hs.screen⟩
      exact Desktop.owned_congr (congrFun (congrFun (hs.offer hc) target) data) t
    | cutFiles paths =>
      refine ⟨rfl, rfl, hs.cwd, hs.outline, hs.contents, fun t _ => ?_, hs.offer, hs.cut, hs.screen⟩
      exact Desktop.owned_congr (congrFun (hs.cut hc) paths) t
    | access | stat | readDir => exact absurd (.inl rfl) hfiles
    | openRead | fileSize | fread => exact absurd (.inr (.inl rfl)) hfiles
    | mkdir | rmdir | rename | remove => exact absurd (.inr (.inr (.inl rfl))) hfiles
    | openWrite | fwrite => exact absurd (.inr (.inr (.inr rfl))) hfiles

theorem Host.Same.respond {c : Call} {h h' : Host} (hs : h.Same R h') (hc : R c.touches)
    (l : Session) : (ClipShare.respond c (l, h)).1 = (ClipShare.respond c (l, h')).1 ∧
      (ClipShare.respond c (l, h)).2.1 = (ClipShare.respond c (l, h')).2.1 ∧
      (ClipShare.respond c (l, h)).2.2.Same R (ClipShare.respond c (l, h')).2.2 := by
  rcases respond_cases c l with ⟨r, hr⟩ | hr
  · rw [hr h, hr h']
    exact ⟨rfl, rfl, hs⟩
  · rw [hr h, hr h']
    exact hs.execute hc l

end ClipShare
