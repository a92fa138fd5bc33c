import ClipShare.Posix.Path

namespace Posix

/-!
# File trees that differ in the contents of files

A program that only looks for names, makes and removes entries and writes into files finds no
difference between two trees that are the same but for the contents of their files.

* `SameOutline` — two trees have the same directories, inodes and names;
* `SameOutline.resolve` and the like — paths lead to the same locations in both;
* `SameOutline.mkdirAt` and the like — a change goes the same way in both, and they are still the
  same but for the contents.
-/

/-- A node without the contents of a file. -/
def Node.outline : Node → Node
  | .file ino _ => .file ino []
  | nd => nd

namespace FileSystem

/-- The trees are the same but for the contents of their files. -/
structure SameOutline (fs fs' : FileSystem) : Prop where
  node : ∀ p, (fs'.node p).map Node.outline = (fs.node p).map Node.outline
  order : fs'.order = fs.order
  nextIno : fs'.nextIno = fs.nextIno

namespace SameOutline

variable {fs fs' fs'' : FileSystem}

theorem refl (fs : FileSystem) : fs.SameOutline fs := ⟨fun _ => rfl, rfl, rfl⟩

theorem symm (h : fs.SameOutline fs') : fs'.SameOutline fs :=
  ⟨fun p => (h.node p).symm, h.order.symm, h.nextIno.symm⟩

theorem trans (h : fs.SameOutline fs') (h' : fs'.SameOutline fs'') : fs.SameOutline fs'' :=
  ⟨fun p => (h'.node p).trans (h.node p), h'.order.trans h.order, h'.nextIno.trans h.nextIno⟩

/-! ### Nodes -/

/-- What a location holds in both trees. -/
theorem cases (h : fs.SameOutline fs') (p : Path) :
    (fs.node p = none ∧ fs'.node p = none) ∨
      (fs.node p = some .dir ∧ fs'.node p = some .dir) ∨
      (fs.node p = some .special ∧ fs'.node p = some .special) ∨
      ∃ i d e, fs.node p = some (.file i d) ∧ fs'.node p = some (.file i e) := by
  have hnode := h.node p
  rcases hp : fs.node p with _ | _ | ⟨i, d⟩ | _ <;>
    rcases hp' : fs'.node p with _ | _ | ⟨j, e⟩ | _ <;>
    simp [hp, hp', Node.outline] at hnode ⊢
  exact hnode

theorem isSome (h : fs.SameOutline fs') (p : Path) : (fs'.node p).isSome = (fs.node p).isSome := by
  rw [← Option.isSome_map, h.node p, Option.isSome_map]

theorem eq_none (h : fs.SameOutline fs') (p : Path) : fs'.node p = none ↔ fs.node p = none := by
  rw [← Option.isNone_iff_eq_none, ← Option.isNone_iff_eq_none, ← Option.not_isSome,
    ← Option.not_isSome, h.isSome p]

theorem eq_dir (h : fs.SameOutline fs') (p : Path) :
    fs'.node p = some .dir ↔ fs.node p = some .dir := by
  rcases h.cases p with ⟨h1, h2⟩ | ⟨h1, h2⟩ | ⟨h1, h2⟩ | ⟨i, d, e, h1, h2⟩ <;> simp [h1, h2]

/-- The directories list the same entries. -/
theorem list (h : fs.SameOutline fs') (p : Path) : fs'.list p = fs.list p := by
  unfold FileSystem.list
  rw [h.order]

/-! ### Paths -/

theorem walk (h : fs.SameOutline fs') (cs : List Name) (cur : Path) :
    fs'.walk cur cs = fs.walk cur cs := by
  induction cs generalizing cur with
  | nil => simp only [FileSystem.walk, h.isSome]
  | cons c cs ih => simp only [FileSystem.walk, h.eq_dir, ih]

theorem resolve (h : fs.SameOutline fs') (cwd : Path) (s : Bytes) :
    fs'.resolve cwd s = fs.resolve cwd s := by
  simp only [FileSystem.resolve, h.walk]

theorem resolveNew (h : fs.SameOutline fs') (cwd : Path) (s : Bytes) :
    fs'.resolveNew cwd s = fs.resolveNew cwd s := by
  simp only [FileSystem.resolveNew, h.walk, h.eq_dir]

/-! ### Changes -/

/-- Changing the contents of a file. -/
theorem modify (fs : FileSystem) (ino : Nat) (f : Bytes → Bytes) :
    fs.SameOutline (fs.modify ino f) := by
  refine ⟨fun p => ?_, rfl, rfl⟩
  unfold FileSystem.modify
  dsimp only
  rcases fs.node p with _ | _ | ⟨i, d⟩ | _ <;> rfl

theorem writeAt (h : fs.SameOutline fs') (ino off : Nat) (data : Bytes) :
    (fs.writeAt ino off data).SameOutline (fs'.writeAt ino off data) :=
  (modify fs ino _).symm.trans (h.trans (modify fs' ino _))

theorem mkdirAt (h : fs.SameOutline fs') (p : Path) (n : Name) :
    Option.Rel SameOutline (fs.mkdirAt p n) (fs'.mkdirAt p n) := by
  unfold FileSystem.mkdirAt
  by_cases hc : fs.node p = some .dir ∧ fs.node (p ++ [n]) = none
  · rw [dif_pos hc, dif_pos ⟨(h.eq_dir p).mpr hc.1, (h.eq_none _).mpr hc.2⟩]
    refine .some ⟨fun q => ?_, congrArg (· ++ [p ++ [n]]) h.order, h.nextIno⟩
    rw [add_node, add_node]
    split
    · rfl
    · exact h.node q
  · rw [dif_neg hc, dif_neg fun hc' => hc ⟨(h.eq_dir p).mp hc'.1, (h.eq_none _).mp hc'.2⟩]
    exact .none

/-- A file is opened under the same inode number in both. -/
theorem createAt (h : fs.SameOutline fs') (p : Path) (n : Name) :
    Option.Rel (fun r r' => r'.1 = r.1 ∧ r.2.SameOutline r'.2) (fs.createAt p n)
      (fs'.createAt p n) := by
  rcases h.cases (p ++ [n]) with ⟨h1, h2⟩ | ⟨h1, h2⟩ | ⟨h1, h2⟩ | ⟨i, d, e, h1, h2⟩
  · by_cases hd : fs.node p = some .dir
    · obtain ⟨fs1, hcreate, hnode, horder, hino⟩ := createAt_new hd h1
      obtain ⟨fs2, hcreate', hnode', horder', hino'⟩ := createAt_new ((h.eq_dir p).mpr hd) h2
      rw [hcreate, hcreate']
      refine .some ⟨h.nextIno, fun q => ?_, ?_, ?_⟩
      · rw [hnode, hnode', h.nextIno]
        split
        · rfl
        · exact h.node q
      · rw [horder, horder', h.order]
      · rw [hino, hino', h.nextIno]
    · rw [createAt_eq_none (by simp [h1]) fun _ => hd,
        createAt_eq_none (by simp [h2]) fun _ hd' => hd ((h.eq_dir p).mp hd')]
      exact .none
  · rw [createAt_eq_none (by simp [h1]) (by simp [h1]),
      createAt_eq_none (by simp [h2]) (by simp [h2])]
    exact .none
  · rw [createAt_eq_none (by simp [h1]) (by simp [h1]),
      createAt_eq_none (by simp [h2]) (by simp [h2])]
    exact .none
  · rw [createAt_file h1, createAt_file h2]
    exact .some ⟨rfl, (modify fs i _).symm.trans (h.trans (modify fs' i _))⟩

theorem erase (h : fs.SameOutline fs') (p : Path) (hp hl hl') :
    (fs.erase p hp hl).SameOutline (fs'.erase p hp hl') := by
  refine ⟨fun q => ?_, congrArg (List.filter _) h.order, h.nextIno⟩
  rw [erase_node, erase_node]
  split
  · rfl
  · exact h.node q

theorem removeAt (h : fs.SameOutline fs') (p : Path) :
    Option.Rel SameOutline (fs.removeAt p) (fs'.removeAt p) := by
  unfold FileSystem.removeAt
  by_cases hc : p ≠ [] ∧ (fs.node p).isSome ∧ fs.list p = []
  · rw [dif_pos hc, dif_pos ⟨hc.1, by rw [h.isSome]; exact hc.2.1, by rw [h.list]; exact hc.2.2⟩]
    exact .some (h.erase p ..)
  · rw [dif_neg hc, dif_neg (by rwa [h.isSome, h.list])]
    exact .none

theorem rmdirAt (h : fs.SameOutline fs') (p : Path) :
    Option.Rel SameOutline (fs.rmdirAt p) (fs'.rmdirAt p) := by
  unfold FileSystem.rmdirAt
  by_cases hc : p ≠ [] ∧ fs.node p = some .dir ∧ fs.list p = []
  · rw [dif_pos hc, dif_pos ⟨hc.1, (h.eq_dir p).mpr hc.2.1, by rw [h.list]; exact hc.2.2⟩]
    exact .some (h.erase p ..)
  · rw [dif_neg hc, dif_neg (by rwa [h.eq_dir, h.list])]
    exact .none

theorem move (h : fs.SameOutline fs') (src par : Path) (n : Name)
    (hsrc hpar hpar' hdst hdst' hout) :
    (fs.move src par n hsrc hpar hdst hout).SameOutline
      (fs'.move src par n hsrc hpar' hdst' hout) := by
  refine ⟨fun q => ?_, congrArg (List.map _) h.order, h.nextIno⟩
  rw [move_node, move_node]
  split
  · exact h.node _
  · split
    · rfl
    · exact h.node q

/-- What may replace what does not depend on contents. -/
theorem replaceable (h : fs.SameOutline fs') (p q : Path) :
    FileSystem.replaceable (fs'.node p) (fs'.node q) =
      FileSystem.replaceable (fs.node p) (fs.node q) := by
  rcases h.cases p with ⟨h1, h2⟩ | ⟨h1, h2⟩ | ⟨h1, h2⟩ | ⟨i, d, e, h1, h2⟩ <;>
    rcases h.cases q with ⟨g1, g2⟩ | ⟨g1, g2⟩ | ⟨g1, g2⟩ | ⟨j, d', e', g1, g2⟩ <;>
    rw [h1, h2, g1, g2] <;> rfl

theorem renameAt (h : fs.SameOutline fs') (src par : Path) (n : Name) :
    Option.Rel SameOutline (fs.renameAt src par n) (fs'.renameAt src par n) := by
  unfold FileSystem.renameAt
  by_cases hsame : src = par ++ [n]
  · rw [if_pos hsame, if_pos hsame, h.isSome]
    split
    · exact .some h
    · exact .none
  rw [if_neg hsame, if_neg hsame]
  by_cases hc : src ≠ [] ∧ (fs.node src).isSome ∧ fs.node par = some .dir ∧ ¬ src <+: par ++ [n]
  · have hc' : src ≠ [] ∧ (fs'.node src).isSome ∧ fs'.node par = some .dir ∧
        ¬ src <+: par ++ [n] := by rwa [h.isSome, h.eq_dir]
    rw [dif_pos hc, dif_pos hc']
    by_cases hd : fs.node (par ++ [n]) = none
    · -- the name is free
      rw [dif_pos hd, dif_pos ((h.eq_none _).mpr hd)]
      exact .some (h.move src par n ..)
    · have hd' : ¬ fs'.node (par ++ [n]) = none := by rwa [h.eq_none]
      rw [dif_neg hd, dif_neg hd']
      by_cases hr : FileSystem.replaceable (fs.node src) (fs.node (par ++ [n])) ∧
          fs.list (par ++ [n]) = []
      · -- the target is replaced
        rw [dif_pos hr, dif_pos (by rwa [h.replaceable, h.list])]
        exact .some ((h.erase (par ++ [n]) ..).move src par n ..)
      · rw [dif_neg hr, dif_neg (by rwa [h.replaceable, h.list])]
        exact .none
  · rw [dif_neg hc, dif_neg (by rwa [h.isSome, h.eq_dir])]
    exact .none

end SameOutline

end FileSystem

end Posix
