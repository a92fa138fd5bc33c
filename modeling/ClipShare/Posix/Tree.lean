import ClipShare.Posix.Path
import Mathlib.Logic.Function.Basic

namespace Posix

/-!
# What a tree shows

The tree below a location as its users see it: directories and contents of files, without inode
numbers.

* `Entry` / `Tree` — what a location shows, and all the locations below one;
* `FileSystem.tree` — the tree below a location of a file system;
* `Tree.dirs` / `Tree.graft` — the tree after making the directories on the way to a path, and
  after putting an entry there;
* `Tree.below` / `Tree.without` / `Tree.only` — the tree at an entry, and the tree without some
  entries, or with no others;
* `Tree.Way` / `Tree.Fits` — there is nothing but directories on the way, and nothing at the end;
* `Tree.Leaves` — the leaves of a tree; `Leaves.build_eq` says that the tree is built from them.
-/

/-- What a location shows. -/
inductive Entry
  | dir
  | file (data : Bytes)
  | special
  deriving DecidableEq, Repr

/-- What a node shows. -/
def Node.entry : Node → Entry
  | .dir => .dir
  | .file _ data => .file data
  | .special => .special

/-- The entries below some location, by their relative paths. -/
abbrev Tree := Path → Option Entry

namespace FileSystem

variable (fs : FileSystem)

/-- The tree below a location. -/
def tree (t : Path) : Tree := fun q => (fs.node (t ++ q)).map Node.entry

variable {fs} {t : Path}

theorem tree_eq_dir {q : Path} : fs.tree t q = some .dir ↔ fs.node (t ++ q) = some .dir := by
  unfold tree
  cases h : fs.node (t ++ q) with
  | none => simp
  | some nd => cases nd <;> simp [Node.entry]

theorem tree_eq_none {q : Path} : fs.tree t q = none ↔ fs.node (t ++ q) = none := by
  simp [tree]

theorem tree_isSome {q : Path} : (fs.tree t q).isSome = (fs.node (t ++ q)).isSome := by
  simp [tree]

theorem tree_of_file {q : Path} {ino : Nat} {d : Bytes}
    (h : fs.node (t ++ q) = some (.file ino d)) :
    fs.tree t q = some (.file d) := by
  simp [tree, h, Node.entry]

/-- A tree whose nodes are the same is the same. -/
theorem tree_congr {fs' : FileSystem} (h : ∀ q, fs'.node (t ++ q) = fs.node (t ++ q)) :
    fs'.tree t = fs.tree t := by
  funext q
  unfold tree
  rw [h q]

/-- A change at a single location. -/
theorem tree_update {fs' : FileSystem} {cs : Path}
    (h : ∀ q, q ≠ cs → fs'.node (t ++ q) = fs.node (t ++ q)) :
    fs'.tree t = Function.update (fs.tree t) cs (fs'.tree t cs) := by
  funext q
  by_cases hq : q = cs
  · rw [hq, Function.update_self]
  · rw [Function.update_of_ne hq]
    unfold tree
    rw [h q hq]

/-- What lies above an entry is a directory. -/
theorem tree_above {p q : Path} (hq : (fs.tree t q).isSome) (hp : p <+: q) (hne : p ≠ q) :
    fs.tree t p = some .dir := by
  rw [tree_isSome] at hq
  refine tree_eq_dir.mpr (fs.dir_of_prefix hq ((List.prefix_append_right_inj t).mpr hp) ?_)
  exact fun h => hne (List.append_cancel_left h)

end FileSystem

namespace Tree

variable (T : Tree)

/-- A tree that is just a directory. -/
def bare : Tree := fun q => if q = [] then some .dir else none

/-- The tree with directories made on the way to a path, the path included. -/
def dirs (cs : Path) : Tree := fun q => if q <+: cs then some .dir else T q

/-- The tree with an entry put at a path, and directories on the way. -/
def graft (cs : Path) (e : Entry) : Tree := Function.update (T.dirs cs) cs (some e)

/-- The tree with entries put in one after the other. -/
def graftAll (T : Tree) : List (Path × Entry) → Tree
  | [] => T
  | f :: fs => (T.graft f.1 f.2).graftAll fs

/-- The tree built from entries. -/
def build (fs : List (Path × Entry)) : Tree := bare.graftAll fs

/-- The part of a tree at one of its entries. -/
def below (n : Name) : Tree := fun q => T (n :: q)

/-- The tree without some of its entries. -/
def without (ns : List Name) : Tree
  | [] => T []
  | n :: q => if n ∈ ns then none else T (n :: q)

/-- The tree with no other entries than these. -/
def only (ns : List Name) : Tree
  | [] => T []
  | n :: q => if n ∈ ns then T (n :: q) else none

/-- On the way to a path there is nothing but directories. -/
def Way (cs : Path) : Prop := ∀ q, q <+: cs → T q = none ∨ T q = some .dir

/-- There is room for a new entry at a path. -/
structure Fits (cs : Path) : Prop where
  ne : cs ≠ []
  way : T.Way cs.dropLast
  free : T cs = none

/-- There is room for entries that are put in one after the other. -/
def FitsAll (T : Tree) : List (Path × Entry) → Prop
  | [] => True
  | f :: fs => T.Fits f.1 ∧ (T.graft f.1 f.2).FitsAll fs

variable {T} {cs : Path}

theorem without_cons (ns : List Name) (n : Name) (q : Path) :
    T.without ns (n :: q) = if n ∈ ns then none else T (n :: q) := rfl

@[simp] theorem without_nil : T.without [] = T := by
  funext q
  cases q <;> simp [without]

theorem without_without (ns ms : List Name) :
    (T.without ns).without ms = T.without (ns ++ ms) := by
  funext q
  cases q with
  | nil => rfl
  | cons n q =>
    simp only [without, List.mem_append]
    by_cases h1 : n ∈ ms
    · rw [if_pos h1, if_pos (.inr h1)]
    · simp only [h1, or_false, if_false]

theorem below_without {ns : List Name} {n : Name} (h : n ∉ ns) :
    (T.without ns).below n = T.below n := by
  funext q
  exact if_neg h

@[simp] theorem dirs_self : T.dirs cs cs = some .dir := if_pos List.prefix_rfl

theorem dirs_nil (h : T [] = some .dir) : T.dirs [] = T := by
  funext q
  unfold dirs
  split
  · rename_i hq
    rw [List.prefix_nil.mp hq, h]
  · rfl

/-- One more directory on the way. -/
theorem dirs_concat (n : Name) :
    T.dirs (cs ++ [n]) = Function.update (T.dirs cs) (cs ++ [n]) (some .dir) := by
  funext q
  by_cases hq : q = cs ++ [n]
  · rw [hq, Function.update_self, dirs_self]
  · have hiff : q <+: cs ++ [n] ↔ q <+: cs := by
      rw [List.prefix_concat_iff]
      exact or_iff_right hq
    rw [Function.update_of_ne hq]
    simp only [dirs, hiff]

/-- A way goes on as long as there is nothing in it. -/
theorem graft_concat (h : T.dirs cs = T) (n : Name) (e : Entry) :
    T.graft (cs ++ [n]) e = Function.update T (cs ++ [n]) (some e) := by
  rw [graft, dirs_concat, h, Function.update_idem]

theorem Way.of_dirs {n : Name} (hw : T.Way cs)
    (hn : T.dirs cs (cs ++ [n]) = none ∨ T.dirs cs (cs ++ [n]) = some .dir) :
    T.Way (cs ++ [n]) := by
  intro q hq
  rcases List.prefix_concat_iff.mp hq with rfl | hq
  · have hlong : ¬ cs ++ [n] <+: cs := by
      intro h
      have := h.length_le
      rw [List.length_append, List.length_singleton] at this
      omega
    simpa only [dirs, if_neg hlong] using hn
  · exact hw q hq

theorem Way.upto {ds : Path} (hw : T.Way cs) (h : ds <+: cs) : T.Way ds :=
  fun q hq => hw q (hq.trans h)

/-- The directories on the way leave what lies beyond alone. -/
theorem dirs_beyond {n : Name} : T.dirs cs (cs ++ [n]) = T (cs ++ [n]) := by
  unfold dirs
  rw [if_neg]
  intro hp
  have := hp.length_le
  rw [List.length_append, List.length_singleton] at this
  omega

/-- Directories that are there already. -/
theorem dirs_of_above (h : ∀ q, q <+: cs → T q = some .dir) : T.dirs cs = T := by
  funext q
  unfold dirs
  split
  · rename_i hq
    exact (h q hq).symm
  · rfl

/-- Going on with a way. -/
theorem dirs_dirs {ds : Path} (h : cs <+: ds) : (T.dirs cs).dirs ds = T.dirs ds := by
  funext q
  unfold dirs
  by_cases hq : q <+: ds
  · rw [if_pos hq, if_pos hq]
  · rw [if_neg hq, if_neg hq, if_neg fun hc => hq (hc.trans h)]

/-- An entry can be put there once the directories on the way are made. -/
theorem graft_dirs {ds : Path} (h : cs <+: ds) (e : Entry) :
    (T.dirs cs).graft ds e = T.graft ds e := by
  unfold graft
  rw [dirs_dirs h]

theorem way_dirs_iff {ds : Path} (hw : T.Way cs) : (T.dirs cs).Way ds ↔ T.Way ds := by
  constructor
  · intro h q hq
    by_cases hc : q <+: cs
    · exact hw q hc
    · simpa only [dirs, if_neg hc] using h q hq
  · intro h q hq
    by_cases hc : q <+: cs
    · exact .inr (if_pos hc)
    · simpa only [dirs, if_neg hc] using h q hq

/-! ### What is in a tree that was built -/

theorem FitsAll.ne {fs : List (Path × Entry)} (h : T.FitsAll fs) : ∀ f ∈ fs, f.1 ≠ [] := by
  induction fs generalizing T with
  | nil => nofun
  | cons f fs ih =>
    intro g hg
    rcases List.mem_cons.mp hg with rfl | hg
    · exact h.1.ne
    · exact ih h.2 g hg

/-- What is there after an entry was put in was there before or is on the way. -/
theorem graft_ne_none {e : Entry} {q : Path} (h : T.graft cs e q ≠ none) :
    T q ≠ none ∨ q <+: cs := by
  unfold graft at h
  by_cases hq : q = cs
  · exact .inr (hq ▸ List.prefix_rfl)
  · rw [Function.update_of_ne hq, dirs] at h
    by_cases hp : q <+: cs
    · exact .inr hp
    · rw [if_neg hp] at h
      exact .inl h

theorem graftAll_ne_none {fs : List (Path × Entry)} {q : Path} (h : T.graftAll fs q ≠ none) :
    T q ≠ none ∨ ∃ f ∈ fs, q <+: f.1 := by
  induction fs generalizing T with
  | nil => exact .inl h
  | cons f fs ih =>
    rcases ih h with h1 | ⟨g, hg, hq⟩
    · rcases graft_ne_none h1 with h2 | h2
      · exact .inl h2
      · exact .inr ⟨f, List.mem_cons_self, h2⟩
    · exact .inr ⟨g, List.mem_cons_of_mem f hg, hq⟩

/-- Everything in a tree that was built lies on the way to one of the entries. -/
theorem build_ne_none {fs : List (Path × Entry)} {q : Path} (h : build fs q ≠ none) (hq : q ≠ []) :
    ∃ f ∈ fs, q <+: f.1 := by
  refine (graftAll_ne_none h).resolve_left fun h0 => h0 ?_
  exact if_neg hq

/-- The tree of a single file. -/
theorem build_file (n : Name) (d : Bytes) (q : Path) (hq : q ≠ []) :
    build [([n], .file d)] q = if q = [n] then some (.file d) else none := by
  unfold build graftAll graftAll graft
  by_cases h : q = [n]
  · rw [if_pos h, h, Function.update_self]
  · rw [if_neg h, Function.update_of_ne h, dirs, if_neg, bare, if_neg hq]
    intro hp
    rcases List.prefix_cons_iff.mp hp with h1 | ⟨r, h1, hr⟩
    · exact hq h1
    · rw [List.prefix_nil.mp hr] at h1
      exact h h1

/-! ### Trees and their leaves -/

/-- Entries that are the leaves of a tree: nothing lies below them, and everything lies on the way
    to one of them. -/
structure Leaves (T : Tree) (fs : List (Path × Entry)) : Prop where
  root : T [] = some .dir
  above : ∀ p q, T q ≠ none → p <+: q → p ≠ q → T p = some .dir
  nodup : (fs.map Prod.fst).Nodup
  entry : ∀ f ∈ fs, f.1 ≠ [] ∧ T f.1 = some f.2
  leaf : ∀ f ∈ fs, ∀ q, f.1 <+: q → T q ≠ none → q = f.1
  all : ∀ q, q ≠ [] → T q ≠ none → ∃ f ∈ fs, q <+: f.1

/-- The part of a tree that lies on the way to some of its entries. -/
def upto (T : Tree) (fs : List (Path × Entry)) : Tree :=
  fun q => if q = [] ∨ ∃ f ∈ fs, q <+: f.1 then T q else none

theorem upto_of_mem {fs : List (Path × Entry)} {f : Path × Entry} (hf : f ∈ fs) {q : Path}
    (hq : q <+: f.1) : T.upto fs q = T q := if_pos (.inr ⟨f, hf, hq⟩)

/-- Putting in one more leaf. -/
theorem Leaves.step {done rest : List (Path × Entry)} {f : Path × Entry}
    (h : T.Leaves (done ++ f :: rest)) :
    (T.upto done).Fits f.1 ∧ (T.upto done).graft f.1 f.2 = T.upto (done ++ [f]) := by
  have hf : f ∈ done ++ f :: rest := List.mem_append_right _ List.mem_cons_self
  obtain ⟨hne, hentry⟩ := h.entry f hf
  have hsome : T f.1 ≠ none := by rw [hentry]; nofun
  have hway : ∀ q, q <+: f.1 → q ≠ f.1 → T q = some .dir :=
    fun q hq hne => h.above q f.1 hsome hq hne
  -- nothing that is in the tree already lies below the leaf
  have hfree : T.upto done f.1 = none := by
    apply if_neg
    rintro (h0 | ⟨g, hg, hpre⟩)
    · exact hne h0
    · have hg' : g ∈ done ++ f :: rest := List.mem_append_left _ hg
      have hgsome : T g.1 ≠ none := by rw [(h.entry g hg').2]; nofun
      have heq : g.1 = f.1 := h.leaf f hf g.1 hpre hgsome
      have hnodup := h.nodup
      rw [List.map_append, List.map_cons, List.nodup_append] at hnodup
      exact hnodup.2.2 g.1 (List.mem_map_of_mem hg) f.1 List.mem_cons_self heq
  refine ⟨⟨hne, fun q hq => ?_, hfree⟩, ?_⟩
  · have hlen := hq.length_le
    have hpos := List.length_pos_of_ne_nil hne
    rw [List.length_dropLast] at hlen
    have hqne : q ≠ f.1 := by
      rintro rfl
      omega
    unfold upto
    split
    · exact .inr (hway q (hq.trans (List.dropLast_prefix _)) hqne)
    · exact .inl rfl
  · funext q
    unfold graft
    by_cases hq : q = f.1
    · rw [hq, Function.update_self,
        upto_of_mem (List.mem_append_right _ (List.mem_singleton_self f))
        List.prefix_rfl, hentry]
    · rw [Function.update_of_ne hq, dirs]
      by_cases hpre : q <+: f.1
      · rw [if_pos hpre, upto_of_mem (List.mem_append_right _ (List.mem_singleton_self f)) hpre]
        exact (hway q hpre hq).symm
      · rw [if_neg hpre]
        simp only [upto, List.mem_append, List.mem_singleton, or_and_right, exists_or,
          exists_eq_left, hpre, or_false]

theorem Leaves.graftAll {done rest : List (Path × Entry)} (h : T.Leaves (done ++ rest)) :
    (T.upto done).FitsAll rest ∧ (T.upto done).graftAll rest = T.upto (done ++ rest) := by
  induction rest generalizing done with
  | nil => exact ⟨trivial, by rw [List.append_nil]; rfl⟩
  | cons f rest ih =>
    obtain ⟨hfits, hgraft⟩ := h.step
    have hsplit : done ++ f :: rest = (done ++ [f]) ++ rest := by simp
    rw [hsplit] at h
    obtain ⟨hall, hgrafts⟩ := ih h
    rw [hsplit]
    refine ⟨⟨hfits, ?_⟩, ?_⟩
    · rw [hgraft]
      exact hall
    · show ((T.upto done).graft f.1 f.2).graftAll rest = _
      rw [hgraft]
      exact hgrafts

/-- **A tree is built from its leaves**, in any order. -/
theorem Leaves.build_eq {fs : List (Path × Entry)} (h : T.Leaves fs) :
    bare.FitsAll fs ∧ build fs = T := by
  have hbare : T.upto [] = bare := by
    funext q
    unfold upto bare
    by_cases hq : q = []
    · rw [if_pos (.inl hq), if_pos hq, hq]
      exact h.root
    · rw [if_neg hq, if_neg]
      rintro (h0 | ⟨f, hf, -⟩)
      · exact hq h0
      · cases hf
  have hall : T.upto fs = T := by
    funext q
    unfold upto
    split
    · rfl
    · rename_i hno
      by_contra hne
      exact hno (.inr (h.all q (fun h0 => hno (.inl h0)) (Ne.symm hne)))
  have hrun := @Leaves.graftAll T [] fs h
  rw [hbare, List.nil_append, hall] at hrun
  exact hrun

end Tree

end Posix
