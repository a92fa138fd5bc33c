import ClipShare.Posix.Tree
import Mathlib.Data.Finset.Lattice.Fold

namespace Posix

/-!
# The leaves of a file tree

A walk through directories meets two kinds of ends: what is not a directory, and directories
without entries.

* `IsLeaf` — the ends of a file tree; `exists_leaf` says that every location leads to one;
* `Under` / `Among` — lists of all the leaves under a location, and under some of the entries of a
  directory, each once; `Among.cons` and `under_of_among` put them together;
* `leavesAmong` — such a list;
* `leaves_only` — the leaves that belong to a part of a directory are the leaves of its tree.
-/

namespace FileSystem

variable (fs : FileSystem)

/-- Does a walk end at this location? -/
def IsLeaf (p : Path) : Prop :=
  fs.node p ≠ none ∧ (fs.node p = some .dir → fs.list p = [])

instance (p : Path) : Decidable (fs.IsLeaf p) := inferInstanceAs (Decidable (_ ∧ _))

/-- The leaves under a location, each once. -/
structure Under (p : Path) (ps : List Path) : Prop where
  nodup : ps.Nodup
  mem : ∀ q, q ∈ ps ↔ p <+: q ∧ fs.IsLeaf q

/-- The leaves under some entries of a directory, each once. -/
structure Among (p : Path) (ns : List Name) (ps : List Path) : Prop where
  nodup : ps.Nodup
  mem : ∀ q, q ∈ ps ↔ (∃ n ∈ ns, p ++ [n] <+: q) ∧ fs.IsLeaf q

/-- The leaves under some entries of a directory. -/
def leavesAmong (p : Path) (ns : List Name) : List Path :=
  fs.order.filter fun q => (∃ n ∈ ns, p ++ [n] <+: q) ∧ fs.IsLeaf q

variable {fs} {p : Path}

theorem leavesAmong_among (ns : List Name) : fs.Among p ns (fs.leavesAmong p ns) where
  nodup := fs.nodup.filter _
  mem q := by
    unfold leavesAmong
    rw [List.mem_filter, decide_eq_true_eq, fs.mem_order, and_iff_right_iff_imp]
    rintro ⟨⟨n, -, hn⟩, hleaf, -⟩
    refine ⟨?_, Option.ne_none_iff_isSome.mp hleaf⟩
    rintro rfl
    have hlen := hn.length_le
    rw [List.length_append, List.length_singleton] at hlen
    exact absurd hlen (by simp)

/-- Two lists of the same leaves are equally long. -/
theorem Among.length_eq {ns : List Name} {ps qs : List Path} (hps : fs.Among p ns ps)
    (hqs : fs.Among p ns qs) : ps.length = qs.length := by
  apply List.Perm.length_eq
  rw [List.perm_ext_iff_of_nodup hps.nodup hqs.nodup]
  intro q
  rw [hps.mem, hqs.mem]

/-- Something that is not a directory is the only leaf under it. -/
theorem under_of_file (hp : fs.node p ≠ none) (hd : fs.node p ≠ some .dir) : fs.Under p [p] where
  nodup := List.nodup_singleton p
  mem q := by
    rw [List.mem_singleton]
    constructor
    · rintro rfl
      exact ⟨List.prefix_rfl, hp, fun h => absurd h hd⟩
    · rintro ⟨⟨r, rfl⟩, hleaf, -⟩
      by_cases hr : r = []
      · rw [hr, List.append_nil]
      · exact absurd (fs.node_below hd hr) hleaf

/-- A directory without entries is the only leaf under it. -/
theorem under_of_empty (hp : fs.node p = some .dir) (hl : fs.list p = []) : fs.Under p [p] where
  nodup := List.nodup_singleton p
  mem q := by
    rw [List.mem_singleton]
    constructor
    · rintro rfl
      exact ⟨List.prefix_rfl, by rw [hp]; nofun, fun _ => hl⟩
    · rintro ⟨⟨r, rfl⟩, hleaf, -⟩
      by_cases hr : r = []
      · rw [hr, List.append_nil]
      · exact absurd (fs.node_below_of_list_nil hl hr) hleaf

theorem among_nil : fs.Among p [] [] where
  nodup := List.nodup_nil
  mem q := by simp

/-- The entries of a directory are apart. -/
theorem prefix_entry_inj {n m : Name} {q : Path} (hn : p ++ [n] <+: q) (hm : p ++ [m] <+: q) :
    n = m := by
  obtain ⟨r, rfl⟩ := hn
  rw [List.append_assoc, List.prefix_append_right_inj] at hm
  obtain ⟨s, hs⟩ := hm
  exact (List.cons.inj hs).1.symm

/-- The leaves under one more entry. -/
theorem Among.cons {n : Name} {ns : List Name} {ps qs : List Path} (hn : n ∉ ns)
    (hps : fs.Under (p ++ [n]) ps) (hqs : fs.Among p ns qs) : fs.Among p (n :: ns) (ps ++ qs) where
  nodup := by
    rw [List.nodup_append]
    refine ⟨hps.nodup, hqs.nodup, ?_⟩
    rintro a ha b hb rfl
    obtain ⟨⟨m, hm, hmb⟩, -⟩ := (hqs.mem a).mp hb
    rw [prefix_entry_inj ((hps.mem a).mp ha).1 hmb] at hn
    exact hn hm
  mem q := by
    rw [List.mem_append, hps.mem, hqs.mem, ← or_and_right]
    simp only [List.exists_mem_cons_iff]

/-- The leaves under a directory are those under its entries. -/
theorem under_of_among (hp : fs.node p = some .dir) {ns : List Name} (hns : ns.Perm (fs.list p))
    (hne : ns ≠ []) {ps : List Path} (h : fs.Among p ns ps) : fs.Under p ps where
  nodup := h.nodup
  mem q := by
    rw [h.mem]
    apply and_congr_left
    intro hleaf
    constructor
    · rintro ⟨n, -, hn⟩
      exact (List.prefix_append p [n]).trans hn
    · rintro ⟨r, rfl⟩
      cases r with
      | nil =>
        -- the directory is not empty, so it is no leaf
        rw [List.append_nil] at hleaf
        rw [hleaf.2 hp] at hns
        exact absurd hns.eq_nil hne
      | cons n r =>
        have hpre : p ++ [n] <+: p ++ n :: r := ⟨r, by simp⟩
        refine ⟨n, ?_, hpre⟩
        rw [hns.mem_iff, mem_list]
        by_contra hno
        rw [Bool.not_eq_true, Option.isSome_eq_false_iff, Option.isNone_iff_eq_none] at hno
        exact hleaf.1 (fs.node_of_prefix_none hno hpre)

/-- **Every location leads to a leaf.**  The paths of the tree are at most so long, and going into a
    directory makes the path longer. -/
theorem exists_leaf (hp : fs.node p ≠ none) : ∃ q, p <+: q ∧ fs.IsLeaf q := by
  have key : ∀ k p, fs.node p ≠ none → (∀ q ∈ fs.order, q.length ≤ p.length + k) →
      ∃ q, p <+: q ∧ fs.IsLeaf q := by
    intro k
    induction k with
    | zero =>
      intro p hp hbound
      refine ⟨p, List.prefix_rfl, hp, fun _ => ?_⟩
      rw [List.eq_nil_iff_forall_not_mem]
      intro n hn
      rw [mem_list] at hn
      have hlen := hbound (p ++ [n]) ((fs.mem_order _).mpr ⟨by simp, hn⟩)
      rw [List.length_append, List.length_singleton] at hlen
      omega
    | succ k ih =>
      intro p hp hbound
      by_cases hleaf : fs.IsLeaf p
      · exact ⟨p, List.prefix_rfl, hleaf⟩
      · obtain ⟨n, hn⟩ : ∃ n, n ∈ fs.list p := by
          apply List.exists_mem_of_ne_nil
          intro hnil
          exact hleaf ⟨hp, fun _ => hnil⟩
        rw [mem_list] at hn
        obtain ⟨q, hq, hleaf⟩ := ih (p ++ [n]) (Option.ne_none_iff_isSome.mpr hn) fun q hq => by
          have := hbound q hq
          rw [List.length_append, List.length_singleton]
          omega
        exact ⟨q, (List.prefix_append p [n]).trans hq, hleaf⟩
  refine key (fs.order.toFinset.sup List.length) p hp fun q hq => ?_
  have hle := Finset.le_sup (f := List.length) (List.mem_toFinset.mpr hq)
  omega

/-- There are at least as many leaves as entries that they lie under. -/
theorem Among.length_le {ns : List Name} (hns : ns.Nodup)
    (hthere : ∀ n ∈ ns, fs.node (p ++ [n]) ≠ none) {ps : List Path} (h : fs.Among p ns ps) :
    ns.length ≤ ps.length := by
  have hsub : ns.map some ⊆ ps.map fun q => (q.drop p.length).head? := by
    intro o ho
    obtain ⟨n, hn, rfl⟩ := List.mem_map.mp ho
    obtain ⟨q, ⟨r, rfl⟩, hleaf⟩ := exists_leaf (hthere n hn)
    refine List.mem_map.mpr ⟨_, (h.mem _).mpr ⟨⟨n, hn, r, rfl⟩, hleaf⟩, ?_⟩
    rw [List.append_assoc, List.drop_left]
    rfl
  have hle := ((hns.map (Option.some_injective Name)).subperm hsub).length_le
  rwa [List.length_map, List.length_map] at hle

/-- What a location shows, if there is something. -/
def entryAt (fs : FileSystem) (q : Path) : Entry := ((fs.node q).map Node.entry).getD .special

theorem entryAt_eq {q : Path} {nd : Node} (hq : fs.node q = some nd) : fs.entryAt q = nd.entry := by
  simp [entryAt, hq]

/-- Leaves as entries, each with its path below a directory. -/
def entriesOf (fs : FileSystem) (p : Path) (ps : List Path) : List (Path × Entry) :=
  ps.map fun q => (q.drop p.length, fs.entryAt q)

/-- **The leaves of a part of a directory** are the leaves of its tree. -/
theorem leaves_only (hp : fs.node p = some .dir) {ns : List Name} {ps : List Path}
    (h : fs.Among p ns ps) : ((fs.tree p).only ns).Leaves (fs.entriesOf p ps) := by
  -- the leaves that are listed, by their paths below the directory
  have hbelow : ∀ q ∈ ps, ∃ n ∈ ns, ∃ r, q = p ++ n :: r ∧ q.drop p.length = n :: r := by
    intro q hq
    obtain ⟨⟨n, hn, r, rfl⟩, -⟩ := (h.mem q).mp hq
    exact ⟨n, hn, r, by simp, by simp⟩
  have honly : ∀ n ∈ ns, ∀ r, (fs.tree p).only ns (n :: r) = fs.tree p (n :: r) := fun n hn r =>
    if_pos hn
  have hin : ∀ n r, (fs.tree p).only ns (n :: r) ≠ none → n ∈ ns ∧
    fs.node (p ++ n :: r) ≠ none := by
    intro n r hne
    by_cases hn : n ∈ ns
    · rw [honly n hn, ne_eq, tree_eq_none] at hne
      exact ⟨hn, hne⟩
    · exact absurd (if_neg hn) hne
  constructor
  case root => exact tree_eq_dir.mpr (by rw [List.append_nil]; exact hp)
  case above =>
    rintro q r hr ⟨s, rfl⟩ hne
    cases q with
    | nil => exact tree_eq_dir.mpr (by rw [List.append_nil]; exact hp)
    | cons n q =>
      obtain ⟨hn, hnode⟩ := hin n (q ++ s) hr
      rw [honly n hn]
      refine tree_above (q := n :: (q ++ s)) ?_ ⟨s, rfl⟩ hne
      rw [tree_isSome, ← Option.ne_none_iff_isSome]
      exact hnode
  case nodup =>
    show ((ps.map _).map Prod.fst).Nodup
    rw [List.map_map]
    refine h.nodup.map_on fun a ha b hb hab => ?_
    obtain ⟨n, -, r, rfl, hr⟩ := hbelow a ha
    obtain ⟨m, -, s, rfl, hs⟩ := hbelow b hb
    have hab' : (p ++ n :: r).drop p.length = (p ++ m :: s).drop p.length := hab
    rw [hr, hs] at hab'
    rw [hab']
  case entry =>
    intro f hf
    obtain ⟨q, hq, rfl⟩ := List.mem_map.mp hf
    obtain ⟨n, hn, r, rfl, hr⟩ := hbelow q hq
    obtain ⟨nd, hnd⟩ := Option.ne_none_iff_exists'.mp ((h.mem _).mp hq).2.1
    dsimp only
    rw [hr, honly n hn, entryAt_eq hnd]
    exact ⟨List.cons_ne_nil n r, by simp [tree, hnd]⟩
  case leaf =>
    intro f hf q hpre hne
    obtain ⟨q', hq', rfl⟩ := List.mem_map.mp hf
    obtain ⟨n, hn, r, rfl, hr⟩ := hbelow q' hq'
    dsimp only at hpre ⊢
    rw [hr] at hpre ⊢
    obtain ⟨s, rfl⟩ := hpre
    have hleaf := ((h.mem _).mp hq').2
    have hnode : fs.node ((p ++ n :: r) ++ s) ≠ none := by
      have := (hin n (r ++ s) hne).2
      simpa using this
    by_cases hs : s = []
    · rw [hs, List.append_nil]
    · refine absurd ?_ hnode
      by_cases hd : fs.node (p ++ n :: r) = some .dir
      · exact fs.node_below_of_list_nil (hleaf.2 hd) hs
      · exact fs.node_below hd hs
  case all =>
    intro q hq hne
    obtain ⟨n, r, rfl⟩ := List.exists_cons_of_ne_nil hq
    obtain ⟨hn, hnode⟩ := hin n r hne
    obtain ⟨q, ⟨s, rfl⟩, hleaf⟩ := exists_leaf hnode
    refine ⟨_, List.mem_map_of_mem ((h.mem _).mpr ⟨⟨n, hn, r ++ s, by simp⟩, hleaf⟩), s, ?_⟩
    simp

end FileSystem

end Posix
