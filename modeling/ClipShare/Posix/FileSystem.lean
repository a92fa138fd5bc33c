import Mathlib.Data.List.Infix
import Mathlib.Data.List.Nodup
import Mathlib.Data.List.Basic
import Mathlib.Data.List.Dedup

namespace Posix

/-!
# A POSIX file tree

The part of a POSIX file system that programs working on regular files and directories see:
a tree of names, regular files identified by an inode number, and the calls that change the
tree.  Symbolic links are absent.

* `FileSystem` — the tree as a map from locations to nodes, together with the order in which
  directories list their entries; the fields say that it is a tree (every entry lies in a
  directory), that the listing order is exact and that inode numbers are allocated in order;
* `add` / `write` / `truncate` / `erase` / `move` — the primitive changes, total on valid trees;
* `mkdirAt` / `createAt` / `unlinkAt` / `rmdirAt` / `renameAt` — what the system calls do at a
  location, `none` being an error that changes nothing;
* `list` — the entries of a directory.

An open file is its inode number: writing goes on to reach a file that has been renamed.
-/

/-- Strings are sequences of bytes. -/
abbrev Bytes := List UInt8

instance : LawfulBEq Bytes := inferInstance

/-- A name is one component of a path. -/
abbrev Name := Bytes

/-- A location in the tree: the names on the way from the root. -/
abbrev Path := List Name

/-- What a location can hold.  `special` stands for devices, sockets and pipes. -/
inductive Node
  | dir
  | file (ino : Nat) (data : Bytes)
  | special
  deriving DecidableEq, Repr

/-- A file tree. -/
structure FileSystem where
  node : Path → Option Node
  /-- All locations but the root, in the order in which directories list them. -/
  order : List Path
  nextIno : Nat
  root : node [] = some .dir
  closed : ∀ p n, (node (p ++ [n])).isSome → node p = some .dir
  mem_order : ∀ p, p ∈ order ↔ p ≠ [] ∧ (node p).isSome
  nodup : order.Nodup
  fresh : ∀ p i d, node p = some (.file i d) → i < nextIno
  coherent : ∀ p q i d e, node p = some (.file i d) → node q = some (.file i e) → d = e

namespace FileSystem

/-- The tree that consists of the root. -/
def bare : FileSystem where
  node p := if p = [] then some .dir else none
  order := []
  nextIno := 0
  root := rfl
  closed := by simp
  mem_order := by
    intro p
    by_cases hp : p = [] <;> simp [hp]
  nodup := List.nodup_nil
  fresh := by
    intro p i d h
    split at h <;> cases h
  coherent := by
    intro p q i d e h
    split at h <;> cases h

/-- The tree that consists of one directory, and those above it. -/
def chain (p : Path) : FileSystem where
  node q := if q <+: p then some .dir else none
  order := (p.inits.filter (· ≠ [])).dedup
  nextIno := 0
  root := if_pos List.nil_prefix
  closed := by
    intro q n h
    have hpre : q ++ [n] <+: p := by
      by_contra hno
      rw [if_neg hno] at h
      cases h
    exact if_pos ((List.prefix_append q [n]).trans hpre)
  mem_order := by
    intro q
    rw [List.mem_dedup, List.mem_filter, List.mem_inits, decide_eq_true_eq, and_comm]
    by_cases hq : q <+: p <;> simp [hq]
  nodup := List.nodup_dedup _
  fresh := by
    intro q i d h
    split at h <;> cases h
  coherent := by
    intro q r i d e h
    split at h <;> cases h

theorem chain_node (p : Path) : (chain p).node p = some .dir := if_pos List.prefix_rfl

variable (fs : FileSystem)

/-- A location below one that is not a directory is empty. -/
theorem node_below {p q : Path} (hp : fs.node p ≠ some .dir) (hq : q ≠ []) :
    fs.node (p ++ q) = none := by
  induction q using List.reverseRecOn with
  | nil => exact absurd rfl hq
  | append_singleton q n ih =>
    rw [← List.append_assoc]
    cases h : fs.node ((p ++ q) ++ [n]) with
    | none => rfl
    | some nd =>
      have hd := fs.closed (p ++ q) n (by rw [h]; rfl)
      by_cases hq' : q = []
      · subst hq'; rw [List.append_nil] at hd; exact absurd hd hp
      · rw [ih hq'] at hd; simp at hd

/-- Nothing exists below a location that is empty. -/
theorem node_of_prefix_none {p q : Path} (hp : fs.node p = none) (h : p <+: q) :
    fs.node q = none := by
  obtain ⟨r, rfl⟩ := h
  by_cases hr : r = []
  · simpa [hr] using hp
  · exact fs.node_below (by simp [hp]) hr

/-- What lies above an existing location is a directory. -/
theorem dir_of_prefix {p q : Path} (hq : (fs.node q).isSome) (h : p <+: q) (hne : p ≠ q) :
    fs.node p = some .dir := by
  obtain ⟨r, rfl⟩ := h
  by_contra hd
  have hr : r ≠ [] := by rintro rfl; exact hne (by simp)
  rw [fs.node_below hd hr] at hq
  simp at hq

/-! ### Listing a directory -/

/-- The name of `q` when `q` is an entry of the directory `p`. -/
def entryOf (p q : Path) : Option Name := if q.dropLast = p then q.getLast? else none

theorem entryOf_eq_some {p q : Path} {n : Name} : entryOf p q = some n ↔ q = p ++ [n] := by
  unfold entryOf
  constructor
  · intro h
    split at h
    · rename_i hp
      rw [← hp]
      exact (List.dropLast_append_getLast? n (by rw [h]; rfl)).symm
    · cases h
  · rintro rfl; simp

/-- The entries of the directory `p`. -/
def list (p : Path) : List Name := fs.order.filterMap (entryOf p)

theorem mem_list {p : Path} {n : Name} : n ∈ fs.list p ↔ (fs.node (p ++ [n])).isSome := by
  unfold list
  rw [List.mem_filterMap]
  constructor
  · rintro ⟨q, hq, hn⟩
    rw [entryOf_eq_some] at hn
    subst hn
    exact ((fs.mem_order _).mp hq).2
  · intro h
    exact ⟨p ++ [n], (fs.mem_order _).mpr ⟨by simp, h⟩, entryOf_eq_some.mpr rfl⟩

theorem nodup_list (p : Path) : (fs.list p).Nodup := by
  unfold list
  refine fs.nodup.filterMap ?_
  intro a b n ha hb
  rw [Option.mem_def, entryOf_eq_some] at ha hb
  rw [ha, hb]

/-- The one directory of a chain has no entries. -/
theorem chain_list (p : Path) : (chain p).list p = [] := by
  rw [List.eq_nil_iff_forall_not_mem]
  intro n hn
  rw [mem_list] at hn
  have hno : ¬ p ++ [n] <+: p := by
    intro h
    have hlen := h.length_le
    rw [List.length_append, List.length_singleton] at hlen
    omega
  have hnode : (chain p).node (p ++ [n]) = none := if_neg hno
  rw [hnode] at hn
  cases hn

/-- A directory without entries has nothing below it. -/
theorem node_below_of_list_nil {p q : Path} (h : fs.list p = []) (hq : q ≠ []) :
    fs.node (p ++ q) = none := by
  obtain ⟨n, r, rfl⟩ := List.exists_cons_of_ne_nil hq
  have hn : fs.node (p ++ [n]) = none := by
    have : n ∉ fs.list p := by simp [h]
    rw [mem_list] at this
    simpa using this
  exact fs.node_of_prefix_none hn ⟨r, by simp⟩

/-! ### The contents of an inode -/

/-- The contents at a location, if the inode `ino` is there. -/
def dataAt (ino : Nat) (p : Path) : Option Bytes :=
  match fs.node p with
  | some (.file i d) => if i = ino then some d else none
  | _ => none

theorem dataAt_eq_some {ino : Nat} {p : Path} {d : Bytes} :
    fs.dataAt ino p = some d ↔ fs.node p = some (.file ino d) := by
  unfold dataAt
  constructor
  · intro h
    split at h
    · rename_i i e hp
      split at h
      · rename_i hi; cases h; rw [hp, hi]
      · cases h
    · cases h
  · intro h; simp [h]

/-- The contents of an inode. -/
def dataOf (ino : Nat) : Option Bytes := fs.order.findSome? (fs.dataAt ino)

/-- An inode has the contents found at any location that holds it. -/
theorem dataOf_eq {p : Path} {ino : Nat} {d : Bytes} (h : fs.node p = some (.file ino d)) :
    fs.dataOf ino = some d := by
  have hp : p ∈ fs.order := by
    rw [fs.mem_order]
    refine ⟨?_, by simp [h]⟩
    rintro rfl
    rw [fs.root] at h
    cases h
  unfold dataOf
  cases hf : fs.order.findSome? (fs.dataAt ino) with
  | none =>
    rw [List.findSome?_eq_none_iff] at hf
    have := hf p hp
    rw [fs.dataAt_eq_some.mpr h] at this
    cases this
  | some e =>
    obtain ⟨q, _, hq⟩ := List.exists_of_findSome?_eq_some hf
    rw [dataAt_eq_some] at hq
    rw [fs.coherent q p ino e d hq h]

/-! ### Primitive changes -/

/-- Add a node at an empty location of a directory. -/
def add (p : Path) (n : Name) (nd : Node) (nxt : Nat) (hp : fs.node p = some .dir)
    (hn : fs.node (p ++ [n]) = none) (hnxt : fs.nextIno ≤ nxt)
    (hnd : ∀ i d, nd = .file i d → i < nxt) (hnew : ∀ i d, nd = .file i d → fs.nextIno ≤ i) :
    FileSystem where
  node q := if q = p ++ [n] then some nd else fs.node q
  order := fs.order ++ [p ++ [n]]
  nextIno := nxt
  root := by simp [fs.root]
  closed := by
    intro q k h
    -- what is above the new node is a directory, and what was one still is
    by_cases hk : q ++ [k] = p ++ [n]
    · have : q = p := (List.append_inj' hk rfl).1
      subst this
      rw [if_neg (by simp)]
      exact hp
    · rw [if_neg hk] at h
      have hd := fs.closed q k h
      rw [if_neg]
      · exact hd
      · rintro rfl; rw [hn] at hd; cases hd
  mem_order := by
    intro q
    by_cases hq : q = p ++ [n]
    · subst hq; simp
    · simp only [List.mem_append, List.mem_singleton, hq, or_false, if_false]
      exact fs.mem_order q
  nodup := by
    rw [List.nodup_append]
    refine ⟨fs.nodup, by simp, ?_⟩
    intro a ha b hb
    rw [List.mem_singleton] at hb
    subst hb
    rintro rfl
    have := ((fs.mem_order _).mp ha).2
    simp [hn] at this
  fresh := by
    intro q i d h
    by_cases hq : q = p ++ [n]
    · rw [if_pos hq] at h
      exact hnd i d (Option.some.inj h)
    · rw [if_neg hq] at h
      exact lt_of_lt_of_le (fs.fresh q i d h) hnxt
  coherent := by
    intro q r i d e hq hr
    -- a new inode number has no contents elsewhere
    by_cases h1 : q = p ++ [n] <;> by_cases h2 : r = p ++ [n]
    · rw [if_pos h1] at hq; rw [if_pos h2] at hr; cases hq; cases hr; rfl
    · rw [if_pos h1] at hq; rw [if_neg h2] at hr
      have := fs.fresh r i e hr
      have := hnew i d (Option.some.inj hq)
      omega
    · rw [if_neg h1] at hq; rw [if_pos h2] at hr
      have := fs.fresh q i d hq
      have := hnew i e (Option.some.inj hr)
      omega
    · rw [if_neg h1] at hq; rw [if_neg h2] at hr
      exact fs.coherent q r i d e hq hr

/-- Apply a change of contents to the file with inode number `ino`. -/
def modify (ino : Nat) (f : Bytes → Bytes) : FileSystem where
  node q := match fs.node q with
    | some (.file i d) => some (.file i (if i = ino then f d else d))
    | o => o
  order := fs.order
  nextIno := fs.nextIno
  root := by rw [fs.root]
  closed := by
    intro p n h
    have : (fs.node (p ++ [n])).isSome := by
      cases hn : fs.node (p ++ [n]) with
      | none => simp [hn] at h
      | some nd => rfl
    rw [fs.closed p n this]
  mem_order := by
    intro p
    rw [fs.mem_order p]
    cases fs.node p with
    | none => simp
    | some nd => cases nd <;> simp
  nodup := fs.nodup
  fresh := by
    intro p i d h
    cases hn : fs.node p with
    | none => simp [hn] at h
    | some nd =>
      cases nd with
      | dir => simp [hn] at h
      | special => simp [hn] at h
      | file j e =>
        simp only [hn, Option.some.injEq, Node.file.injEq] at h
        exact h.1 ▸ fs.fresh p j e hn
  coherent := by
    intro p q i d e hp hq
    cases hnp : fs.node p with
    | none => simp [hnp] at hp
    | some ndp =>
      cases hnq : fs.node q with
      | none => simp [hnq] at hq
      | some ndq =>
        cases ndp <;> simp only [hnp, Option.some.injEq, Node.file.injEq, reduceCtorEq] at hp
        cases ndq <;> simp only [hnq, Option.some.injEq, Node.file.injEq, reduceCtorEq] at hq
        rename_i ip dp iq dq
        obtain ⟨rfl, rfl⟩ := hp
        obtain ⟨rfl, rfl⟩ := hq
        rw [fs.coherent p q _ _ _ hnp hnq]

/-- Remove a location with nothing below it. -/
def erase (p : Path) (hp : p ≠ []) (hl : fs.list p = []) : FileSystem where
  node q := if q = p then none else fs.node q
  order := fs.order.filter (· ≠ p)
  nextIno := fs.nextIno
  root := by rw [if_neg (Ne.symm hp)]; exact fs.root
  closed := by
    intro q k h
    have hk : q ++ [k] ≠ p := by rintro rfl; simp at h
    rw [if_neg hk] at h
    rw [if_neg]
    · exact fs.closed q k h
    · -- nothing is below the erased location
      rintro rfl
      rw [fs.node_below_of_list_nil hl (by simp)] at h
      simp at h
  mem_order := by
    intro q
    rw [List.mem_filter, fs.mem_order q]
    by_cases hq : q = p <;> simp [hq]
  nodup := fs.nodup.filter _
  fresh := by
    intro q i d h
    by_cases hq : q = p
    · simp [hq] at h
    · rw [if_neg hq] at h; exact fs.fresh q i d h
  coherent := by
    intro q r i d e hq hr
    split at hq
    · cases hq
    · split at hr
      · cases hr
      · exact fs.coherent q r i d e hq hr

/-- Where `q` is after what was at `src` has moved to `dst`. -/
def relocate (src dst q : Path) : Path := if src <+: q then dst ++ q.drop src.length else q

/-- Move the tree at `src` to an empty location `par ++ [n]` outside it. -/
def move (src par : Path) (n : Name) (hsrc : src ≠ []) (hpar : fs.node par = some .dir)
    (hdst : fs.node (par ++ [n]) = none) (hout : ¬ src <+: par ++ [n]) : FileSystem where
  node q := if par ++ [n] <+: q then fs.node (src ++ q.drop (par ++ [n]).length)
    else if src <+: q then none else fs.node q
  order := fs.order.map (relocate src (par ++ [n]))
  nextIno := fs.nextIno
  root := by
    rw [if_neg (by simp), if_neg (by simpa using hsrc)]
    exact fs.root
  closed := by
    intro q k h
    -- below the target everything is as it was below the source
    by_cases hd : par ++ [n] <+: q ++ [k]
    · rw [if_pos hd] at h
      by_cases hq : par ++ [n] <+: q
      · rw [if_pos hq]
        obtain ⟨r, rfl⟩ := hq
        rw [List.append_assoc, List.drop_left] at h
        rw [List.drop_left]
        exact fs.closed _ k (by simpa using h)
      · -- at the target itself: its parent is `par`, which does not move
        have heq : par ++ [n] = q ++ [k] := by
          rcases (List.prefix_concat_iff).mp hd with heq | hpre
          · exact heq
          · exact absurd hpre hq
        have hqp : q = par := (List.append_inj' heq rfl).1.symm
        subst hqp
        rw [if_neg hq, if_neg]
        · exact hpar
        · exact fun hs => hout (hs.trans (List.prefix_append _ _))
    · rw [if_neg hd] at h
      have hq : ¬ par ++ [n] <+: q := fun hq => hd (hq.trans (List.prefix_append _ _))
      rw [if_neg hq]
      by_cases hs : src <+: q ++ [k]
      · rw [if_pos hs] at h; simp at h
      · rw [if_neg hs] at h
        rw [if_neg (fun hs' => hs (hs'.trans (List.prefix_append _ _)))]
        exact fs.closed q k h
  mem_order := by
    intro q
    rw [List.mem_map]
    constructor
    · rintro ⟨p, hp, rfl⟩
      obtain ⟨hp0, hps⟩ := (fs.mem_order p).mp hp
      unfold relocate
      by_cases hs : src <+: p
      · rw [if_pos hs]
        obtain ⟨r, rfl⟩ := hs
        rw [if_pos (by simp)]
        refine ⟨by simp, ?_⟩
        simpa [List.drop_left] using hps
      · rw [if_neg hs]
        have hd : ¬ par ++ [n] <+: p := by
          intro hd
          -- nothing was below the target before
          rw [fs.node_of_prefix_none hdst hd] at hps
          simp at hps
        rw [if_neg hd, if_neg hs]
        exact ⟨hp0, hps⟩
    · rintro ⟨hq0, hqs⟩
      by_cases hd : par ++ [n] <+: q
      · rw [if_pos hd] at hqs
        obtain ⟨r, rfl⟩ := hd
        rw [List.drop_left] at hqs
        refine ⟨src ++ r, (fs.mem_order _).mpr ⟨by simp [hsrc], hqs⟩, ?_⟩
        simp [relocate]
      · rw [if_neg hd] at hqs
        by_cases hs : src <+: q
        · rw [if_pos hs] at hqs; simp at hqs
        · rw [if_neg hs] at hqs
          exact ⟨q, (fs.mem_order _).mpr ⟨hq0, hqs⟩, if_neg hs⟩
  nodup := by
    refine List.Nodup.map_on ?_ fs.nodup
    intro a ha b hb hab
    have hna : ¬ par ++ [n] <+: a := by
      intro hd
      have := ((fs.mem_order a).mp ha).2
      rw [fs.node_of_prefix_none hdst hd] at this
      simp at this
    have hnb : ¬ par ++ [n] <+: b := by
      intro hd
      have := ((fs.mem_order b).mp hb).2
      rw [fs.node_of_prefix_none hdst hd] at this
      simp at this
    -- no location was below the target, so nothing lands where something is
    unfold relocate at hab
    by_cases hsa : src <+: a <;> by_cases hsb : src <+: b
    · obtain ⟨r, rfl⟩ := hsa
      obtain ⟨r', rfl⟩ := hsb
      simpa [List.drop_left] using hab
    · rw [if_pos hsa, if_neg hsb] at hab
      exact absurd (hab ▸ List.prefix_append _ _) hnb
    · rw [if_neg hsa, if_pos hsb] at hab
      exact absurd (hab ▸ List.prefix_append _ _) hna
    · rw [if_neg hsa, if_neg hsb] at hab
      exact hab
  fresh := by
    intro q i d h
    by_cases hd : par ++ [n] <+: q
    · rw [if_pos hd] at h; exact fs.fresh _ i d h
    · rw [if_neg hd] at h
      by_cases hs : src <+: q
      · simp [hs] at h
      · rw [if_neg hs] at h; exact fs.fresh _ i d h
  coherent := by
    -- every file of the new tree is one of the old tree
    have key : ∀ q i d, (if par ++ [n] <+: q then fs.node (src ++ q.drop (par ++ [n]).length)
        else if src <+: q then none else fs.node q) = some (.file i d) →
        ∃ q', fs.node q' = some (.file i d) := by
      intro q i d h
      split at h
      · exact ⟨_, h⟩
      · split at h
        · cases h
        · exact ⟨_, h⟩
    intro q r i d e hq hr
    obtain ⟨q', hq'⟩ := key q i d hq
    obtain ⟨r', hr'⟩ := key r i e hr
    exact fs.coherent q' r' i d e hq' hr'

/-! ### The system calls at a location -/

@[simp] theorem add_node (p : Path) (n : Name) (nd : Node) (nxt : Nat) (hp hn hnxt hnd hnew)
    (q : Path) : (fs.add p n nd nxt hp hn hnxt hnd hnew).node q
      = if q = p ++ [n] then some nd else fs.node q := rfl

@[simp] theorem erase_node (p : Path) (hp hl) (q : Path) :
    (fs.erase p hp hl).node q = if q = p then none else fs.node q := rfl

@[simp] theorem move_node (src par : Path) (n : Name) (h1 h2 h3 h4) (q : Path) :
    (fs.move src par n h1 h2 h3 h4).node q
      = if par ++ [n] <+: q then fs.node (src ++ q.drop (par ++ [n]).length)
        else if src <+: q then none else fs.node q := rfl

/-- `mkdir`: the parent has to be a directory and the name has to be free. -/
def mkdirAt (p : Path) (n : Name) : Option FileSystem :=
  if h : fs.node p = some .dir ∧ fs.node (p ++ [n]) = none then
    some (fs.add p n .dir fs.nextIno h.1 h.2 le_rfl (by simp) (by simp))
  else none

/-- `open` with `O_WRONLY | O_CREAT | O_TRUNC`: an existing regular file loses its contents,
    a free name gets a new file.  The answer is the inode number of the open file. -/
def createAt (p : Path) (n : Name) : Option (Nat × FileSystem) :=
  match h : fs.node (p ++ [n]) with
  | some (.file i _) => some (i, fs.modify i (fun _ => []))
  | some _ => none
  | none =>
      if hp : fs.node p = some .dir then
        some (fs.nextIno, fs.add p n (.file fs.nextIno []) (fs.nextIno + 1) hp h (by omega)
          (by rintro i d ⟨⟩; omega)
          (by rintro i d ⟨⟩; omega))
      else none

/-- The contents after `data` was written at offset `off`; a gap reads as zeros. -/
def patch (off : Nat) (data old : Bytes) : Bytes :=
  old.take off ++ List.replicate (off - old.length) 0 ++ data ++ old.drop (off + data.length)

/-- `write` to an open file. -/
def writeAt (ino off : Nat) (data : Bytes) : FileSystem := fs.modify ino (patch off data)

/-- `remove`: unlink a file, or remove an empty directory. -/
def removeAt (p : Path) : Option FileSystem :=
  if h : p ≠ [] ∧ (fs.node p).isSome ∧ fs.list p = [] then some (fs.erase p h.1 h.2.2) else none

/-- `rmdir`: remove an empty directory. -/
def rmdirAt (p : Path) : Option FileSystem :=
  if h : p ≠ [] ∧ fs.node p = some .dir ∧ fs.list p = [] then some (fs.erase p h.1 h.2.2)
  else none

/-- `rename` replaces a directory only by a directory and a non-directory only by a
    non-directory. -/
def replaceable : Option Node → Option Node → Bool
  | some .dir, some .dir => true
  | some .dir, _ => false
  | _, some .dir => false
  | _, _ => true

/-- `rename` from `src` to `par ++ [n]`.  An existing target is replaced when the kinds match
    and it is no directory with entries. -/
def renameAt (src par : Path) (n : Name) : Option FileSystem :=
  if src = par ++ [n] then (if (fs.node src).isSome then some fs else none)
  else if h : src ≠ [] ∧ (fs.node src).isSome ∧ fs.node par = some .dir ∧ ¬ src <+: par ++ [n] then
    if hd : fs.node (par ++ [n]) = none then
      some (fs.move src par n h.1 h.2.2.1 hd h.2.2.2)
    else if hr : replaceable (fs.node src) (fs.node (par ++ [n])) ∧ fs.list (par ++ [n]) = [] then
      some ((fs.erase (par ++ [n]) (by simp) hr.2).move src par n h.1
        (by rw [erase_node, if_neg (by simp)]; exact h.2.2.1)
        (by rw [erase_node, if_pos rfl]) h.2.2.2)
    else none
  else none

variable {fs}

theorem mkdirAt_eq_some {p : Path} {n : Name} {fs' : FileSystem}
    (h : fs.mkdirAt p n = some fs') :
    fs.node p = some .dir ∧ fs.node (p ++ [n]) = none ∧ fs'.nextIno = fs.nextIno ∧
      ∀ q, fs'.node q = if q = p ++ [n] then some .dir else fs.node q := by
  unfold mkdirAt at h
  split at h
  · rename_i hpn
    cases h
    exact ⟨hpn.1, hpn.2, rfl, fun _ => rfl⟩
  · cases h

theorem mkdirAt_isSome {p : Path} {n : Name} (hp : fs.node p = some .dir)
    (hn : fs.node (p ++ [n]) = none) : (fs.mkdirAt p n).isSome := by
  unfold mkdirAt
  rw [dif_pos ⟨hp, hn⟩]
  rfl

/-- Creating a file at a free name of a directory: a new inode with no contents, nothing else
    changes. -/
theorem createAt_new {p : Path} {n : Name} (hp : fs.node p = some .dir)
    (hn : fs.node (p ++ [n]) = none) :
    ∃ fs', fs.createAt p n = some (fs.nextIno, fs') ∧
      (∀ q, fs'.node q = if q = p ++ [n] then some (.file fs.nextIno []) else fs.node q) ∧
      fs'.order = fs.order ++ [p ++ [n]] ∧ fs'.nextIno = fs.nextIno + 1 := by
  unfold createAt
  split
  · rename_i h; rw [hn] at h; cases h
  · rename_i h; rw [hn] at h; cases h
  · rw [dif_pos hp]
    exact ⟨_, rfl, fun _ => rfl, rfl, rfl⟩

/-- An existing file is emptied. -/
theorem createAt_file {p : Path} {n : Name} {i : Nat} {d : Bytes}
    (hn : fs.node (p ++ [n]) = some (.file i d)) :
    fs.createAt p n = some (i, fs.modify i fun _ => []) := by
  unfold createAt
  split
  · rename_i h
    rw [hn] at h
    cases h
    rfl
  · rename_i hno h
    rw [hn] at h
    cases h
    exact absurd rfl (hno i d)
  · rename_i h
    rw [hn] at h
    cases h

/-- Nothing else can be opened for writing, and without its directory nothing can be created. -/
theorem createAt_eq_none {p : Path} {n : Name} (hn : ∀ i d, fs.node (p ++ [n]) ≠ some (.file i d))
    (hp : fs.node (p ++ [n]) = none → fs.node p ≠ some .dir) : fs.createAt p n = none := by
  unfold createAt
  split
  · rename_i h
    exact absurd h (hn _ _)
  · rfl
  · rename_i h
    rw [dif_neg (hp h)]

/-- The new inode is at one location only. -/
theorem eq_of_newest {fs' : FileSystem} {p q : Path} {d : Bytes}
    (h : ∀ q, fs'.node q = if q = p then some (.file fs.nextIno []) else fs.node q)
    (hq : fs'.node q = some (.file fs.nextIno d)) : q = p := by
  by_contra hne
  rw [h, if_neg hne] at hq
  exact absurd (fs.fresh q _ d hq) (lt_irrefl _)

/-- Writing to an inode changes the contents of the locations that hold it and no other. -/
theorem writeAt_node (ino off : Nat) (data : Bytes) (q : Path) :
    (fs.writeAt ino off data).node q = match fs.node q with
      | some (.file i d) => some (.file i (if i = ino then patch off data d else d))
      | o => o := rfl

/-- A location that does not hold the inode written to keeps its node. -/
theorem writeAt_node_of_ne {ino off : Nat} {data : Bytes} {q : Path}
    (h : ∀ d, fs.node q ≠ some (.file ino d)) :
    (fs.writeAt ino off data).node q = fs.node q := by
  rw [writeAt_node]
  cases hq : fs.node q with
  | none => rfl
  | some nd =>
    cases nd with
    | dir => rfl
    | special => rfl
    | file i d =>
      have : i ≠ ino := by rintro rfl; exact h d hq
      simp [this]

/-- Appending at the end of the contents. -/
theorem patch_length (data old : Bytes) : patch old.length data old = old ++ data := by
  simp [patch]

theorem removeAt_eq_some {p : Path} {fs' : FileSystem} (h : fs.removeAt p = some fs') :
    p ≠ [] ∧ fs.list p = [] ∧ fs'.nextIno = fs.nextIno ∧
      ∀ q, fs'.node q = if q = p then none else fs.node q := by
  unfold removeAt at h
  split at h
  · rename_i hp
    cases h
    exact ⟨hp.1, hp.2.2, rfl, fun _ => rfl⟩
  · cases h

theorem rmdirAt_eq_some {p : Path} {fs' : FileSystem} (h : fs.rmdirAt p = some fs') :
    p ≠ [] ∧ fs.node p = some .dir ∧ fs.list p = [] ∧ fs'.nextIno = fs.nextIno ∧
      ∀ q, fs'.node q = if q = p then none else fs.node q := by
  unfold rmdirAt at h
  split at h
  · rename_i hp
    cases h
    exact ⟨hp.1, hp.2.1, hp.2.2, rfl, fun _ => rfl⟩
  · cases h

theorem rmdirAt_isSome {p : Path} (hp : p ≠ []) (hd : fs.node p = some .dir)
    (hl : fs.list p = []) : (fs.rmdirAt p).isSome := by
  unfold rmdirAt
  rw [dif_pos ⟨hp, hd, hl⟩]
  rfl

/-- Whether or not it replaces something, a rename puts the tree of the source at the target
    and leaves everything else where it was. -/
theorem renameAt_eq_some {src par : Path} {n : Name} {fs' : FileSystem}
    (h : fs.renameAt src par n = some fs') (hne : src ≠ par ++ [n]) :
    src ≠ [] ∧ (fs.node src).isSome ∧ fs.node par = some .dir ∧ ¬ src <+: par ++ [n] ∧
      fs'.nextIno = fs.nextIno ∧
      ∀ q, fs'.node q = if par ++ [n] <+: q then fs.node (src ++ q.drop (par ++ [n]).length)
        else if src <+: q then none else fs.node q := by
  unfold renameAt at h
  rw [if_neg hne] at h
  split at h
  · rename_i hc
    split at h
    · cases h
      exact ⟨hc.1, hc.2.1, hc.2.2.1, hc.2.2.2, rfl, fun _ => rfl⟩
    · split at h
      · cases h
        refine ⟨hc.1, hc.2.1, hc.2.2.1, hc.2.2.2, rfl, fun q => ?_⟩
        rw [move_node, erase_node, erase_node]
        by_cases hq : par ++ [n] <+: q
        · rw [if_pos hq, if_pos hq, if_neg]
          intro hs
          exact hc.2.2.2 ⟨_, hs⟩
        · rw [if_neg hq, if_neg hq]
          by_cases hs : src <+: q
          · rw [if_pos hs, if_pos hs]
          · rw [if_neg hs, if_neg hs, if_neg]
            rintro rfl
            exact hq (List.prefix_refl _)
      · cases h
  · cases h

/-- A rename to a free name in a directory succeeds. -/
theorem renameAt_isSome_of_none {src par : Path} {n : Name} (hs : src ≠ [])
    (he : (fs.node src).isSome) (hp : fs.node par = some .dir)
    (hd : fs.node (par ++ [n]) = none) (hout : ¬ src <+: par ++ [n]) :
    (fs.renameAt src par n).isSome := by
  unfold renameAt
  rw [if_neg (by rintro rfl; exact hout (List.prefix_refl _)), dif_pos ⟨hs, he, hp, hout⟩,
    dif_pos hd]
  rfl

end FileSystem

end Posix
