import ClipShare.Verify.Ownership

namespace ClipShare

open Interaction Posix

/-!
# Inside the temporary directory

What the functions that an upload is made of do inside the session's own directory, whatever the
other sessions do meanwhile.

* `Names` — path strings without `..`, and the locations that they name;
* `Inside` — the session has its directory, and the tree in it is known;
* `Guar.owned` — a step that only changes what the session owns;
* `fileExists_inside`, `mkdirCheck_inside`, `mkdirs_inside` — one lemma for each function.
-/

variable {mode : Mode} {env : Env} {moves : Host → Path → Prop} {l l' : Session} {h h' : Host}

/-! ### Path strings -/

/-- A relative path string without `..`, and the location that it names. -/
structure Names (s : Bytes) (p : Path) : Prop where
  ne : s ≠ []
  rel : s.head? ≠ some sep
  up : dotdot ∉ components s
  loc : plain (components s) = p

theorem Names.locate {s : Bytes} {p : Path} (hn : Names s p) (h : Host) :
    h.locate s = h.cwd ++ p := by
  unfold Host.locate FileSystem.start
  rw [if_neg hn.rel, hn.loc]

theorem Names.resolve {s : Bytes} {p : Path} (hn : Names s p) (h : Host) :
    h.fs.resolve h.cwd s = if (h.fs.node (h.cwd ++ p)).isSome ∧
        (endsInDir (components s) → h.fs.node (h.cwd ++ p) = some .dir)
      then some (h.cwd ++ p) else none := by
  rw [FileSystem.resolve_eq hn.ne hn.rel hn.up, hn.loc]

theorem Names.resolve_none {s : Bytes} {p : Path} (hn : Names s p)
    (hnone : h.fs.node (h.cwd ++ p) = none) : h.fs.resolve h.cwd s = none := by
  rw [hn.resolve, hnone]
  exact if_neg fun h0 => by cases h0.1

/-- The parent of a directory is there. -/
theorem Names.resolve_up {s : Bytes} {p : Path} (hn : Names s p)
    (hd : h.fs.node (h.cwd ++ p) = some .dir) :
    (h.fs.resolve h.cwd (s ++ sep :: dotdot)).isSome := by
  have hwalk : h.fs.walk h.cwd (components s) = some (h.cwd ++ p) := by
    rw [FileSystem.walk_eq hn.up, hn.loc, if_pos ⟨by rw [hd]; rfl, fun _ => hd⟩]
  have hparent : (h.fs.node (h.cwd ++ p).dropLast).isSome := by
    by_cases hnil : h.cwd ++ p = []
    · rw [hnil, List.dropLast_nil, h.fs.root]
      rfl
    · rw [h.fs.dir_of_prefix (by rw [hd]; rfl) (List.dropLast_prefix (h.cwd ++ p))]
      · rfl
      · intro heq
        have hlen := congrArg List.length heq
        have hpos := List.length_pos_of_ne_nil hnil
        rw [List.length_dropLast] at hlen
        omega
  have hhead : (s ++ sep :: dotdot).head? ≠ some sep := by
    rw [List.head?_append_of_ne_nil _ hn.ne]
    exact hn.rel
  have hcomp : components (s ++ sep :: dotdot) = components s ++ [dotdot] := by
    rw [components_append_sep, components_of_not_mem (s := dotdot) (by decide)]
  have hup : stays dotdot = false := by decide
  rw [FileSystem.resolve, if_neg (by simp), FileSystem.start, if_neg hhead, hcomp,
    FileSystem.walk_append, hwalk, Option.bind_some, FileSystem.walk, if_pos hd, hup,
    if_neg (by decide), if_pos rfl, FileSystem.walk, if_pos hparent]
  rfl

/-- The components before the last one. -/
theorem Names.plain_init {s : Bytes} {p : Path} {ks : List Name} {n : Name}
    (hn : Names s (p ++ [n])) (hks : components s = ks ++ [n]) : plain ks = p := by
  have hmem : n ∈ plain (components s) := by rw [hn.loc]; simp
  have hsingle : plain [n] = [n] := List.filter_eq_self.mpr fun c hc => by
    rw [List.mem_singleton.mp hc]
    exact (List.mem_filter.mp hmem).2
  have hloc := hn.loc
  rw [hks, plain_append, hsingle] at hloc
  exact List.append_cancel_right hloc

/-- The last name of the path is not one that stays where it is. -/
theorem Names.stays_last {s : Bytes} {p : Path} {n : Name} (hn : Names s (p ++ [n])) :
    stays n = false := by
  have hmem : n ∈ plain (components s) := by rw [hn.loc]; simp
  simpa using (List.mem_filter.mp hmem).2

/-- A new entry below a directory, for a path string whose last component is a proper name. -/
theorem Names.resolveNew {s : Bytes} {p : Path} {ks : List Name} {n : Name}
    (hn : Names s (p ++ [n])) (hks : components s = ks ++ [n]) (hplain : plain ks = p)
    (hd : h.fs.node (h.cwd ++ p) = some .dir) :
    h.fs.resolveNew h.cwd s = some (h.cwd ++ p, n) := by
  have hproper : stays n = false := hn.stays_last
  have hne : n ≠ [] := by rintro rfl; cases hproper
  have hdot : n ≠ dot := by rintro rfl; cases hproper
  have hup : dotdot ∉ ks := fun h => hn.up (by rw [hks]; exact List.mem_append_left _ h)
  have hdd : n ≠ dotdot := by rintro rfl; exact hn.up (by rw [hks]; simp)
  have hwalk : h.fs.walk h.cwd ks = some (h.cwd ++ p) := by
    rw [FileSystem.walk_eq hup, hplain, if_pos ⟨by rw [hd]; rfl, fun _ => hd⟩]
  rw [FileSystem.resolveNew_eq hn.rel hks hne hdot hdd, hwalk]
  exact if_pos hd

/-- Without a separator at its end, a path string ends in a proper name. -/
theorem Names.endsInDir {s : Bytes} {p : Path} {ks : List Name} {n : Name}
    (hn : Names s (p ++ [n])) (hks : components s = ks ++ [n]) :
    endsInDir (components s) = false := by
  rw [hks]
  simp [Posix.endsInDir, hn.stays_last]

/-- A path string that ends in a name has no separator at its end. -/
theorem Names.getLast_ne {s : Bytes} {p : Path} {ks : List Name} {n : Name}
    (hn : Names s (p ++ [n])) (hks : components s = ks ++ [n]) : s.getLast? ≠ some sep := by
  intro hlast
  obtain ⟨u, rfl⟩ : ∃ u, s = u ++ [sep] :=
    ⟨s.dropLast, (List.dropLast_append_getLast? _ hlast).symm⟩
  rw [components_append_sep] at hks
  have hnil : n = [] := (List.cons.inj (List.append_inj' hks rfl).2).1.symm
  have hstays := hn.stays_last
  rw [hnil] at hstays
  cases hstays

/-- Such a path string leads to whatever is there. -/
theorem Names.resolve_name {s : Bytes} {p : Path} {ks : List Name} {n : Name}
    (hn : Names s (p ++ [n])) (hks : components s = ks ++ [n])
    (hsome : (h.fs.node (h.cwd ++ (p ++ [n]))).isSome) :
    h.fs.resolve h.cwd s = some (h.cwd ++ (p ++ [n])) := by
  rw [hn.resolve, hn.endsInDir hks, if_pos ⟨hsome, nofun⟩]

/-! ### Steps on what the session owns -/

theorem TopLevel.not_above {q : Path} (hq : TopLevel env h.cwd q) : ¬ q <+: h.cwd := by
  obtain ⟨n, rfl, -⟩ := hq
  intro hp
  have := hp.length_le
  rw [List.length_append, List.length_singleton] at this
  omega

/-- The working directory belongs to nobody. -/
theorem Session.Stands.cwd_not_owned (hs : l.Stands mode env h) : ¬ l.Owns mode h.cwd := by
  rintro (⟨t, ht, hp⟩ | ⟨hst, d, hd, hp⟩)
  · exact (hs.tmp t ht).1.not_above hp
  · exact (hs.dests hst d hd).1.not_above hp

/-- A step that only changes what the session owns, and not its directory. -/
theorem Guar.owned {c : Call} (hs : l.Stands mode env h) (hcwd : h'.cwd = h.cwd)
    (ht : l'.tmp = l.tmp) (hd : ∀ d ∈ l'.dests, d ∈ l.dests)
    (hheld : ∀ q, l'.held = some q → l.held = some q ∧ c.isMkdir = false)
    (hframe : ∀ p, h'.fs.node p = h.fs.node p ∨ l.Owns mode p)
    (htmp : ∀ t, l.tmp = some t → h'.fs.node t = some .dir)
    (hdests : mode.strict = true → ∀ d ∈ l'.dests, (h'.fs.node d).isSome)
    (hino : ∀ p ino d, h'.fs.node p = some (.file ino d) →
      (∃ e, h.fs.node p = some (.file ino e)) ∨ h.fs.nextIno ≤ ino)
    (hsz : ∀ p ino d, h'.fs.node p = some (.file ino d) →
      (d.length : Int) ≤ env.configuration.maxFileSize ∨ ∃ q, h.fs.node q = some (.file ino d))
    (hgone : ∀ p, l.Owns mode p → ¬ l'.Owns mode p → h'.fs.node p = none)
    (hc : ∀ old new, c ≠ .rename old new) : Guar mode env moves c (l, h) (l', h') where
  cwd := hcwd
  stands := by
    refine ⟨?_, fun t h1 => ?_, fun hst d h1 => ?_, fun hst d h1 => ht ▸ hs.apart hst d (hd d h1)⟩
    · rw [hcwd, (hframe h.cwd).resolve_right hs.cwd_not_owned]
      exact hs.cwd
    · rw [ht] at h1
      exact ⟨hcwd ▸ (hs.tmp t h1).1, htmp t h1⟩
    · exact ⟨hcwd ▸ (hs.dests hst d (hd d h1)).1, hdests hst d h1⟩
  -- everything else is either owned or not touched
  frame p := by
    rcases hframe p with h1 | h1
    · exact .inl h1
    · exact .inr (.inl h1)
  inodes p ino d hp := by
    rcases hino p ino d hp with h1 | h1
    · exact .inl h1
    · exact .inr (.inr h1)
  sizes := hsz
  tmp t h1 := .inl (ht ▸ h1)
  dests d h1 := .inl (hd d h1)
  gone := hgone
  held q hq := .inl ⟨(hheld q hq).1, (hheld q hq).2, ht⟩
  moves old new _ h1 := absurd h1 (hc old new)

/-! ### The session's own directory -/

/-- The session's directory has the name `x`, and the tree in it is `T`. -/
structure Inside (mode : Mode) (env : Env) (x : Name) (T : Tree) (l : Session) (h : Host) :
    Prop where
  stands : l.Stands mode env h
  tmp : l.tmp = some (h.cwd ++ [x])
  tree : h.fs.tree (h.cwd ++ [x]) = T

/-- The session has made calls that leave its connection and its records alone. -/
structure Session.Alike (l l' : Session) : Prop where
  input : l'.input = l.input
  output : l'.output = l.output
  closed : l'.closed = l.closed
  oracle : l'.oracle = l.oracle
  tmp : l'.tmp = l.tmp
  dests : l'.dests = l.dests

theorem Session.Alike.trans {l l' l'' : Session} (h1 : l.Alike l') (h2 : l'.Alike l'') :
    l.Alike l'' :=
  ⟨h2.input.trans h1.input, h2.output.trans h1.output, h2.closed.trans h1.closed,
    h2.oracle.trans h1.oracle, h2.tmp.trans h1.tmp, h2.dests.trans h1.dests⟩

theorem Session.Alike.sameSocket {l l' : Session} (h : l.Alike l') : l.SameSocket l' :=
  ⟨h.input, h.output, h.closed, h.oracle⟩

theorem Session.Reliable.of_eq (hl : l.Reliable) (hc : l'.closed = l.closed)
    (ho : l'.oracle = l.oracle) : l'.Reliable :=
  ⟨hc.trans hl.opened, fun k => by rw [ho]; exact hl.read k, fun k => by rw [ho]; exact hl.write k,
    fun k => by rw [ho]; exact hl.fs k, fun k => by rw [ho]; exact hl.roomy k⟩

theorem Session.Reliable.alike (hl : l.Reliable) (ha : l.Alike l') : l'.Reliable :=
  hl.of_eq ha.closed ha.oracle

/-- A call of a reliable session does not fail. -/
theorem Session.Reliable.fault (hl : l.Reliable) : l.fault = false := hl.fs _

theorem Session.Sturdy.fault (hl : l.Sturdy) : l.fault = false := hl _

theorem Session.Sturdy.of_oracle (hl : l.Sturdy) (ho : l'.oracle = l.oracle) : l'.Sturdy :=
  fun k => by rw [ho]; exact hl k

/-- No call of the session to the file system fails, and it has not made as many calls as there are
    names that it tries for an entry. -/
def Session.Unhindered (l : Session) : Prop := l.Sturdy ∧ l.calls < 1000000

/-- The session has gone on: its surroundings are the same, and its calls are not fewer. -/
structure Session.Later (l l' : Session) : Prop where
  oracle : l'.oracle = l.oracle
  calls : l.calls ≤ l'.calls

namespace Session.Later

theorem refl (l : Session) : l.Later l := ⟨rfl, le_rfl⟩

theorem trans {l1 : Session} (h01 : l.Later l1) (h12 : l1.Later l') : l.Later l' :=
  ⟨h12.oracle.trans h01.oracle, h01.calls.trans h12.calls⟩

/-- A session that has not been hindered was not hindered before. -/
theorem unhindered (hl : l.Later l') (hu : l'.Unhindered) : l.Unhindered :=
  ⟨hu.1.of_oracle hl.oracle.symm, hl.calls.trans_lt hu.2⟩

/-- Whatever a session does, it goes on. -/
theorem sat {K : Contract Calls Session Host} {α : Type} {p : Proc α}
    {Q : Option α → Session → Host → Prop} (hp : p.Sat respond K l h Q) :
    p.Sat respond K l h (fun a l' h' => Q a l' h' ∧ l.Later l') :=
  hp.and_own (fun c s hs => hs.trans ⟨respond_oracle c s, by rw [respond_calls]; omega⟩) (refl l)

end Session.Later

namespace Inside

variable {x : Name} {T : Tree}

theorem rely (hin : Inside mode env x T l h) {c : Option Call} (hr : Rely mode c l h h') :
    Inside mode env x T l h' where
  stands := hin.stands.rely hr
  tmp := by rw [hr.cwd]; exact hin.tmp
  tree := by
    rw [hr.cwd, ← hin.tree]
    exact FileSystem.tree_congr fun q =>
      hr.owned _ (Session.owns_tmp hin.tmp (List.prefix_append _ _))

theorem congr (hin : Inside mode env x T l h) (ht : l'.tmp = l.tmp) (hd : l'.dests = l.dests) :
    Inside mode env x T l' h :=
  ⟨hin.stands.congr ht hd, ht.trans hin.tmp, hin.tree⟩

theorem alike (hin : Inside mode env x T l h) (ha : l.Alike l') : Inside mode env x T l' h :=
  hin.congr ha.tmp ha.dests

/-- Locations in the directory belong to the session. -/
theorem owns (hin : Inside mode env x T l h) (cs : Path) : l.Owns mode (h.cwd ++ x :: cs) :=
  Session.owns_tmp hin.tmp ⟨cs, by simp⟩

theorem node_eq (hin : Inside mode env x T l h) (cs : Path) :
    (h.fs.node (h.cwd ++ x :: cs)).map Node.entry = T cs := by
  rw [← hin.tree, FileSystem.tree]
  simp

theorem isSome_iff (hin : Inside mode env x T l h) (cs : Path) :
    (h.fs.node (h.cwd ++ x :: cs)).isSome ↔ (T cs).isSome := by
  rw [← hin.node_eq cs, Option.isSome_map]

theorem none_iff (hin : Inside mode env x T l h) (cs : Path) :
    h.fs.node (h.cwd ++ x :: cs) = none ↔ T cs = none := by
  rw [← hin.node_eq cs, Option.map_eq_none_iff]

theorem dir_iff (hin : Inside mode env x T l h) {cs : Path} :
    h.fs.node (h.cwd ++ x :: cs) = some .dir ↔ T cs = some .dir := by
  have heq : h.cwd ++ x :: cs = h.cwd ++ [x] ++ cs := by simp
  rw [← hin.tree, FileSystem.tree_eq_dir, heq]

theorem root (hin : Inside mode env x T l h) : T [] = some .dir := by
  rw [← hin.dir_iff]
  exact (hin.stands.tmp _ hin.tmp).2

/-- Only directories lie above an entry. -/
theorem above (hin : Inside mode env x T l h) {p q : Path} (hq : (T q).isSome) (hp : p <+: q)
    (hne : p ≠ q) : T p = some .dir := by
  rw [← hin.tree] at hq ⊢
  exact FileSystem.tree_above hq hp hne

/-- All directories above a directory, and itself. -/
theorem dirs_above (hin : Inside mode env x T l h) {ds q : Path} (hds : T ds = some .dir)
    (hq : q <+: ds) : T q = some .dir := by
  by_cases hqd : q = ds
  · rw [hqd]
    exact hds
  · exact hin.above (by rw [hds]; rfl) hq hqd

/-- A change of a single entry. -/
theorem tree_update (hin : Inside mode env x T l h) {fs : FileSystem} {cs : Path} {nd : Node}
    (hself : fs.node (h.cwd ++ x :: cs) = some nd)
    (hother : ∀ p, h.cwd ++ [x] <+: p → p ≠ h.cwd ++ x :: cs → fs.node p = h.fs.node p) :
    fs.tree (h.cwd ++ [x]) = Function.update T cs (some nd.entry) := by
  have hentry : fs.tree (h.cwd ++ [x]) cs = some nd.entry := by
    unfold FileSystem.tree
    rw [List.append_assoc, List.singleton_append, hself, Option.map_some]
  rw [← hin.tree, ← hentry]
  exact FileSystem.tree_update fun q hq => hother _ (List.prefix_append _ _) (by simpa using hq)

/-- A path string leads to something in the directory. -/
theorem resolve_isSome (hin : Inside mode env x T l h) {s : Bytes} {cs : Path}
    (hn : Names s (x :: cs)) : (h.fs.resolve h.cwd s).isSome ↔
      (T cs).isSome ∧ (endsInDir (components s) = true → T cs = some .dir) := by
  rw [hn.resolve, ← hin.isSome_iff, ← hin.dir_iff]
  split
  · simp_all
  · simp_all

end Inside

/-! ### Looking -/

@[simp] theorem respond_stat (path : Bytes) (l : Session) (h : Host) :
    respond (.stat path) (l, h) = (statAt h path, l.tick, h) :=
  respond_of_failed_none rfl l h

theorem respond_access (path : Bytes) (l : Session) (h : Host) :
    respond (.access path) (l, h) = if (h.fs.resolve h.cwd path).isSome then (true, l.tick, h)
      else (false, l.tick.hold (h.locate path), h) :=
  respond_of_failed_none rfl l h

variable {x : Name} {T : Tree}

theorem fileExists_inside (hin : Inside mode env x T l h) {s : Bytes} {cs : Path}
    (hn : Names s (x :: cs)) :
    (fileExists s).Sat respond (uploading mode env moves) l h (fun a l' h' =>
      Inside mode env x T l' h' ∧ l.Alike l' ∧ ∃ b, a = some b ∧
        (b = true ↔ (T cs).isSome ∧ (endsInDir (components s) = true → T cs = some .dir))) := by
  unfold fileExists
  rw [if_neg hn.ne]
  intro h' hr
  have hin' := hin.rely hr
  rw [respond_access]
  split
  · rename_i hres
    refine ⟨Guar.silent hin'.stands rfl rfl (fun q hq => .inl ⟨hq, rfl⟩) nofun,
      hin'.congr rfl rfl, ⟨rfl, rfl, rfl, rfl, rfl, rfl⟩, true, rfl, ?_⟩
    exact iff_of_true rfl ((hin'.resolve_isSome hn).mp hres)
  · rename_i hres
    refine ⟨Guar.silent hin'.stands rfl rfl (fun q hq => .inr (.inr ⟨_, hin'.tmp, ?_⟩)) nofun,
      hin'.congr rfl rfl, ⟨rfl, rfl, rfl, rfl, rfl, rfl⟩, false, rfl, ?_⟩
    · -- the location that is held lies in the directory
      cases hq
      rw [hn.locate]
      exact ⟨cs, by simp⟩
    · exact iff_of_false nofun fun h1 => hres ((hin'.resolve_isSome hn).mpr h1)

theorem isDirectory_inside (hin : Inside mode env x T l h) {s : Bytes} {cs : Path}
    (hn : Names s (x :: cs)) :
    (isDirectory s).Sat respond (uploading mode env moves) l h (fun a l' h' =>
      Inside mode env x T l' h' ∧ l.Alike l' ∧ ∃ d, a = some d ∧ (d = 1 ↔ T cs = some .dir)) := by
  unfold isDirectory
  rw [if_neg hn.ne]
  refine sat_silent rfl hin.stands fun h' hr => ?_
  have hin' := hin.rely hr
  have hstat : statAt h' s = some .dir ↔ T cs = some .dir := by
    rw [← hin'.dir_iff]
    unfold statAt
    rw [hn.resolve]
    cases hnode : h'.fs.node (h'.cwd ++ x :: cs) with
    | none => simp
    | some nd => cases nd <;> cases endsInDir (components s) <;> simp [hnode, kindOf]
  rw [respond_stat]
  have hpost : Inside mode env x T l.tick h' ∧ l.Alike l.tick :=
    ⟨hin'.congr rfl rfl, ⟨rfl, rfl, rfl, rfl, rfl, rfl⟩⟩
  cases hk : statAt h' s with
  | none => exact ⟨hpost.1, hpost.2, -1, rfl, iff_of_false (by decide) (by rw [← hstat, hk]; nofun)⟩
  | some kind =>
    rw [hk] at hstat
    cases kind with
    | dir => exact ⟨hpost.1, hpost.2, 1, rfl, iff_of_true rfl (hstat.mp rfl)⟩
    | regular => exact ⟨hpost.1, hpost.2, 0, rfl, iff_of_false (by decide) (by rw [← hstat]; nofun)⟩
    | other => exact ⟨hpost.1, hpost.2, 0, rfl, iff_of_false (by decide) (by rw [← hstat]; nofun)⟩

/-! ### Making directories -/

/-- The step that makes a new directory. -/
theorem Guar.mkdir (hin : Inside mode env x T l h) {s : Bytes} {cs : Path} {fs : FileSystem}
    (hnode : ∀ q, fs.node q = if q = h.cwd ++ x :: cs then some .dir else h.fs.node q) :
    Guar mode env moves (.mkdir s) (l, h) (l.tick.made (h.cwd ++ x :: cs), h.withFs fs) := by
  have hdir : ∀ q, h.fs.node q = some .dir → fs.node q = some .dir := by
    intro q hq
    rw [hnode]
    split
    · rfl
    · exact hq
  have hfile : ∀ q ino d, fs.node q = some (.file ino d) → h.fs.node q = some (.file ino d) := by
    intro q ino d hq
    rw [hnode] at hq
    split at hq
    · cases hq
    · exact hq
  have htmp : (l.tick.made (h.cwd ++ x :: cs)).tmp = l.tmp := by
    rw [Session.made_tmp_of_some hin.tmp]
  refine Guar.owned hin.stands rfl htmp (fun d hd => hd) (fun q hq => by cases hq) (fun p => ?_)
    (fun t ht => hdir t (hin.stands.tmp t ht).2) (fun hst d hd => ?_)
    (fun p ino d hp => .inl ⟨d, hfile p ino d hp⟩) (fun p ino d hp => .inr ⟨p, hfile p ino d hp⟩)
    (fun p ho hn => absurd ((Session.owns_congr htmp rfl p).mpr ho) hn) nofun
  · by_cases hp : p = h.cwd ++ x :: cs
    · exact .inr (hp ▸ hin.owns cs)
    · exact .inl (by rw [Host.withFs_fs, hnode, if_neg hp])
  · rw [Host.withFs_fs, hnode]
    split
    · rfl
    · exact (hin.stands.dests hst d hd).2

/-- `mkdir` for a new entry of a directory. -/
theorem mkdir_inside (hin : Inside mode env x T l h) {s : Bytes} {ks : List Name} {ds : Path}
    {n : Name} (hn : Names s (x :: (ds ++ [n]))) (hks : components s = ks ++ [n])
    (hds : T ds = some .dir) :
    (mkdir s).Sat respond (uploading mode env moves) l h (fun a l' h' =>
      ∃ T', Inside mode env x T' l' h' ∧ l.Alike l' ∧
        ((a = some true ∧ T (ds ++ [n]) = none ∧
            T' = Function.update T (ds ++ [n]) (some .dir)) ∨
          (a = some false ∧ T' = T ∧ (l.Reliable → T (ds ++ [n]) ≠ none)))) := by
  intro h' hr
  have hin' := hin.rely hr
  have hfail : Guar mode env moves (.mkdir s) (l, h') (l.tick.release, h') :=
    Guar.silent hin'.stands rfl rfl nofun nofun
  have halike : l.Alike l.tick.release := ⟨rfl, rfl, rfl, rfl, rfl, rfl⟩
  cases hfault : l.fault with
  | true =>
    rw [respond_of_fault hfault rfl]
    exact ⟨hfail, T, hin'.congr rfl rfl, halike, .inr ⟨rfl, rfl, fun hl => by
      rw [hl.fault] at hfault; cases hfault⟩⟩
  | false =>
    have hplain : plain ks = x :: ds := hn.plain_init hks
    have hnew := Names.resolveNew (h := h') hn hks hplain ((hin'.dir_iff).mpr hds)
    have hloc : h'.cwd ++ x :: ds ++ [n] = h'.cwd ++ x :: (ds ++ [n]) := by simp
    cases hmk : h'.fs.mkdirAt (h'.cwd ++ x :: ds) n with
    | none =>
      rw [respond_mkdir_none hfault hnew hmk]
      refine ⟨hfail, T, hin'.congr rfl rfl, halike, .inr ⟨rfl, rfl, fun _ hnone => ?_⟩⟩
      -- it fails only if something is there
      have hsome := FileSystem.mkdirAt_isSome ((hin'.dir_iff).mpr hds) (n := n)
        (hloc ▸ (hin'.none_iff _).mpr hnone)
      rw [hmk] at hsome
      cases hsome
    | some fs =>
      obtain ⟨-, habsent, -, hnode⟩ := FileSystem.mkdirAt_eq_some hmk
      rw [hloc] at habsent hnode
      have hguar : Guar mode env moves (.mkdir s) (l, h')
          (l.tick.made (h'.cwd ++ x :: (ds ++ [n])), h'.withFs fs) := Guar.mkdir hin' hnode
      have htmp : (l.tick.made (h'.cwd ++ x :: (ds ++ [n]))).tmp = l.tmp := by
        rw [Session.made_tmp_of_some hin'.tmp]
      rw [respond_mkdir hfault hnew hmk, hloc]
      refine ⟨hguar, Function.update T (ds ++ [n]) (some .dir), ⟨hguar.stands, ?_, ?_⟩,
        ⟨rfl, rfl, rfl, rfl, htmp, rfl⟩, .inl ⟨rfl, ?_, rfl⟩⟩
      · rw [htmp]; exact hin'.tmp
      · -- the tree has the directory as its only new entry
        have hself : fs.node (h'.cwd ++ x :: (ds ++ [n])) = some .dir := by
          rw [hnode, if_pos rfl]
        exact hin'.tree_update hself fun p _ hp => by rw [hnode, if_neg hp]
      · exact (hin'.none_iff _).mp habsent

/-- `_mkdir_check` at an existing entry, or at a new one of a directory. -/
theorem mkdirCheck_inside (hin : Inside mode env x T l h) {s : Bytes} {cs : Path}
    (hn : Names s (x :: cs)) (hparent : T cs = some .dir ∨ ∃ ks ds n, cs = ds ++ [n] ∧
      components s = ks ++ [n] ∧ T ds = some .dir) :
    (mkdirCheck s).Sat respond (uploading mode env moves) l h (fun a l' h' =>
      ∃ T', Inside mode env x T' l' h' ∧ l.Alike l' ∧
        ((a = some .success ∧ ((T cs = some .dir ∧ T' = T) ∨
            (T cs = none ∧ T' = Function.update T cs (some .dir)))) ∨
          (a = some .failure ∧ T' = T ∧ (l.Reliable → T cs ≠ none ∧ T cs ≠ some .dir)))) := by
  refine (fileExists_inside hin hn).bind (fun b l1 h1 ⟨hin1, ha1, b', hb, hiff⟩ => ?_)
    (fun l1 h1 ⟨_, _, _, hb, _⟩ => by cases hb)
  cases hb
  cases b with
  | true =>
    -- something is there
    obtain ⟨hsome, -⟩ := hiff.mp rfl
    refine (isDirectory_inside hin1 hn).bind (fun d l2 h2 ⟨hin2, ha2, d', hd, hdir⟩ => ?_)
      (fun l1 h1 ⟨_, _, _, hd, _⟩ => by cases hd)
    cases hd
    by_cases hone : d = 1
    · rw [if_neg (not_not.mpr hone)]
      exact ⟨T, hin2, ha1.trans ha2, .inl ⟨rfl, .inl ⟨hdir.mp hone, rfl⟩⟩⟩
    · rw [if_pos hone]
      refine ⟨T, hin2, ha1.trans ha2, .inr ⟨rfl, rfl, fun _ => ⟨fun h0 => ?_, fun h0 => ?_⟩⟩⟩
      · rw [h0] at hsome; cases hsome
      · exact hone (hdir.mpr h0)
  | false =>
    have hnot : ¬ ((T cs).isSome ∧ (endsInDir (components s) = true → T cs = some .dir)) :=
      fun h0 => by cases hiff.mpr h0
    rcases hparent with hdir | ⟨ks, ds, n, rfl, hks, hds⟩
    · exact absurd ⟨by rw [hdir]; rfl, fun _ => hdir⟩ hnot
    · have hend : endsInDir (components s) = false := Names.endsInDir (p := x :: ds) hn hks
      have hnone : T (ds ++ [n]) = none := by
        rw [hend] at hnot
        simpa using hnot
      refine (mkdir_inside hin1 hn hks hds).bind (fun r l2 h2 ⟨T', hin2, ha2, hr⟩ => ?_)
        (fun l2 h2 ⟨_, _, _, hr⟩ => by rcases hr with ⟨hr, -⟩ | ⟨hr, -⟩ <;> cases hr)
      rcases hr with ⟨hr, -, hT⟩ | ⟨hr, hT, hrel⟩
      · cases hr
        exact ⟨T', hin2, ha1.trans ha2, .inl ⟨rfl, .inr ⟨hnone, hT⟩⟩⟩
      · cases hr
        exact ⟨T', hin2, ha1.trans ha2, .inr ⟨rfl, hT, fun hl =>
          absurd hnone (hrel (hl.alike ha1))⟩⟩

/-! ### Making all directories of a path -/

/-- The pending call makes no directory, so the location that is held stays absent. -/
theorem Rely.settled {c : Call} (hc : c.isMkdir = false) (hr : Rely mode (some c) l h h') :
    Rely mode none l h h' :=
  ⟨hr.cwd, hr.alone, hr.dir, hr.owned, hr.sole,
    fun hst _ => hr.held hst fun c' hc' => by cases hc'; exact hc⟩

/-- The session has the same directory, results and held location. -/
theorem Rely.congr {c : Option Call} (hr : Rely mode c l' h h') (ht : l'.tmp = l.tmp)
    (hd : l'.dests = l.dests) (hh : l'.held = l.held) : Rely mode c l h h' where
  cwd := hr.cwd
  alone := hr.alone
  dir := hr.dir
  owned p hp := hr.owned p ((Session.owns_congr ht hd p).mpr hp)
  sole q ino d hq := hr.sole q ino d ((Session.owns_congr ht hd q).mpr hq)
  held hst hc q hq := hr.held (hst.imp_right fun h0 => ht.trans h0) hc q (hh.trans hq)

/-- The working directory is there, and it is a directory. -/
theorem mkdirCheck_here (hs : l.Stands mode env h) :
    (mkdirCheck dot).Sat respond (uploading mode env moves) l h (fun a l' h' =>
      a = some .success ∧ Rely mode none l h h' ∧ l.Alike l' ∧ l'.held = l.held) := by
  have hn : Names dot [] := ⟨by decide, by decide, by decide, by decide⟩
  have hresolve : ∀ h : Host, h.fs.node h.cwd = some .dir →
    h.fs.resolve h.cwd dot = some h.cwd := by
    intro h hd
    rw [hn.resolve, List.append_nil, if_pos ⟨by rw [hd]; rfl, fun _ => hd⟩]
  intro h1 hr1
  have hs1 := hs.rely hr1
  have haccess : respond (.access dot) (l, h1) = (true, l.tick, h1) := by
    rw [respond_access, hresolve h1 hs1.cwd]
    rfl
  rw [haccess]
  refine ⟨Guar.silent hs1 rfl rfl (fun q hq => .inl ⟨hq, rfl⟩) nofun, ?_⟩
  intro h2 hr2
  have hr2' : Rely mode (some (.stat dot)) l h1 h2 := Rely.congr hr2 rfl rfl rfl
  have hs2 := hs1.rely hr2'
  have hstat : statAt h2 dot = some .dir := by
    unfold statAt
    rw [hresolve h2 hs2.cwd]
    simp [hs2.cwd, kindOf]
  rw [respond_stat, hstat]
  exact ⟨Guar.silent (hs2.congr rfl rfl) rfl rfl (fun q hq => .inl ⟨hq, rfl⟩) nofun, rfl,
    (hr1.settled rfl).trans (hr2'.settled rfl), ⟨rfl, rfl, rfl, rfl, rfl, rfl⟩, rfl⟩

/-- A path string with one more component. -/
theorem Names.snoc {d : Bytes} {ds : Path} {k : Name} (hn : Names d (x :: ds)) (hsep : sep ∉ k)
    (hup : k ≠ dotdot) : components (d ++ sep :: k) = components d ++ [k] ∧
      Names (d ++ sep :: k) (x :: (ds ++ plain [k])) := by
  have hcomp : components (d ++ sep :: k) = components d ++ [k] := by
    rw [components_append_sep, components_of_not_mem hsep]
  refine ⟨hcomp, by simp, ?_, ?_, ?_⟩
  · rw [List.head?_append_of_ne_nil _ hn.ne]
    exact hn.rel
  · rw [hcomp, List.mem_append, List.mem_singleton, not_or]
    exact ⟨hn.up, fun h0 => hup h0.symm⟩
  · rw [hcomp, plain_append, hn.loc, List.cons_append]

/-- One step of `mkdirs`: the next component of a path whose directories are there. -/
theorem mkdirsStep_inside (hin : Inside mode env x T l h) {d : Bytes} {ds : Path} {k : Name}
    (hn : Names d (x :: ds)) (hds : T ds = some .dir) (hsep : sep ∉ k) (hup : k ≠ dotdot) :
    (mkdirCheck (d ++ sep :: k)).Sat respond (uploading mode env moves) l h (fun a l' h' =>
      ∃ T', Inside mode env x T' l' h' ∧ l.Alike l' ∧
        ((a = some .success ∧ T' = T.dirs (ds ++ plain [k]) ∧ T.Way (ds ++ plain [k])) ∨
          (a = some .failure ∧ (l.Reliable → ¬ T.Way (ds ++ plain [k]))))) := by
  obtain ⟨hcomp, hn'⟩ := hn.snoc hsep hup
  -- the directories above are there
  have habove : ∀ q, q <+: ds → T q = some .dir := fun _ hq => hin.dirs_above hds hq
  have hdirs : T.dirs ds = T := Tree.dirs_of_above habove
  have hway : T.Way ds := fun q hq => .inr (habove q hq)
  have hparent : T (ds ++ plain [k]) = some .dir ∨ ∃ ks ds' n, ds ++ plain [k] = ds' ++ [n] ∧
      components (d ++ sep :: k) = ks ++ [n] ∧ T ds' = some .dir := by
    rw [plain_cons]
    split
    · left
      rw [plain_nil, List.append_nil]
      exact hds
    · right
      exact ⟨components d, ds, k, rfl, hcomp, hds⟩
  refine (mkdirCheck_inside hin hn' hparent).mono fun a l' h' ⟨T', hin', ha, hr⟩ => ?_
  refine ⟨T', hin', ha, ?_⟩
  rcases hr with ⟨rfl, hr⟩ | ⟨rfl, -, hrel⟩
  · refine .inl ⟨rfl, ?_⟩
    by_cases hs : stays k = true
    · rw [plain_cons, if_pos hs, plain_nil, List.append_nil] at hr ⊢
      rcases hr with ⟨-, rfl⟩ | ⟨hnone, -⟩
      · exact ⟨hdirs.symm, hway⟩
      · rw [hds] at hnone; cases hnone
    · rw [plain_cons, if_neg hs, plain_nil] at hr ⊢
      have hstep : T.dirs (ds ++ [k]) = Function.update T (ds ++ [k]) (some .dir) := by
        rw [Tree.dirs_concat, hdirs]
      rcases hr with ⟨hdir, rfl⟩ | ⟨hnone, rfl⟩
      · refine ⟨?_, hway.of_dirs (.inr (by rw [hdirs]; exact hdir))⟩
        rw [hstep, ← hdir, Function.update_eq_self]
      · exact ⟨hstep.symm, hway.of_dirs (.inl (by rw [hdirs]; exact hnone))⟩
  · refine .inr ⟨rfl, fun hl hw => ?_⟩
    obtain ⟨h1, h2⟩ := hrel hl
    exact (hw _ List.prefix_rfl).elim h1 h2

/-- Bytes that are no separators only move the position. -/
theorem mkdirsLoop_append {u : Bytes} (hu : sep ∉ u) (done rest : Bytes) :
    mkdirsLoop done (u ++ rest) = mkdirsLoop (done ++ u) rest := by
  induction u generalizing done with
  | nil => rw [List.nil_append, List.append_nil]
  | cons c u ih =>
    have hc : c ≠ sep := fun h0 => hu (by simp [h0])
    rw [List.cons_append, mkdirsLoop, if_neg hc, ih fun h0 => hu (List.mem_cons_of_mem c h0),
      List.append_assoc, List.singleton_append]

/-- The last component. -/
theorem mkdirsLoop_last {u : Bytes} (hu : sep ∉ u) (done : Bytes) :
    mkdirsLoop done u = mkdirCheck (done ++ u) := by
  rw [← List.append_nil u, mkdirsLoop_append hu, List.append_nil, mkdirsLoop]

/-- A component that others follow. -/
theorem mkdirsLoop_next {u : Bytes} (hu : sep ∉ u) (done rest : Bytes) :
    mkdirsLoop done (u ++ sep :: rest) = (do
      match ← mkdirCheck (done ++ u) with
      | .failure => return .failure
      | .success => mkdirsLoop (done ++ u ++ [sep]) rest) := by
  rw [mkdirsLoop_append hu]
  exact if_pos rfl

/-- **Run lemma.**  The loop of `mkdirs` over the components that are left. -/
theorem mkdirsLoop_inside (hin : Inside mode env x T l h) {d : Bytes} {ds : Path}
    (hn : Names d (x :: ds)) (hds : T ds = some .dir) {ks : List Name} (hne : ks ≠ [])
    (hsep : ∀ k ∈ ks, sep ∉ k) (hup : dotdot ∉ ks) :
    (mkdirsLoop (d ++ [sep]) (joined ks)).Sat respond (uploading mode env moves) l h
      (fun a l' h' => ∃ T', Inside mode env x T' l' h' ∧ l.Alike l' ∧
        ((a = some .success ∧ T' = T.dirs (ds ++ plain ks) ∧ T.Way (ds ++ plain ks)) ∨
          (a = some .failure ∧ (l.Reliable → ¬ T.Way (ds ++ plain ks))))) := by
  induction ks generalizing d ds T l h with
  | nil => exact absurd rfl hne
  | cons k ks ih =>
    have hk : sep ∉ k := hsep k List.mem_cons_self
    have hkup : k ≠ dotdot := fun h0 => hup (by simp [h0])
    have hdk : d ++ [sep] ++ k = d ++ sep :: k := by simp
    cases ks with
    | nil =>
      rw [joined_singleton, mkdirsLoop_last hk, hdk]
      exact mkdirsStep_inside hin hn hds hk hkup
    | cons k' ks =>
      rw [joined_cons_cons, mkdirsLoop_next hk, hdk]
      refine (mkdirsStep_inside hin hn hds hk hkup).bind (fun s l1 h1 ⟨T1, hin1, ha1, hr⟩ => ?_)
        (fun l1 h1 ⟨_, _, _, hr⟩ => by rcases hr with ⟨hr, -⟩ | ⟨hr, -⟩ <;> cases hr)
      -- the first component is made, the loop goes on below it
      have hsplit : ds ++ plain (k :: k' :: ks) = ds ++ plain [k] ++ plain (k' :: ks) := by
        rw [List.append_assoc, ← plain_append, List.singleton_append]
      rcases hr with ⟨hr, hT1, hway⟩ | ⟨hr, hrel⟩
      · cases hr
        obtain ⟨-, hn'⟩ := hn.snoc hk hkup
        have hds1 : T1 (ds ++ plain [k]) = some .dir := by rw [hT1]; exact Tree.dirs_self
        refine (ih hin1 hn' hds1 (List.cons_ne_nil _ _)
          (fun c hc => hsep c (List.mem_cons_of_mem k hc))
          (fun hc => hup (List.mem_cons_of_mem k hc))).mono fun a l' h' ⟨T', hin', ha', hr'⟩ => ?_
        have hpre : ds ++ plain [k] <+: ds ++ plain [k] ++ plain (k' :: ks) :=
          List.prefix_append _ _
        refine ⟨T', hin', ha1.trans ha', ?_⟩
        rw [hsplit]
        rw [hT1] at hr'
        rcases hr' with ⟨hs, hT', hw⟩ | ⟨hs, hrel⟩
        · exact .inl ⟨hs, hT'.trans (Tree.dirs_dirs hpre), (Tree.way_dirs_iff hway).mp hw⟩
        · exact .inr ⟨hs, fun hl hw =>
            hrel (hl.alike ha1) ((Tree.way_dirs_iff hway).mpr hw)⟩
      · cases hr
        refine ⟨T1, hin1, ha1, .inr ⟨rfl, fun hl hw => hrel hl (hw.upto ?_)⟩⟩
        rw [hsplit]
        exact List.prefix_append _ _

/-- A proper name: one that can be created in a directory. -/
structure Proper (n : Name) : Prop where
  sep : sep ∉ n
  ne : n ≠ []
  dot : n ≠ dot
  up : n ≠ dotdot

theorem Proper.stays {n : Name} (hn : Proper n) : stays n = false := by
  simp [Posix.stays, hn.ne, hn.dot]

theorem Proper.plain {n : Name} (hn : Proper n) (cs : List Name) :
    plain (n :: cs) = n :: plain cs := by
  rw [plain_cons, hn.stays]
  rfl

/-- A component that neither stays nor goes up is a proper name. -/
theorem Proper.of_stays {n : Name} (hsep : Posix.sep ∉ n) (hstay : Posix.stays n = false)
    (hup : n ≠ dotdot) : Proper n :=
  ⟨hsep, (stays_eq_false.mp hstay).1, (stays_eq_false.mp hstay).2, hup⟩

theorem Proper.plain_concat {n : Name} (hn : Proper n) (cs : List Name) :
    Posix.plain (cs ++ [n]) = Posix.plain cs ++ [n] := by
  rw [plain_append, hn.plain, plain_nil]

theorem Proper.dotdot_not_mem_concat {n : Name} (hn : Proper n) {cs : List Name}
    (hcs : dotdot ∉ cs) : dotdot ∉ cs ++ [n] := by
  rw [List.mem_append, List.mem_singleton, not_or]
  exact ⟨hcs, fun h0 => hn.up h0.symm⟩

theorem plain_of_proper {cs : List Name} (hcs : ∀ c ∈ cs, Proper c) : Posix.plain cs = cs :=
  List.filter_eq_self.mpr fun c hc => by simp [(hcs c hc).stays]

/-- The path string of an entry of the working directory. -/
theorem Proper.components_here {n : Name} (hn : Proper n) :
    components (Posix.dot ++ Posix.sep :: n) = [Posix.dot, n] := by
  have hdot : Posix.sep ∉ Posix.dot := by decide
  rw [components_append_sep, components_of_not_mem hdot, components_of_not_mem hn.sep]
  rfl

theorem Proper.names {n : Name} (hn : Proper n) : Names (Posix.dot ++ Posix.sep :: n) [n] := by
  refine ⟨by simp, by simp [Posix.dot, Posix.sep], ?_, ?_⟩
  · rw [hn.components_here]
    simp only [List.mem_cons, List.not_mem_nil, or_false, not_or]
    exact ⟨by decide, fun h0 => hn.up h0.symm⟩
  · rw [hn.components_here, plain_cons, if_pos (by decide), hn.plain, plain_nil]

theorem Proper.getLast_here {n : Name} (hn : Proper n) :
    (hereDir ++ n).getLast? ≠ some Posix.sep :=
  @Names.getLast_ne _ [] [Posix.dot] _ hn.names hn.components_here

/-- An entry of the working directory. -/
theorem Proper.resolve_here {n : Name} (hn : Proper n)
    (hsome : (h.fs.node (h.cwd ++ [n])).isSome) :
    h.fs.resolve h.cwd (hereDir ++ n) = some (h.cwd ++ [n]) :=
  @Names.resolve_name h _ [] [Posix.dot] _ hn.names hn.components_here hsome

theorem length_hereDir_append (s : Bytes) : (hereDir ++ s).length = s.length + 2 := by
  simp [hereDir]

theorem hereDir_append_ne_nil (s : Bytes) : hereDir ++ s ≠ [] := by
  simp [hereDir]

/-- A new entry of the working directory. -/
theorem Proper.resolveNew_here {n : Name} (hn : Proper n) (hd : h.fs.node h.cwd = some .dir) :
    h.fs.resolveNew h.cwd (hereDir ++ n) = some (h.cwd, n) := by
  have hnew := @Names.resolveNew h _ [] [Posix.dot] n hn.names hn.components_here (by decide)
    (by rw [List.append_nil]; exact hd)
  rwa [List.append_nil] at hnew

/-- A path string that goes through an entry of the working directory, and not up. -/
theorem Names.through (hx : Proper x) {s : Bytes} {ks : List Name}
    (hs : components s = dot :: x :: ks) (hup : dotdot ∉ ks) : Names s (x :: plain ks) := by
  have hjoin : s = dot ++ sep :: joined (x :: ks) := by
    rw [← joined_components s, hs, joined_cons_cons]
  refine ⟨by rw [hjoin]; nofun, by rw [hjoin]; nofun, ?_, ?_⟩
  · rw [hs]
    simp only [List.mem_cons, not_or]
    exact ⟨by decide, fun h0 => hx.up h0.symm, hup⟩
  · rw [hs, plain_cons, if_pos (by decide), hx.plain]

/-- The directory of the session is there already. -/
theorem mkdirCheck_own (hin : Inside mode env x T l h) (hx : Proper x) :
    (mkdirCheck (dot ++ sep :: x)).Sat respond (uploading mode env moves) l h (fun a l' h' =>
      Inside mode env x T l' h' ∧ l.Alike l' ∧
        (a = some .success ∨ a = some .failure ∧ ¬ l.Reliable)) := by
  refine (mkdirCheck_inside hin hx.names (.inl hin.root)).mono fun a l' h' ⟨T', hin', ha, hr⟩ => ?_
  rcases hr with ⟨hs, ⟨-, rfl⟩ | ⟨h0, -⟩⟩ | ⟨hs, rfl, hrel⟩
  · exact ⟨hin', ha, .inl hs⟩
  · rw [hin.root] at h0
    cases h0
  · exact ⟨hin', ha, .inr ⟨hs, fun hl => (hrel hl).2 hin.root⟩⟩

/-- The loop of `mkdirs` on a path string that goes through the directory: the working directory and
    the directory itself come first. -/
theorem mkdirsLoop_through (hin : Inside mode env x T l h) (hx : Proper x) {s : Bytes}
    {ks : List Name} (hs : components s = dot :: x :: ks) (hup : dotdot ∉ ks) :
    (mkdirsLoop [] s).Sat respond (uploading mode env moves) l h (fun a l' h' =>
      ∃ T', Inside mode env x T' l' h' ∧ l.Alike l' ∧
        ((a = some .success ∧ T' = T.dirs (plain ks) ∧ T.Way (plain ks)) ∨
          (a = some .failure ∧ (l.Reliable → ¬ T.Way (plain ks))))) := by
  have hsjoin : s = dot ++ sep :: joined (x :: ks) := by
    rw [← joined_components s, hs, joined_cons_cons]
  have hdot : sep ∉ dot := by decide
  have hdx : dot ++ [sep] ++ x = dot ++ sep :: x := by simp
  rw [hsjoin, mkdirsLoop_next hdot, List.nil_append]
  refine (mkdirCheck_here hin.stands).bind (fun r l1 h1 ⟨hr, hrely, ha1, _⟩ => ?_)
    (fun l1 h1 ⟨hr, _⟩ => by cases hr)
  cases hr
  have hin1 : Inside mode env x T l1 h1 := (hin.rely hrely).alike ha1
  show Prog.Sat _ _ (mkdirsLoop (dot ++ [sep]) (joined (x :: ks))) _ _ _
  cases ks with
  | nil =>
    rw [joined_singleton, mkdirsLoop_last hx.sep, hdx]
    refine (mkdirCheck_own hin1 hx).mono fun a l2 h2 ⟨hin2, ha2, hr⟩ =>
      ⟨T, hin2, ha1.trans ha2, ?_⟩
    rcases hr with hr | ⟨hr, hrel⟩
    · refine .inl ⟨hr, ?_, fun q hq => ?_⟩
      · rw [plain_nil, Tree.dirs_nil hin.root]
      · rw [List.prefix_nil.mp hq]
        exact .inr hin.root
    · exact .inr ⟨hr, fun hl => absurd (hl.alike ha1) hrel⟩
  | cons k ks =>
    rw [joined_cons_cons, mkdirsLoop_next hx.sep, hdx]
    refine (mkdirCheck_own hin1 hx).bind (fun r l2 h2 ⟨hin2, ha2, hr⟩ => ?_)
      (fun l2 h2 ⟨_, _, hr⟩ => by rcases hr with hr | ⟨hr, -⟩ <;> cases hr)
    have ha := ha1.trans ha2
    rcases hr with hr | ⟨hr, hrel⟩
    · cases hr
      refine (mkdirsLoop_inside hin2 hx.names hin.root (List.cons_ne_nil k ks) (fun c hc => ?_)
        hup).mono fun a l' h' ⟨T', hin', ha', hr'⟩ => ⟨T', hin', ha.trans ha', ?_⟩
      · exact sep_not_mem_of_mem_components (s := s) (by rw [hs]; simp [hc])
      · rw [List.nil_append] at hr'
        exact hr'.imp_right fun ⟨hr', hrel⟩ => ⟨hr', fun hl => hrel (hl.alike ha)⟩
    · cases hr
      exact ⟨T, hin2, ha, .inr ⟨rfl, fun hl => absurd (hl.alike ha1) hrel⟩⟩

/-- **`mkdirs` inside the directory**, on a path string that goes through it: all directories of
    the path are made, unless something that is no directory is in the way. -/
theorem mkdirs_inside (hin : Inside mode env x T l h) (hx : Proper x) {s : Bytes} {ks : List Name}
    (hs : components s = dot :: x :: ks) (hup : dotdot ∉ ks) :
    (mkdirs s).Sat respond (uploading mode env moves) l h (fun a l' h' =>
      ∃ T', Inside mode env x T' l' h' ∧ l.Alike l' ∧
        ((a = some .success ∧ T' = T.dirs (plain ks) ∧ T.Way (plain ks)) ∨
          (a = some .failure ∧
            (l.Reliable → s.length ≤ maxFileNameLen → ¬ T.Way (plain ks))))) := by
  have hn : Names s (x :: plain ks) := .through hx hs hup
  have hhead : ¬ s.head? ≠ some 0x2e := by
    have hsjoin : s = dot ++ sep :: joined (x :: ks) := by
      rw [← joined_components s, hs, joined_cons_cons]
    simp [hsjoin, dot]
  unfold mkdirs
  rw [if_neg hhead]
  refine (fileExists_inside hin hn).bind (fun b l1 h1 ⟨hin1, ha1, b', hb, hiff⟩ => ?_)
    (fun l1 h1 ⟨_, _, _, hb, _⟩ => by cases hb)
  cases hb
  cases b with
  | true =>
    -- something is there: a directory, or what is in the way
    obtain ⟨hsome, -⟩ := hiff.mp rfl
    refine (isDirectory_inside hin1 hn).bind (fun d l2 h2 ⟨hin2, ha2, d', hd, hdir⟩ => ?_)
      (fun l1 h1 ⟨_, _, _, hd, _⟩ => by cases hd)
    cases hd
    have ha := ha1.trans ha2
    by_cases hone : d = 1
    · have habove : ∀ q, q <+: plain ks → T q = some .dir := fun _ hq =>
        hin.dirs_above (hdir.mp hone) hq
      rw [if_pos hone]
      exact ⟨T, hin2, ha, .inl ⟨rfl, (Tree.dirs_of_above habove).symm,
        fun q hq => .inr (habove q hq)⟩⟩
    · rw [if_neg hone]
      refine ⟨T, hin2, ha, .inr ⟨rfl, fun _ _ hw => ?_⟩⟩
      rcases hw _ List.prefix_rfl with h0 | h0
      · rw [h0] at hsome; cases hsome
      · exact hone (hdir.mpr h0)
  | false =>
    rw [if_neg (by simp)]
    by_cases hlen : s.length > maxFileNameLen
    · rw [if_pos hlen]
      refine sat_silent rfl hin1.stands fun h2 hr2 => ?_
      have hin2 := hin1.rely hr2
      rw [respond_error]
      exact ⟨T, hin2.congr rfl rfl, ha1.trans ⟨rfl, rfl, rfl, rfl, rfl, rfl⟩,
        .inr ⟨rfl, fun _ hle => absurd hlen (not_lt.mpr hle)⟩⟩
    · rw [if_neg hlen]
      refine (mkdirsLoop_through hin1 hx hs hup).mono
        fun a l' h' ⟨T', hin', ha', hr⟩ => ⟨T', hin', ha1.trans ha', ?_⟩
      exact hr.imp_right fun ⟨hr, hrel⟩ => ⟨hr, fun hl _ => hrel (hl.alike ha1)⟩

end ClipShare
