import ClipShare.Verify.TempDir

namespace ClipShare

open Interaction Posix

/-!
# Leaving the temporary directory

How the entries of the temporary directory get to the working directory.

* `Looked` — the session has made calls that change nothing;
* `freeName_free` — the loops of `_rename_if_exists` and `_check_and_rename` end with a name that is
  free;
* `Renamed`, `Moves`, `renameFile_inside` — what a rename does, and one out of the directory;
* `checkAndRename_inside` — one entry is moved to a free name;
* `Moving`, `Cleaned`, `moveFiles_inside` — all entries are.
-/

variable {mode : Mode} {env : Env} {moves : Host → Path → Prop} {l l' : Session} {h h' : Host}
variable {x : Name} {T : Tree}

/-! ### Looking around -/

/-- Forget about the location that is held. -/
theorem Rely.others {c : Option Call} (hr : Rely mode c l' h h') (ht : l'.tmp = l.tmp)
    (hd : l'.dests = l.dests) : Rely mode (some (.mkdir [])) l h h' where
  cwd := hr.cwd
  alone := hr.alone
  dir := hr.dir
  owned p hp := hr.owned p ((Session.owns_congr ht hd p).mpr hp)
  sole q ino d hq := hr.sole q ino d ((Session.owns_congr ht hd q).mpr hq)
  held _ hc := absurd (hc _ rfl) nofun

/-- The session has made calls that change nothing, and the others have gone on. -/
structure Looked (mode : Mode) (l : Session) (h : Host) (l' : Session) (h' : Host) : Prop where
  alike : l.Alike l'
  others : Rely mode (some (.mkdir [])) l h h'

theorem Looked.refl (l : Session) (h : Host) : Looked mode l h l h :=
  ⟨⟨rfl, rfl, rfl, rfl, rfl, rfl⟩, Rely.refl _ _ _ _⟩

theorem Looked.trans {l1 : Session} {h1 : Host} (h12 : Looked mode l h l1 h1)
    (h23 : Looked mode l1 h1 l' h') : Looked mode l h l' h' :=
  ⟨h12.alike.trans h23.alike,
    h12.others.trans (h23.others.others h12.alike.tmp h12.alike.dests)⟩

theorem Looked.of_rely (hr : Rely mode none l h h') (ha : l.Alike l') : Looked mode l h l' h' :=
  ⟨ha, hr.others rfl rfl⟩

theorem Looked.stands (hk : Looked mode l h l' h') (hs : l.Stands mode env h) :
    l'.Stands mode env h' :=
  (hs.rely hk.others).congr hk.alike.tmp hk.alike.dests

theorem Looked.inside (hk : Looked mode l h l' h') (hin : Inside mode env x T l h) :
    Inside mode env x T l' h' :=
  (hin.rely hk.others).alike hk.alike

/-! ### Free names -/

/-- The further names that are tried for a file. -/
theorem candidate_eq (n : Nat) (fileName : Bytes) :
    candidate n fileName = hereDir ++ (decimal n ++ 0x5f :: fileName) := by
  simp [candidate, List.append_assoc]

theorem sep_not_mem_decimal (n : Nat) : sep ∉ decimal n := by
  intro h0
  exact absurd (mem_decimal h0).1 (by decide)

/-- A name that starts with a digit is not the name of the configuration file. -/
theorem decimal_ne_configFile (n : Nat) (s : Bytes) : decimal n ++ s ≠ configFile := by
  intro h0
  obtain ⟨b, t, ht⟩ := List.exists_cons_of_ne_nil (decimal_ne_nil n)
  have hb := (mem_decimal (n := n) (b := b) (by rw [ht]; exact List.mem_cons_self)).2
  rw [ht] at h0
  have hhead : b = 0x63 := (List.cons.inj h0).1
  rw [hhead] at hb
  exact absurd hb (by decide)

theorem sep_not_mem_candidate (n : Nat) {fileName : Bytes} (hsep : sep ∉ fileName) :
    sep ∉ decimal n ++ 0x5f :: fileName := by
  rw [List.mem_append, List.mem_cons, not_or, not_or]
  exact ⟨sep_not_mem_decimal n, by decide, hsep⟩

/-- Text that fits the buffer is written as it is. -/
theorem snprintfCheck_eq {size : Nat} {s t : Bytes} (h : snprintfCheck size s = some t) :
    t = s := by
  unfold snprintfCheck at h
  split at h
  · exact (Option.some.inj h).symm
  · cases h

/-- The first name that is tried for a file. -/
theorem firstCandidate_eq (env : Env) {fileName : Bytes} (hsep : sep ∉ fileName) :
    ∃ s, firstCandidate env fileName = hereDir ++ s ∧ sep ∉ s ∧
      (env.configuration.workingDir = none → s ≠ configFile) ∧
      (env.configuration.workingDir ≠ none ∨ fileName ≠ configFile → s = fileName) := by
  unfold firstCandidate
  split
  · rename_i hcond
    refine ⟨fileName, rfl, hsep, fun hnone => ?_, fun _ => rfl⟩
    rcases hcond with hcond | hcond
    · exact absurd hnone hcond
    · exact hcond
  · rename_i hcond
    have hone : ascii "1_" = decimal 1 ++ [0x5f] := by decide
    refine ⟨ascii "1_" ++ fileName, by rw [List.append_assoc], ?_, fun _ => ?_,
      fun h0 => absurd h0 hcond⟩
    · rw [List.mem_append, not_or]
      exact ⟨by decide, hsep⟩
    · rw [hone, List.append_assoc]
      exact decimal_ne_configFile 1 _

/-- **Run lemma.**  The loop over the candidates ends with one that is free, or with none after it
    has tried them all, if the buffer has room for them. -/
theorem freeName_free (hs : l.Stands mode env h) (size : Nat) {fileName : Bytes}
    (hsep : sep ∉ fileName) {left : Nat} (hleft : left < 1000000) {s : Bytes} (hs' : sep ∉ s)
    (htop : env.configuration.workingDir = none → s ≠ configFile) :
    (freeName size fileName left (hereDir ++ s)).Sat respond (uploading mode env moves) l h
      (fun a l' h' => Looked mode l h l' h' ∧
        ((a = some none ∧ (fileName.length + 9 < size → l.calls + left < l'.calls) ∧
            (mode.solo = true → Proper s → h.fs.node (h.cwd ++ [s]) ≠ none)) ∨
          ∃ s', a = some (some (hereDir ++ s')) ∧ Free mode env s' l' h' ∧
            (mode.solo = true → Proper s → h.fs.node (h.cwd ++ [s]) = none → s' = s))) := by
  induction left generalizing l h s with
  | zero =>
    refine (fileExists_here hs hs' htop).bind (fun b l1 h1 ⟨hr, ha, hb⟩ => ?_)
      (fun l1 h1 ⟨_, _, hb⟩ => by rcases hb with ⟨hb, _⟩ | ⟨hb, _⟩ <;> cases hb)
    have hlook := Looked.of_rely hr ha
    rcases hb with ⟨hb, hcalls, hthere⟩ | ⟨hb, hfree⟩
    · cases hb
      exact ⟨hlook, .inl ⟨rfl, fun _ => by rw [hcalls]; omega, hthere⟩⟩
    · cases hb
      exact ⟨hlook, .inr ⟨s, rfl, hfree, fun _ _ _ => rfl⟩⟩
  | succ left ih =>
    refine (fileExists_here hs hs' htop).bind (fun b l1 h1 ⟨hr, ha, hb⟩ => ?_)
      (fun l1 h1 ⟨_, _, hb⟩ => by rcases hb with ⟨hb, _⟩ | ⟨hb, _⟩ <;> cases hb)
    have hlook := Looked.of_rely hr ha
    rcases hb with ⟨hb, hcalls, hthere⟩ | ⟨hb, hfree⟩
    · cases hb
      rw [if_pos rfl]
      -- the name is taken: on to the next candidate, if it fits the buffer
      cases hfit : snprintfCheck size (candidate (1000000 - (left + 1)) fileName) with
      | none =>
        refine ⟨hlook, .inl ⟨rfl, fun hsize => ?_, hthere⟩⟩
        have hlen := @length_candidate (1000000 - (left + 1)) fileName (by omega)
        rw [snprintfCheck_of_lt (hlen.trans_lt hsize)] at hfit
        cases hfit
      | some tmp =>
        rw [snprintfCheck_eq hfit, candidate_eq]
        refine (ih (hlook.stands hs) (by omega) (sep_not_mem_candidate _ hsep)
          fun _ => decimal_ne_configFile _ _).mono
          fun a l' h' ⟨hlook', hpost⟩ => ⟨hlook.trans hlook', ?_⟩
        rcases hpost with ⟨hnone, htried, -⟩ | ⟨s', ha', hfree, -⟩
        · refine .inl ⟨hnone, fun hsize => ?_, hthere⟩
          have := htried hsize
          omega
        · exact .inr ⟨s', ha', hfree, fun hsolo hp h0 => absurd h0 (hthere hsolo hp)⟩
    · cases hb
      exact ⟨hlook, .inr ⟨s, rfl, hfree, fun _ _ _ => rfl⟩⟩

/-! ### One entry -/

/-- What a rename does to the nodes. -/
def Renamed (fs fs' : FileSystem) (src dst : Path) : Prop :=
  ∀ q, fs'.node q = if dst <+: q then fs.node (src ++ q.drop dst.length)
    else if src <+: q then none else fs.node q

/-- What is at the target was at the source. -/
theorem Renamed.at_target {fs fs' : FileSystem} {src dst : Path} (hr : Renamed fs fs' src dst)
    (q : Path) : fs'.node (dst ++ q) = fs.node (src ++ q) := by
  rw [hr, if_pos (List.prefix_append _ _), List.drop_left]

/-- What is at neither place stays. -/
theorem Renamed.elsewhere {fs fs' : FileSystem} {src dst : Path} (hr : Renamed fs fs' src dst)
    {q : Path} (h1 : ¬ dst <+: q) (h2 : ¬ src <+: q) : fs'.node q = fs.node q := by
  rw [hr, if_neg h1, if_neg h2]

/-- Everything comes from somewhere. -/
theorem Renamed.origin {fs fs' : FileSystem} {src dst : Path} (hr : Renamed fs fs' src dst)
    {q : Path} {nd : Node} (h : fs'.node q = some nd) :
    fs.node q = some nd ∨ ∃ r, src <+: r ∧ fs.node r = some nd := by
  rw [hr] at h
  split at h
  · exact .inr ⟨_, List.prefix_append _ _, h⟩
  · split at h
    · cases h
    · exact .inl h

/-- Entries of one directory do not lie in each other. -/
theorem not_prefix_sibling {cwd q : Path} {n m : Name} (hne : n ≠ m) :
    ¬ cwd ++ [n] <+: cwd ++ m :: q := by
  rw [List.prefix_append_right_inj]
  rintro ⟨r, hr⟩
  exact hne (List.cons.inj hr).1

/-- An entry of the directory `x` is not above a shorter location. -/
theorem not_prefix_short {cwd p : Path} {x n : Name} (hp : p.length ≤ 1) :
    ¬ cwd ++ [x, n] <+: cwd ++ p := by
  rw [List.prefix_append_right_inj]
  intro h0
  have hlen := h0.length_le
  simp at hlen
  omega

/-- The tree at the target was at the source. -/
theorem Renamed.tree_target {fs fs' : FileSystem} {src dst : Path} (hr : Renamed fs fs' src dst) :
    fs'.tree dst = fs.tree src := by
  funext q
  show (fs'.node (dst ++ q)).map Node.entry = _
  rw [hr.at_target]
  rfl

/-- The directory that an entry has left has its other entries. -/
theorem Renamed.tree_source {fs fs' : FileSystem} {cwd : Path} {x n s : Name}
    (hr : Renamed fs fs' (cwd ++ [x, n]) (cwd ++ [s])) (hsx : s ≠ x) :
    fs'.tree (cwd ++ [x]) = (fs.tree (cwd ++ [x])).without [n] := by
  have hshape : ∀ q, cwd ++ [x] ++ q = cwd ++ x :: q := by simp
  funext q
  show (fs'.node (cwd ++ [x] ++ q)).map Node.entry = _
  rw [hshape]
  cases q with
  | nil =>
    rw [hr.elsewhere (not_prefix_sibling hsx) (not_prefix_short (p := [x]) le_rfl)]
    show _ = (fs.node (cwd ++ [x] ++ [])).map Node.entry
    rw [List.append_nil]
  | cons m r =>
    rw [Tree.without_cons]
    by_cases hmn : m = n
    · rw [hr, if_neg (not_prefix_sibling hsx), if_pos ⟨r, by simp [hmn]⟩, if_pos (by simp [hmn])]
      rfl
    · have hout : ¬ cwd ++ [x, n] <+: cwd ++ x :: m :: r := by
        rw [List.prefix_append_right_inj]
        rintro ⟨u, hu⟩
        simp only [List.cons_append, List.nil_append, List.cons.injEq, true_and] at hu
        exact hmn hu.1.symm
      rw [hr.elsewhere (not_prefix_sibling hsx) hout, if_neg (by simpa using hmn)]
      show _ = (fs.node (cwd ++ [x] ++ m :: r)).map Node.entry
      rw [hshape]

/-- An entry of the session's directory. -/
theorem Inside.tree_entry (hin : Inside mode env x T l h) (n : Name) :
    h.fs.tree (h.cwd ++ [x, n]) = T.below n := by
  funext q
  show (h.fs.node (h.cwd ++ [x, n] ++ q)).map Node.entry = T (n :: q)
  rw [← hin.node_eq]
  simp

/-- A name that is free is not the place of a result. -/
theorem Free.not_mem_dests {s : Name} (hf : Free mode env s l h) (hst : mode.strict = true) :
    h.cwd ++ [s] ∉ l.dests := by
  intro hmem
  have hisSome := (hf.stands.dests hst _ hmem).2
  rw [hf.absent (.inl hst)] at hisSome
  cases hisSome

section leaving

variable {s n : Name} {fs : FileSystem}

/-- The rest of the working directory stays. -/
theorem Renamed.sibling (hr : Renamed h.fs fs (h.cwd ++ [x, n]) (h.cwd ++ [s])) {m : Name}
    (hm : m ≠ s) : fs.node (h.cwd ++ [m]) = h.fs.node (h.cwd ++ [m]) :=
  hr.elsewhere (not_prefix_sibling hm.symm) (not_prefix_short (p := [m]) le_rfl)

/-- A result is still in its place. -/
theorem Renamed.result (hr : Renamed h.fs fs (h.cwd ++ [x, n]) (h.cwd ++ [s]))
    (hin : Inside mode env x T l h) (hf : Free mode env s l h) (hst : mode.strict = true) {d : Path}
    (hd : d ∈ l.dests) : fs.node d = h.fs.node d := by
  obtain ⟨⟨m, rfl, -⟩, -⟩ := hin.stands.dests hst d hd
  refine hr.sibling ?_
  rintro rfl
  exact hf.not_mem_dests hst hd

/-- The files that move were the session's own. -/
theorem Renamed.file_origin (hr : Renamed h.fs fs (h.cwd ++ [x, n]) (h.cwd ++ [s]))
    (hin : Inside mode env x T l h) {p : Path} {ino : Nat} {d : Bytes}
    (hp : fs.node p = some (.file ino d)) : h.fs.node p = some (.file ino d) ∨
      ∃ q, l.Owns mode q ∧ h.fs.node q = some (.file ino d) := by
  rcases hr.origin hp with h1 | ⟨r, hr, h1⟩
  · exact .inl h1
  · exact .inr ⟨r, Session.owns_tmp hin.tmp (List.IsPrefix.trans ⟨[n], by simp⟩ hr), h1⟩

/-- The session stands where it stood, with one result more. -/
theorem Renamed.stands (hr : Renamed h.fs fs (h.cwd ++ [x, n]) (h.cwd ++ [s]))
    (hin : Inside mode env x T l h) (hf : Free mode env s l h) (hsome : T [n] ≠ none) :
    (l.tick.moved (h.cwd ++ [s])).Stands mode env (h.withFs fs) := by
  have hsx : x ≠ s := by
    rintro rfl
    exact hf.apart hin.tmp
  have hcwd : fs.node h.cwd = h.fs.node h.cwd := by
    have hshort : ¬ h.cwd ++ [x, n] <+: h.cwd ++ [] := not_prefix_short (Nat.zero_le 1)
    rw [List.append_nil] at hshort
    exact hr.elsewhere hf.top.not_above hshort
  have hthere : (fs.node (h.cwd ++ [s])).isSome := by
    have hat := hr.at_target []
    rw [List.append_nil, List.append_nil] at hat
    rw [hat, hin.isSome_iff]
    exact Option.ne_none_iff_isSome.mp hsome
  refine ⟨hcwd.trans hin.stands.cwd, fun t ht => ?_, fun hst d hd => ?_, fun hst d hd => ?_⟩
  · have ht' : h.cwd ++ [x] = t := Option.some.inj (hin.tmp.symm.trans ht)
    obtain ⟨htop, hdir⟩ := hin.stands.tmp t ht
    refine ⟨htop, ?_⟩
    rw [Host.withFs_fs, ← ht', hr.sibling hsx, ht']
    exact hdir
  · rcases List.mem_append.mp hd with hd | hd
    · obtain ⟨hplace, hwas⟩ := hin.stands.dests hst d hd
      refine ⟨hplace, ?_⟩
      rw [Host.withFs_fs, hr.result hin hf hst hd]
      exact hwas
    · rw [List.mem_singleton.mp hd]
      exact ⟨hf.top, hthere⟩
  · rcases List.mem_append.mp hd with hd | hd
    · exact hin.stands.apart hst d hd
    · rw [List.mem_singleton.mp hd]
      exact hf.apart

/-- The step that moves an entry out of the session's directory. -/
theorem Guar.rename (hin : Inside mode env x T l h) (hf : Free mode env s l h)
    (hsome : T [n] ≠ none) {old new : Bytes} (hloc : h.locate new = h.cwd ++ [s])
    (hres : h.fs.resolve h.cwd old = some (h.cwd ++ [x, n]))
    (hnode : Renamed h.fs fs (h.cwd ++ [x, n]) (h.cwd ++ [s]))
    (hmoves : moves h (h.cwd ++ [x, n])) :
    Guar mode env moves (.rename old new) (l, h) (l.tick.moved (h.cwd ++ [s]), h.withFs fs) := by
  have hcreates : Creates mode env (.rename old new) (l, h) (h.cwd ++ [s]) :=
    ⟨hf.held, hf.top, congrArg some hloc, fun h0 => hf.absent (.inl (h0.resolve_right nofun))⟩
  constructor
  case cwd => rfl
  case stands => exact hnode.stands hin hf hsome
  case frame =>
    intro p
    by_cases h1 : h.cwd ++ [s] <+: p
    · exact .inr (.inr ⟨_, hcreates, h1, fun hst =>
        Session.owns_dest hst (List.mem_append_right _ (List.mem_singleton.mpr rfl)) h1⟩)
    · by_cases h2 : h.cwd ++ [x, n] <+: p
      · exact .inr (.inl (Session.owns_tmp hin.tmp (List.IsPrefix.trans ⟨[n], by simp⟩ h2)))
      · exact .inl (hnode.elsewhere h1 h2)
  case inodes =>
    intro p ino d hp
    rcases hnode.file_origin hin hp with h1 | ⟨q, hq, h1⟩
    · exact .inl ⟨d, h1⟩
    · exact .inr (.inl ⟨q, d, hq, h1⟩)
  case sizes =>
    intro p ino d hp
    rcases hnode.file_origin hin hp with h1 | ⟨q, -, h1⟩
    · exact .inr ⟨p, h1⟩
    · exact .inr ⟨q, h1⟩
  case tmp => exact fun t ht => .inl ht
  case dests =>
    intro d hd
    rcases List.mem_append.mp hd with hd | hd
    · exact .inl hd
    · exact .inr ⟨rfl, List.mem_singleton.mp hd ▸ hcreates⟩
  case gone =>
    intro p ho hno
    refine absurd ?_ hno
    rcases ho with ho | ⟨hst, d, hd, hp⟩
    · exact .inl ho
    · exact .inr ⟨hst, d, List.mem_append_left _ hd, hp⟩
  case held => exact fun q hq => by cases hq
  case moves =>
    intro old' new' src heq hsrc'
    cases heq
    have hsrceq : h.cwd ++ [x, n] = src := Option.some.inj (hres.symm.trans hsrc')
    rw [← hsrceq]
    exact ⟨hmoves, h.cwd ++ [x], hin.tmp, ⟨[n], by simp⟩⟩

end leaving

/-- The path string of an entry of the session's directory. -/
theorem names_entry (hx : Proper x) {n : Name} (hn : Proper n) :
    components (hereDir ++ x ++ sep :: n) = [dot, x] ++ [n] ∧
      Names (hereDir ++ x ++ sep :: n) [x, n] := by
  have hshape : hereDir ++ x ++ sep :: n = dot ++ sep :: (x ++ sep :: n) := rfl
  have hdot : sep ∉ dot := by decide
  have hcomp : components (hereDir ++ x ++ sep :: n) = dot :: x :: ([] ++ [n]) := by
    rw [hshape, components_append_sep, components_append_sep, components_of_not_mem hdot,
      components_of_not_mem hx.sep, components_of_not_mem hn.sep]
    rfl
  exact ⟨hcomp, Names.of_components hx hcomp hn (by simp)⟩

/-- The path string of an entry resolves to it. -/
theorem Inside.resolve_entry (hin : Inside mode env x T l h) (hx : Proper x) {n : Name}
    (hn : Proper n) (hsome : T [n] ≠ none) :
    h.fs.resolve h.cwd (hereDir ++ x ++ sep :: n) = some (h.cwd ++ [x, n]) := by
  obtain ⟨hcomp, hnames⟩ := names_entry hx hn
  refine Names.resolve_name (p := [x]) hnames hcomp ?_
  show (h.fs.node (h.cwd ++ [x, n])).isSome
  rw [hin.isSome_iff]
  exact Option.ne_none_iff_isSome.mp hsome

/-- A rename that fails leaves the tree as it is, and has asked for nothing that is not allowed. -/
theorem Guar.rename_fails (hin : Inside mode env x T l h) {n : Name} {old new : Bytes}
    (hres : h.fs.resolve h.cwd old = some (h.cwd ++ [x, n])) (hmoves : moves h (h.cwd ++ [x, n])) :
    Guar mode env moves (.rename old new) (l, h) (l.tick.release, h) := by
  refine Guar.silent hin.stands rfl rfl nofun ?_
  rintro old' new' src ⟨⟩ hsrc
  have hsrceq : h.cwd ++ [x, n] = src := Option.some.inj (hres.symm.trans hsrc)
  rw [← hsrceq]
  exact ⟨hmoves, h.cwd ++ [x], hin.tmp, ⟨[n], by simp⟩⟩

/-- A rename to a free name leaves alone the results that are there already. -/
theorem Renamed.results_kept (hin : Inside mode env x T l h) {s n : Name}
    (hf : Free mode env s l h) {fs : FileSystem}
    (hr : Renamed h.fs fs (h.cwd ++ [x, n]) (h.cwd ++ [s])) {p : Path} (hp : l.Owns mode p)
    (hnp : ¬ h.cwd ++ [x] <+: p) : fs.node p = h.fs.node p := by
  rcases hp with ⟨t, ht, hp⟩ | ⟨hst, d, hd, hp⟩
  · rw [hin.tmp, Option.some.injEq] at ht
    exact absurd (ht ▸ hp) hnp
  · obtain ⟨⟨m, rfl, -⟩, -⟩ := hin.stands.dests hst d hd
    have hms : m ≠ s := by
      rintro rfl
      exact hf.not_mem_dests hst hd
    obtain ⟨r, rfl⟩ := hp
    have hshape : h.cwd ++ [m] ++ r = h.cwd ++ m :: r := by simp
    rw [hshape] at hnp ⊢
    refine hr.elsewhere (not_prefix_sibling hms.symm) fun h0 => ?_
    refine hnp (List.IsPrefix.trans ⟨[n], ?_⟩ h0)
    simp

/-- What the session has done: the entry `n` of its directory has moved to `q`. -/
structure Moves (mode : Mode) (env : Env) (x n : Name) (T : Tree) (q : Path) (l : Session)
    (h : Host) (l' : Session) (h' : Host) : Prop where
  inside : Inside mode env x (T.without [n]) l' h'
  dests : l'.dests = l.dests ++ [q]
  new : mode.strict = true → q ∉ l.dests
  tree : h'.fs.tree q = T.below n
  others : mode.solo = true → ∀ m, h.cwd ++ [m] ≠ q → m ≠ x →
    h'.fs.node (h.cwd ++ [m]) = h.fs.node (h.cwd ++ [m])

/-- Looking around first makes no difference. -/
theorem Looked.then_moves {l1 : Session} {h1 : Host} (hlook : Looked mode l h l1 h1) {n : Name}
    {q : Path} (hm : Moves mode env x n T q l1 h1 l' h') : Moves mode env x n T q l h l' h' where
  inside := hm.inside
  dests := by rw [hm.dests, hlook.alike.dests]
  new hst := by
    rw [← hlook.alike.dests]
    exact hm.new hst
  tree := hm.tree
  others hsolo m hq hmx := by
    rw [← hlook.others.cwd] at hq ⊢
    rw [hm.others hsolo m hq hmx, hlook.others.alone hsolo]

/-- A rename to a free name moves the entry there. -/
theorem Renamed.moved_entry {s n : Name} {fs : FileSystem}
    (hr : Renamed h.fs fs (h.cwd ++ [x, n]) (h.cwd ++ [s])) (hin : Inside mode env x T l h)
    (hf : Free mode env s l h) (hsome : T [n] ≠ none) :
    Moves mode env x n T (h.cwd ++ [s]) l h (l.tick.moved (h.cwd ++ [s])) (h.withFs fs) where
  inside := by
    -- the free name is not the one of the session's directory, which exists
    have hsx : s ≠ x := by
      rintro rfl
      exact hf.apart hin.tmp
    refine ⟨hr.stands hin hf hsome, hin.tmp, ?_⟩
    show fs.tree (h.cwd ++ [x]) = T.without [n]
    rw [hr.tree_source hsx, hin.tree]
  dests := rfl
  new := hf.not_mem_dests
  tree := hr.tree_target.trans (hin.tree_entry n)
  others _ m hq _ := hr.sibling fun hms => hq (by rw [hms])

/-- **`rename_file` from the session's directory to a free name.** -/
theorem renameFile_inside (hin : Inside mode env x T l h) (hx : Proper x) {s n : Name}
    (hf : Free mode env s l h) (hn : Proper n) (hsome : T [n] ≠ none)
    (hm : ∀ h1 : Host, h1.cwd = h.cwd → h1.fs.tree (h.cwd ++ [x, n]) = T.below n →
      moves h1 (h.cwd ++ [x, n])) :
    (renameFile (hereDir ++ x ++ sep :: n) (hereDir ++ s)).Sat respond
      (uploading mode env moves) l h
      (fun a l' h' => l.SameSocket l' ∧ h'.cwd = h.cwd ∧
        (∀ p, l.Owns mode p → ¬ h.cwd ++ [x] <+: p → h'.fs.node p = h.fs.node p) ∧
        ((a = some true ∧ Moves mode env x n T (h.cwd ++ [s]) l h l' h') ∨
          (a = some false ∧ Inside mode env x T l' h' ∧ l'.dests = l.dests ∧
            (mode.strict = true → ¬ l.Sturdy)))) := by
  intro h' hr
  have hlook : Looked mode l h l h' :=
    Looked.of_rely (hr.settled rfl) ⟨rfl, rfl, rfl, rfl, rfl, rfl⟩
  have hin' := hin.rely hr
  have hf' := hf.rely (hr.settled rfl)
  have hcwd : h'.cwd = h.cwd := hr.cwd
  have hsame : ∀ p, l.Owns mode p → ¬ h.cwd ++ [x] <+: p → h'.fs.node p = h.fs.node p :=
    fun p hp _ => hr.owned p hp
  have hres : h'.fs.resolve h'.cwd (hereDir ++ x ++ sep :: n) = some (h'.cwd ++ [x, n]) :=
    hin'.resolve_entry hx hn hsome
  have hmoves : moves h' (h'.cwd ++ [x, n]) := by
    have htree := hin'.tree_entry n
    rw [hcwd] at htree ⊢
    exact hm h' hcwd htree
  have hfail : Guar mode env moves (.rename (hereDir ++ x ++ sep :: n) (hereDir ++ s)) (l, h')
      (l.tick.release, h') := Guar.rename_fails hin' hres hmoves
  cases hfault : l.fault with
  | true =>
    rw [respond_of_fault hfault rfl]
    refine ⟨hfail, ⟨rfl, rfl, rfl, rfl⟩, hcwd, hsame,
      .inr ⟨rfl, hin'.congr rfl rfl, rfl, fun _ hl => ?_⟩⟩
    rw [hl.fault] at hfault
    cases hfault
  | false =>
    have hnew : h'.fs.resolveNew h'.cwd (hereDir ++ s) = some (h'.cwd, s) :=
      hf.proper.resolveNew_here hin'.stands.cwd
    -- the target is free and its directory is there, so only a host that is not sturdy refuses
    cases hrn : h'.fs.renameAt (h'.cwd ++ [x, n]) h'.cwd s with
    | none =>
      rw [respond_rename_none hfault hres hnew hrn]
      refine ⟨hfail, ⟨rfl, rfl, rfl, rfl⟩, hcwd, hsame,
        .inr ⟨rfl, hin'.congr rfl rfl, rfl, fun hst _ => ?_⟩⟩
      have hsrc : (h'.fs.node (h'.cwd ++ [x, n])).isSome := by
        rw [hin'.isSome_iff]
        exact Option.ne_none_iff_isSome.mp hsome
      have hok := FileSystem.renameAt_isSome_of_none (by simp) hsrc hin'.stands.cwd
        (hf'.absent (.inl hst)) (not_prefix_short (p := [s]) le_rfl)
      rw [hrn] at hok
      cases hok
    | some fs =>
      have hne : h'.cwd ++ [x, n] ≠ h'.cwd ++ [s] := by simp
      obtain ⟨-, -, -, -, -, hnode⟩ := FileSystem.renameAt_eq_some hrn hne
      have hnode' : Renamed h'.fs fs (h'.cwd ++ [x, n]) (h'.cwd ++ [s]) := hnode
      rw [respond_rename hfault hres hnew hrn]
      refine ⟨Guar.rename hin' hf' hsome (hf.proper.names.locate h') hres hnode' hmoves,
        ⟨rfl, rfl, rfl, rfl⟩, hcwd, fun p hp hnp => ?_, .inl ⟨rfl, ?_⟩⟩
      · rw [Host.withFs_fs, ← hsame p hp hnp]
        exact hnode'.results_kept hin' hf' hp (by rw [hcwd]; exact hnp)
      · rw [← hcwd]
        exact hlook.then_moves (hnode'.moved_entry hin' hf' hsome)

/-- The buffers have 20 bytes more than the name: that is enough for the directory. -/
theorem entry_fits (hlen : x.length ≤ 8) (n : Name) :
    n.length + 20 > (hereDir ++ x ++ sep :: n).length := by
  rw [List.length_append, length_hereDir_append, List.length_cons]
  omega

/-- **`_check_and_rename`** moves one entry of the session's directory to a free name of the working
    directory, or leaves it where it is, which happens only if its name is too long, a call fails or
    all names that it tries are taken.  Without other sessions it finds the name of the entry itself
    free unless something is there. -/
theorem checkAndRename_inside (hin : Inside mode env x T l h) (hx : Proper x) (hlen : x.length ≤ 8)
    {n : Name} (hn : Proper n) (hsome : T [n] ≠ none)
    (hm : ∀ h1 : Host, h1.cwd = h.cwd → h1.fs.tree (h.cwd ++ [x, n]) = T.below n →
      moves h1 (h.cwd ++ [x, n])) :
    (checkAndRename env n (hereDir ++ x)).Sat respond (uploading mode env moves) l h
      (fun a l' h' => l.SameSocket l' ∧ h'.cwd = h.cwd ∧
        (∀ p, l.Owns mode p → ¬ h.cwd ++ [x] <+: p → h'.fs.node p = h.fs.node p) ∧
        ((∃ path q, a = some (some path) ∧ Moves mode env x n T q l h l' h' ∧
            (mode.solo = true → (env.configuration.workingDir ≠ none ∨ n ≠ configFile) →
              h.fs.node (h.cwd ++ [n]) = none → q = h.cwd ++ [n])) ∨
          (a = some none ∧ Inside mode env x T l' h' ∧ l'.dests = l.dests ∧
            (mode.strict = true → l.Sturdy → n.length ≤ maxFileNameLen → 1000000 ≤ l'.calls) ∧
            (mode.solo = true → mode.strict = true → l.Sturdy → n.length ≤ maxFileNameLen →
              (env.configuration.workingDir ≠ none ∨ n ≠ configFile) →
              h.fs.node (h.cwd ++ [n]) ≠ none)))) := by
  have hkept : ∀ {l1 : Session} {h1 : Host}, Looked mode l h l1 h1 → ∀ p, l.Owns mode p →
      ¬ h.cwd ++ [x] <+: p → h1.fs.node p = h.fs.node p := fun hk p hp _ => hk.others.owned p hp
  have hsock : ∀ {l1 : Session} {h1 : Host}, Looked mode l h l1 h1 → l.SameSocket l1 := fun hk =>
    hk.alike.sameSocket
  unfold checkAndRename
  by_cases hlong : n.length > maxFileNameLen
  · rw [if_pos hlong]
    refine sat_silent rfl hin.stands fun h1 hr1 => ?_
    rw [respond_error]
    have hlook : Looked mode l h { l.tick with log := l.log ++ [ascii "Too long file name."] } h1 :=
      Looked.of_rely (hr1.settled rfl) ⟨rfl, rfl, rfl, rfl, rfl, rfl⟩
    exact ⟨hsock hlook, hlook.others.cwd, hkept hlook, .inr ⟨rfl, hlook.inside hin, rfl,
      fun _ _ hshort => absurd hlong (not_lt.mpr hshort),
      fun _ _ _ hshort => absurd hlong (not_lt.mpr hshort)⟩⟩
  · rw [if_neg hlong]
    obtain ⟨s, hs, hssep, hstop, hsame⟩ := firstCandidate_eq env hn.sep
    dsimp only
    have hfits := length_firstCandidate env n
    rw [snprintfCheck_of_lt (entry_fits hlen n), snprintfCheck_of_lt (by omega), hs]
    dsimp only
    -- the search for a free name changes nothing; either all names are taken or `s'` is free
    refine (freeName_free hin.stands _ hn.sep (show 999999 < 1000000 by omega) hssep hstop).bind
      (fun r l1 h1 ⟨hlook, hr⟩ => ?_)
      (fun l1 h1 ⟨_, hr⟩ => by rcases hr with ⟨hr, _⟩ | ⟨_, hr, _⟩ <;> cases hr)
    have hcwd1 : h1.cwd = h.cwd := hlook.others.cwd
    have hin1 := hlook.inside hin
    rcases hr with ⟨hr, htried, hthere⟩ | ⟨s', hr, hfree, hfirst⟩
    · cases hr
      refine ⟨hsock hlook, hcwd1, hkept hlook, .inr ⟨rfl, hin1, hlook.alike.dests,
        fun _ _ _ => ?_, fun hsolo _ _ _ hconf => ?_⟩⟩
      · have := htried (by omega)
        omega
      · -- the first candidate is the name itself, unless it is the one of the configuration file
        have hsn := hsame hconf
        subst hsn
        exact hthere hsolo hn
    · cases hr
      have hm1 : ∀ h2 : Host, h2.cwd = h1.cwd → h2.fs.tree (h1.cwd ++ [x, n]) = T.below n →
          moves h2 (h1.cwd ++ [x, n]) := by
        rw [hcwd1]
        exact hm
      refine (renameFile_inside hin1 hx hfree hn hsome hm1).bind
        (fun r l2 h2 ⟨hsock2, hcwd2, hkept2, hr2⟩ => ?_)
        (fun l2 h2 ⟨_, _, _, hr2⟩ => by rcases hr2 with ⟨hr2, _⟩ | ⟨hr2, _⟩ <;> cases hr2)
      have hcwd : h2.cwd = h.cwd := hcwd2.trans hcwd1
      have hsock' : l.SameSocket l2 := hlook.alike.sameSocket.trans hsock2
      have hkept' : ∀ p, l.Owns mode p → ¬ h.cwd ++ [x] <+: p → h2.fs.node p = h.fs.node p := by
        intro p hp hnp
        have hp1 := (Session.owns_congr hlook.alike.tmp hlook.alike.dests p).mpr hp
        rw [hkept2 p hp1 (by rw [hcwd1]; exact hnp), hkept hlook p hp hnp]
      rcases hr2 with ⟨hr2, hmove⟩ | ⟨hr2, hin2, hdests, hrel⟩
      · cases hr2
        refine ⟨hsock', hcwd, hkept', .inl ⟨_, _, rfl, hlook.then_moves hmove,
          fun hsolo hconf h0 => ?_⟩⟩
        have hsn := hsame hconf
        subst hsn
        rw [hcwd1, hfirst hsolo hn h0]
      · cases hr2
        exact ⟨hsock', hcwd, hkept', .inr ⟨rfl, hin2, hdests.trans hlook.alike.dests,
          fun hst hl => absurd (hl.of_oracle hlook.alike.oracle) (hrel hst),
          fun _ hst hl => absurd (hl.of_oracle hlook.alike.oracle) (hrel hst)⟩⟩

/-! ### All entries -/

/-- Some entries of the directory have been moved: where they are now, and what is left. -/
structure Moving (mode : Mode) (env : Env) (x : Name) (T : Tree) (moved : List (Name × Path))
    (l : Session) (h : Host) : Prop where
  inside : Inside mode env x (T.without (moved.map Prod.fst)) l h
  dests : l.dests = moved.map Prod.snd
  placed : mode.strict = true → ∀ m ∈ moved, h.fs.tree m.2 = T.below m.1
  distinct : mode.strict = true → (moved.map Prod.snd).Nodup

/-- A moved entry is owned, and stays as long as the session leaves it alone. -/
theorem Moving.tree_kept {moved : List (Name × Path)} (hmov : Moving mode env x T moved l h)
    (hkept : ∀ p, l.Owns mode p → ¬ h.cwd ++ [x] <+: p → h'.fs.node p = h.fs.node p)
    (hst : mode.strict = true) {m : Name × Path} (hm : m ∈ moved) :
    h'.fs.tree m.2 = T.below m.1 := by
  have hmem : m.2 ∈ l.dests := by
    rw [hmov.dests]
    exact List.mem_map_of_mem hm
  obtain ⟨⟨k, hk, -⟩, -⟩ := hmov.inside.stands.dests hst _ hmem
  have hkx : x ≠ k := by
    rintro rfl
    exact hmov.inside.stands.apart hst _ hmem (hk ▸ hmov.inside.tmp)
  rw [← hmov.placed hst m hm]
  refine FileSystem.tree_congr fun q => hkept _
    (Session.owns_dest hst hmem (List.prefix_append _ _)) ?_
  have hshape : m.2 ++ q = h.cwd ++ k :: q := by rw [hk]; simp
  rw [hshape]
  exact not_prefix_sibling hkx

/-- One more entry has been moved. -/
theorem Moving.snoc {moved : List (Name × Path)} (hmov : Moving mode env x T moved l h)
    (hkept : ∀ p, l.Owns mode p → ¬ h.cwd ++ [x] <+: p → h'.fs.node p = h.fs.node p) {n : Name}
    (hn : n ∉ moved.map Prod.fst) {q : Path}
    (hmove : Moves mode env x n (T.without (moved.map Prod.fst)) q l h l' h') :
    Moving mode env x T (moved ++ [(n, q)]) l' h' where
  inside := by
    have hin := hmove.inside
    rw [Tree.without_without] at hin
    simpa using hin
  dests := by
    rw [hmove.dests, hmov.dests]
    simp
  placed hst m hmem := by
    rcases List.mem_append.mp hmem with hmem | hmem
    · exact hmov.tree_kept hkept hst hmem
    · rw [List.mem_singleton.mp hmem, hmove.tree]
      exact Tree.below_without hn
  distinct hst := by
    have hnew := hmove.new hst
    rw [hmov.dests] at hnew
    rw [List.map_append, List.map_singleton]
    refine List.nodup_append.mpr ⟨hmov.distinct hst, List.nodup_singleton _, ?_⟩
    intro a ha b hb hab
    have hbq : b = q := List.mem_singleton.mp hb
    rw [hab, hbq] at ha
    exact hnew ha

/-- What the loop of `clean_temp_dir` has done with the entries `ns`: the ones in `new` have been
    moved.  An entry stays only if its name is too long, a call fails or all names are taken. -/
structure Cleaned (mode : Mode) (env : Env) (x : Name) (T : Tree) (moved : List (Name × Path))
    (ns : List Name) (l : Session) (h : Host) (status : Status) (new : List (Name × Path))
    (l' : Session) (h' : Host) : Prop where
  socket : l.SameSocket l'
  cwd : h'.cwd = h.cwd
  moving : Moving mode env x T (moved ++ new) l' h'
  sublist : (new.map Prod.fst).Sublist ns
  all : status = .success → new.map Prod.fst = ns
  tried : status = .failure → mode.strict = true → l.Sturdy →
    (∀ n ∈ ns, n.length ≤ maxFileNameLen) → 1000000 ≤ l'.calls
  clear : mode.solo = true → mode.strict = true → l.Sturdy →
    (∀ n ∈ ns, n.length ≤ maxFileNameLen ∧
      (env.configuration.workingDir ≠ none ∨ n ≠ configFile) ∧ n ≠ x ∧
      h.fs.node (h.cwd ++ [n]) = none) →
    status = .success ∧ new = ns.map fun n => (n, h.cwd ++ [n])

section step

variable {moved new : List (Name × Path)} {ns : List Name} {n : Name} {status : Status}
variable {l1 : Session} {h1 : Host}

/-- The entry `n` has been moved to `q`, and then the loop has gone on. -/
theorem Cleaned.cons_moved {q : Path} (hsock : l.SameSocket l1) (hcwd : h1.cwd = h.cwd)
    (hn : n ∉ ns) (hmove : Moves mode env x n (T.without (moved.map Prod.fst)) q l h l1 h1)
    (hfirst : mode.solo = true → (env.configuration.workingDir ≠ none ∨ n ≠ configFile) →
      h.fs.node (h.cwd ++ [n]) = none → q = h.cwd ++ [n])
    (hc : Cleaned mode env x T (moved ++ [(n, q)]) ns l1 h1 status new l' h') :
    Cleaned mode env x T moved (n :: ns) l h status ((n, q) :: new) l' h' where
  socket := hsock.trans hc.socket
  cwd := hc.cwd.trans hcwd
  moving := by
    have hmov := hc.moving
    rw [List.append_assoc] at hmov
    exact hmov
  sublist := hc.sublist.cons_cons n
  all hst := by rw [List.map_cons, hc.all hst]
  tried hfail hst hl hshort :=
    hc.tried hfail hst (hl.of_oracle hsock.2.2.2) fun k hk => hshort k (List.mem_cons_of_mem n hk)
  clear hsolo hst hl hgood := by
    -- alone, it has kept its name, and so will the others: nothing was put where they go
    obtain ⟨-, hconf, hnx, habsent⟩ := hgood n List.mem_cons_self
    have hq : q = h.cwd ++ [n] := hfirst hsolo hconf habsent
    obtain ⟨hstatus, hnew⟩ := hc.clear hsolo hst (hl.of_oracle hsock.2.2.2) fun k hk => by
      obtain ⟨h1, h2, h3, h4⟩ := hgood k (List.mem_cons_of_mem n hk)
      refine ⟨h1, h2, h3, ?_⟩
      rw [hcwd, hmove.others hsolo k ?_ h3]
      · exact h4
      · rw [hq]
        have hkn : k ≠ n := by
          rintro rfl
          exact hn hk
        simpa using hkn
    refine ⟨hstatus, ?_⟩
    rw [hnew, hq, hcwd, List.map_cons]

/-- The entry `n` has stayed, and then the loop has gone on: it will fail. -/
theorem Cleaned.cons_stayed (hsock : l.SameSocket l1) (hcwd : h1.cwd = h.cwd)
    (htried : mode.strict = true → l.Sturdy → n.length ≤ maxFileNameLen → 1000000 ≤ l1.calls)
    (hthere : mode.solo = true → mode.strict = true → l.Sturdy → n.length ≤ maxFileNameLen →
      (env.configuration.workingDir ≠ none ∨ n ≠ configFile) → h.fs.node (h.cwd ++ [n]) ≠ none)
    (hc : Cleaned mode env x T moved ns l1 h1 status new l' h') (hlater : l1.Later l') :
    Cleaned mode env x T moved (n :: ns) l h .failure new l' h' where
  socket := hsock.trans hc.socket
  cwd := hc.cwd.trans hcwd
  moving := hc.moving
  sublist := hc.sublist.cons n
  all := nofun
  tried _ hst hl hshort := (htried hst hl (hshort n List.mem_cons_self)).trans hlater.calls
  clear hsolo hst hl hgood := by
    obtain ⟨hshort, hconf, -, habsent⟩ := hgood n List.mem_cons_self
    exact absurd habsent (hthere hsolo hst hl hshort hconf)

end step

/-- **Run lemma.**  The loop of `clean_temp_dir`. -/
theorem moveFiles_inside (hx : Proper x) (hlen : x.length ≤ 8) {moved : List (Name × Path)}
    (hmov : Moving mode env x T moved l h) {ns : List Name} (hnodup : ns.Nodup)
    (hns : ∀ n ∈ ns, Proper n ∧ n ∉ moved.map Prod.fst ∧ T [n] ≠ none)
    (hm : ∀ n ∈ ns, ∀ h1 : Host, h1.cwd = h.cwd → h1.fs.tree (h.cwd ++ [x, n]) = T.below n →
      moves h1 (h.cwd ++ [x, n])) :
    (moveFiles env (hereDir ++ x) ns).Sat respond (uploading mode env moves) l h
      (fun a l' h' => ∃ paths status new, a = some (paths, status) ∧
        Cleaned mode env x T moved ns l h status new l' h') := by
  induction ns generalizing moved l h with
  | nil =>
    refine ⟨[], .success, [], rfl, ⟨rfl, rfl, rfl, rfl⟩, rfl, ?_, List.Sublist.refl _, fun _ => rfl,
      nofun, fun _ _ _ _ => ⟨rfl, rfl⟩⟩
    rw [List.append_nil]
    exact hmov
  | cons n ns ih =>
    obtain ⟨hproper, hnotin, hsome⟩ := hns n List.mem_cons_self
    obtain ⟨hnns, hnodup'⟩ := List.nodup_cons.mp hnodup
    -- the entry is still where it was, with all that is below it
    have hbelow : (T.without (moved.map Prod.fst)).below n = T.below n := Tree.below_without hnotin
    have hsome' : T.without (moved.map Prod.fst) [n] ≠ none := by
      rw [Tree.without_cons, if_neg hnotin]
      exact hsome
    refine (checkAndRename_inside hmov.inside hx hlen hproper hsome' (by
      rw [hbelow]; exact hm n List.mem_cons_self)).bind
      (fun r l1 h1 ⟨hsock1, hcwd1, hkept1, hr⟩ => ?_)
      (fun l1 h1 ⟨_, _, _, hr⟩ => by rcases hr with ⟨_, _, hr, _⟩ | ⟨hr, _⟩ <;> cases hr)
    have hm1 : ∀ k ∈ ns, ∀ h2 : Host, h2.cwd = h1.cwd → h2.fs.tree (h1.cwd ++ [x, k]) = T.below k →
        moves h2 (h1.cwd ++ [x, k]) := by
      rw [hcwd1]
      exact fun k hk => hm k (List.mem_cons_of_mem n hk)
    rcases hr with ⟨path, q, hr, hmove, hfirst⟩ | ⟨hr, hin1, hdests, htried, hthere⟩
    · cases hr
      have hns1 : ∀ k ∈ ns, Proper k ∧ k ∉ (moved ++ [(n, q)]).map Prod.fst ∧ T [k] ≠ none := by
        intro k hk
        obtain ⟨h1, h2, h3⟩ := hns k (List.mem_cons_of_mem n hk)
        refine ⟨h1, ?_, h3⟩
        rw [List.map_append, List.mem_append, not_or]
        refine ⟨h2, fun h0 => hnns ?_⟩
        have hkn : k = n := List.mem_singleton.mp h0
        exact hkn ▸ hk
      refine (ih (hmov.snoc hkept1 hnotin hmove) hnodup' hns1 hm1).bind
        (fun r l2 h2 ⟨paths, status, new, hr, hc⟩ => ?_) (fun l2 h2 ⟨_, _, _, hr, _⟩ => by cases hr)
      cases hr
      exact ⟨path :: paths, status, (n, q) :: new, rfl,
        hc.cons_moved hsock1 hcwd1 hnns hmove hfirst⟩
    · cases hr
      have hmov1 : Moving mode env x T moved l1 h1 :=
        ⟨hin1, hdests.trans hmov.dests, fun hst m hmem => hmov.tree_kept hkept1 hst hmem,
          hmov.distinct⟩
      refine (Session.Later.sat
        (ih hmov1 hnodup' (fun k hk => hns k (List.mem_cons_of_mem n hk)) hm1)).bind
        (fun r l2 h2 ⟨⟨paths, status, new, hr, hc⟩, hlater⟩ => ?_)
        (fun l2 h2 ⟨⟨_, _, _, hr, _⟩, _⟩ => by cases hr)
      cases hr
      exact ⟨paths, .failure, new, rfl, hc.cons_stayed hsock1 hcwd1 htried hthere hlater⟩

end ClipShare
