import ClipShare.Verify.SaveFile

namespace ClipShare

open Interaction Posix

/-!
# The temporary directory

How an upload gets its directory, and how it gives it back.

* `fileExists_here` — the test whether a name of the working directory is free;
* `Free` — the session has found a name free and has not used it yet;
* `freeTempName_free`, `mkdirs_free` — choosing the name and making the directory;
* `removeDirectory_inside` — removing the directory at the end.
-/

variable {mode : Mode} {env : Env} {moves : Host → Path → Prop} {l l' : Session} {h h' : Host}
variable {x : Name} {T : Tree}

/-! ### Names in the working directory -/

theorem hereDir_append (s : Bytes) : hereDir ++ s = dot ++ sep :: s := rfl

/-- The name of a temporary directory. -/
theorem hex_proper (id : UInt32) : Proper (hex id) := by
  have hsep : sep ∉ hex id := by
    intro hmem
    rcases mem_hex hmem with ⟨h1, -⟩ | ⟨h1, -⟩ <;> exact absurd h1 (by decide)
  have hdot : (0x2e : UInt8) ∉ hex id := by
    intro hmem
    rcases mem_hex hmem with ⟨h1, -⟩ | ⟨h1, -⟩ <;> exact absurd h1 (by decide)
  exact ⟨hsep, hex_ne_nil id, fun h0 => hdot (h0 ▸ List.mem_cons_self),
    fun h0 => hdot (h0 ▸ List.mem_cons_self)⟩

/-- A temporary directory is never called like the configuration file. -/
theorem hex_ne_configFile (id : UInt32) : hex id ≠ configFile := by
  intro h0
  have hmem : (0x6c : UInt8) ∈ hex id := by
    rw [h0]
    decide
  rcases mem_hex hmem with ⟨-, h1⟩ | ⟨-, h1⟩ <;> exact absurd h1 (by decide)

theorem TopLevel.of_ne {n : Name} {cwd : Path}
    (hn : env.configuration.workingDir = none → n ≠ configFile) : TopLevel env cwd (cwd ++ [n]) :=
  ⟨n, rfl, hn⟩

/-- Only proper names are free in a directory. -/
theorem resolve_here {s : Bytes} (hsep : sep ∉ s) (hd : h.fs.node h.cwd = some .dir) :
    (h.fs.resolve h.cwd (hereDir ++ s)).isSome ∨
      Proper s ∧ h.fs.node (h.cwd ++ [s]) = none := by
  by_cases hstay : stays s = true
  · -- the path names the working directory itself
    have hn : Names (hereDir ++ s) [] := by
      have hcomp : components (hereDir ++ s) = [dot, s] := by
        have hdot : sep ∉ dot := by decide
        rw [hereDir_append, components_append_sep, components_of_not_mem hdot,
          components_of_not_mem hsep]
        rfl
      refine ⟨hereDir_append_ne_nil s, nofun, ?_, ?_⟩
      · rw [hcomp]
        simp only [List.mem_cons, List.not_mem_nil, or_false, not_or]
        refine ⟨by decide, ?_⟩
        rintro rfl
        exact absurd hstay (by decide)
      · rw [hcomp, plain_cons, if_pos (by decide), plain_cons, if_pos hstay, plain_nil]
    left
    rw [hn.resolve, List.append_nil, if_pos ⟨by rw [hd]; rfl, fun _ => hd⟩]
    rfl
  · by_cases hup : s = dotdot
    · -- the parent of the working directory
      have hn : Names dot [] := ⟨by decide, by decide, by decide, by decide⟩
      left
      rw [hup]
      exact hn.resolve_up (by rw [List.append_nil]; exact hd)
    · have hproper : Proper s := .of_stays hsep (eq_false_of_ne_true hstay) hup
      cases hnode : h.fs.node (h.cwd ++ [s]) with
      | none => exact .inr ⟨hproper, rfl⟩
      | some nd =>
        rw [hproper.resolve_here (by rw [hnode]; rfl)]
        exact .inl rfl

/-- The session has found a name of the working directory free and has not used it yet. -/
structure Free (mode : Mode) (env : Env) (s : Name) (l : Session) (h : Host) : Prop where
  stands : l.Stands mode env h
  proper : Proper s
  top : TopLevel env h.cwd (h.cwd ++ [s])
  held : l.held = some (h.cwd ++ [s])
  absent : mode.strict = true ∨ l.tmp = none → h.fs.node (h.cwd ++ [s]) = none
  apart : l.tmp ≠ some (h.cwd ++ [s])

theorem Free.rely {s : Name} (hf : Free mode env s l h) (hr : Rely mode none l h h') :
    Free mode env s l h' where
  stands := hf.stands.rely hr
  proper := hf.proper
  top := hr.cwd ▸ hf.top
  held := by rw [hr.cwd]; exact hf.held
  absent h0 := by rw [hr.cwd]; exact hr.held h0 nofun _ hf.held (hf.absent h0)
  apart := by rw [hr.cwd]; exact hf.apart

theorem Free.congr {s : Name} (hf : Free mode env s l h) (ht : l'.tmp = l.tmp)
    (hd : l'.dests = l.dests) (hheld : l'.held = l.held) : Free mode env s l' h :=
  ⟨hf.stands.congr ht hd, hf.proper, hf.top, hheld.trans hf.held, fun h0 => hf.absent (ht ▸ h0),
    ht ▸ hf.apart⟩

/-- **`file_exists` for an entry of the working directory.**  A name that is free is proper, and it
    is held from then on. -/
theorem fileExists_here (hs : l.Stands mode env h) {s : Bytes} (hsep : sep ∉ s)
    (htop : env.configuration.workingDir = none → s ≠ configFile) :
    (fileExists (hereDir ++ s)).Sat respond (uploading mode env moves) l h (fun a l' h' =>
      Rely mode none l h h' ∧ l.Alike l' ∧
        ((a = some true ∧ l'.calls = l.calls + 1 ∧
            (mode.solo = true → Proper s → h.fs.node (h.cwd ++ [s]) ≠ none)) ∨
          (a = some false ∧ Free mode env s l' h'))) := by
  unfold fileExists
  rw [if_neg (hereDir_append_ne_nil _)]
  intro h' hr
  have hs' := hs.rely hr
  rw [respond_access]
  by_cases hres : (h'.fs.resolve h'.cwd (hereDir ++ s)).isSome
  · rw [if_pos hres]
    refine ⟨Guar.silent hs' rfl rfl (fun q hq => .inl ⟨hq, rfl⟩) nofun, hr.settled rfl,
      ⟨rfl, rfl, rfl, rfl, rfl, rfl⟩, .inl ⟨rfl, rfl, fun hsolo hproper hnone => ?_⟩⟩
    have hn : Names (hereDir ++ s) [s] := hproper.names
    rw [hr.alone hsolo, hn.resolve_none hnone] at hres
    cases hres
  · obtain ⟨hproper, habsent⟩ := (resolve_here hsep hs'.cwd).resolve_left hres
    have hloc : h'.locate (hereDir ++ s) = h'.cwd ++ [s] := (Proper.names hproper).locate h'
    rw [if_neg hres, hloc]
    refine ⟨Guar.silent hs' rfl rfl (fun q hq => .inr (.inl ?_)) nofun, hr.settled rfl,
      ⟨rfl, rfl, rfl, rfl, rfl, rfl⟩, .inr ⟨rfl, hs'.congr rfl rfl, hproper,
        TopLevel.of_ne htop, rfl, fun _ => habsent, fun ht => ?_⟩⟩
    · cases hq
      exact ⟨habsent, TopLevel.of_ne htop⟩
    · have hdir := (hs'.tmp _ ht).2
      rw [habsent] at hdir
      cases hdir

/-! ### Choosing a name -/

/-- The loop of `_send_files_dirs` that looks for a directory name ends with a name that is free. -/
theorem freeTempName_free (hs : l.Stands mode env h) (fuel : Nat) (id : UInt32) :
    (freeTempName fuel id).Sat respond (uploading mode env moves) l h (fun a l' h' =>
      (mode.solo = true → h' = h) ∧
        ((a = none ∧ (mode.solo = true → 0 < fuel → h.fs.node (h.cwd ++ [hex id]) ≠ none)) ∨
          l.Alike l' ∧ ∃ id', a = some (some (tempName id')) ∧ Free mode env (hex id') l' h' ∧
            (mode.solo = true → h.fs.node (h.cwd ++ [hex id]) = none → id' = id))) := by
  induction fuel generalizing l h id with
  | zero => exact ⟨fun _ => rfl, .inl ⟨rfl, fun _ h0 => absurd h0 (lt_irrefl 0)⟩⟩
  | succ fuel ih =>
    -- `./` and at most eight digits
    have hfits : snprintfCheck 17 (tempName id) = some (tempName id) := by
      have hlen := length_hex_le id
      refine snprintfCheck_of_lt ?_
      unfold tempName
      rw [length_hereDir_append]
      omega
    unfold freeTempName
    rw [hfits]
    refine sat_silent rfl hs fun h1 hr1 => ?_
    have hs1 : l.tick.Stands mode env h1 := (hs.rely hr1).congr rfl rfl
    rw [respond_of_failed_none rfl]
    refine (fileExists_here hs1 (hex_proper id).sep fun _ => hex_ne_configFile id).bind
      (fun b l2 h2 ⟨hr2, ha2, hb⟩ => ?_)
      (fun l2 h2 ⟨_, _, hb⟩ => by rcases hb with ⟨hb, _⟩ | ⟨hb, _⟩ <;> cases hb)
    have hs2 := (hs1.rely hr2).congr ha2.tmp ha2.dests
    have htick : l.Alike l.tick := ⟨rfl, rfl, rfl, rfl, rfl, rfl⟩
    have halike : l.Alike l2 := htick.trans ha2
    have halone : mode.solo = true → h2 = h := fun hsolo =>
      (hr2.alone hsolo).trans (hr1.alone hsolo)
    rcases hb with ⟨hb, -, hthere⟩ | ⟨hb, hfree⟩
    · cases hb
      -- the directory is there already, so the next number is tried
      have hfirst : mode.solo = true → h.fs.node (h.cwd ++ [hex id]) ≠ none := fun hsolo =>
        hr1.alone hsolo ▸ hthere hsolo (hex_proper id)
      refine (ih hs2 _).mono fun a l' h' ⟨halone', hpost⟩ => ?_
      refine ⟨fun hsolo => (halone' hsolo).trans (halone hsolo), ?_⟩
      rcases hpost with ⟨ha, -⟩ | ⟨ha, id', hid, hfree, -⟩
      · exact .inl ⟨ha, fun hsolo _ => hfirst hsolo⟩
      · exact .inr ⟨halike.trans ha, id', hid, hfree, fun hsolo h0 => absurd h0 (hfirst hsolo)⟩
    · cases hb
      exact ⟨halone, .inr ⟨halike, id, rfl, hfree, fun _ _ => rfl⟩⟩

/-! ### Making the directory -/

/-- The name that was chosen is still free. -/
theorem fileExists_free (hf : Free mode env x l h) (ht : l.tmp = none) :
    (fileExists (hereDir ++ x)).Sat respond (uploading mode env moves) l h (fun a l' h' =>
      a = some false ∧ Free mode env x l' h' ∧ l.Alike l' ∧ (mode.solo = true → h' = h)) := by
  unfold fileExists
  rw [if_neg (hereDir_append_ne_nil _)]
  intro h' hr
  have hf' := hf.rely (hr.settled rfl)
  have hn : Names (hereDir ++ x) [x] := hf.proper.names
  have hres := hn.resolve_none (hf'.absent (.inr ht))
  have hloc : h'.locate (hereDir ++ x) = h'.cwd ++ [x] := hn.locate h'
  rw [respond_access, hres, if_neg (by decide), hloc]
  refine ⟨Guar.silent hf'.stands rfl rfl (fun q hq => .inr (.inl ?_)) nofun, rfl,
    ⟨hf'.stands.congr rfl rfl, hf'.proper, hf'.top, rfl, hf'.absent, hf'.apart⟩,
    ⟨rfl, rfl, rfl, rfl, rfl, rfl⟩, hr.alone⟩
  cases hq
  exact ⟨hf'.absent (.inr ht), hf'.top⟩

/-- The step that makes the session's directory. -/
theorem Guar.newDir (hs : l.Stands mode env h) (ht : l.tmp = none)
    (hheld : l.held = some (h.cwd ++ [x])) (htop : TopLevel env h.cwd (h.cwd ++ [x]))
    {s : Bytes} (hloc : h.locate s = h.cwd ++ [x]) {fs : FileSystem}
    (habsent : h.fs.node (h.cwd ++ [x]) = none)
    (hnode : ∀ q, fs.node q = if q = h.cwd ++ [x] then some .dir else h.fs.node q) :
    Guar mode env moves (.mkdir s) (l, h) (l.tick.made (h.cwd ++ [x]), h.withFs fs) := by
  have hcreates : Creates mode env (.mkdir s) (l, h) (h.cwd ++ [x]) :=
    ⟨hheld, htop, congrArg some hloc, fun _ => habsent⟩
  have htmp : (l.tick.made (h.cwd ++ [x])).tmp = some (h.cwd ++ [x]) := by
    exact Session.made_tmp_of_none ht _
  -- what was there before is not touched
  have hkeep : ∀ q, (h.fs.node q).isSome → fs.node q = h.fs.node q := by
    intro q hq
    rw [hnode, if_neg]
    rintro rfl
    rw [habsent] at hq
    cases hq
  have hfile : ∀ q ino d, fs.node q = some (.file ino d) → h.fs.node q = some (.file ino d) := by
    intro q ino d hq
    rw [hnode] at hq
    split at hq
    · cases hq
    · exact hq
  have hself : fs.node (h.cwd ++ [x]) = some .dir := by rw [hnode, if_pos rfl]
  have hcwd : h.fs.node h.cwd = some .dir := hs.cwd
  constructor
  case cwd => rfl
  case stands =>
    refine ⟨(hkeep h.cwd (by rw [hcwd]; rfl)).trans hcwd, fun t h1 => ?_, fun hst d hd => ?_,
      fun hst d hd h1 => ?_⟩
    · rw [htmp, Option.some.injEq] at h1
      rw [← h1]
      exact ⟨htop, hself⟩
    · obtain ⟨h1, h2⟩ := hs.dests hst d hd
      exact ⟨h1, by rw [Host.withFs_fs, hkeep d h2]; exact h2⟩
    · rw [htmp, Option.some.injEq] at h1
      have h2 := (hs.dests hst d hd).2
      rw [← h1, habsent] at h2
      cases h2
  case frame =>
    intro p
    by_cases hp : p = h.cwd ++ [x]
    · right
      right
      exact ⟨h.cwd ++ [x], hcreates, hp ▸ List.prefix_rfl,
        fun _ => Session.owns_tmp htmp (hp ▸ List.prefix_rfl)⟩
    · left
      show fs.node p = h.fs.node p
      rw [hnode, if_neg hp]
  case inodes => exact fun p ino d hp => .inl ⟨d, hfile p ino d hp⟩
  case sizes => exact fun p ino d hp => .inr ⟨p, hfile p ino d hp⟩
  case tmp =>
    intro t h1
    rw [htmp, Option.some.injEq] at h1
    exact .inr ⟨ht, rfl, h1 ▸ hcreates⟩
  case dests => exact fun d hd => .inl hd
  case gone =>
    intro p ho hn
    rcases ho with ⟨t, h1, -⟩ | ho
    · rw [ht] at h1
      cases h1
    · exact absurd (.inr ho) hn
  case held => exact fun q hq => by cases hq
  case moves => exact nofun

/-- `mkdir` for the directory of the session: somebody else may have used the name meanwhile. -/
theorem mkdir_free (hf : Free mode env x l h) (ht : l.tmp = none) :
    (mkdir (hereDir ++ x)).Sat respond (uploading mode env moves) l h (fun a l' h' =>
      l.SameSocket l' ∧ l'.dests = l.dests ∧
        ((a = some true ∧ Inside mode env x Tree.bare l' h') ∨
          (a = some false ∧ l'.tmp = none ∧ l'.Stands mode env h' ∧
            (mode.solo = true → ¬ l.Reliable)))) := by
  intro h' hr
  have hs' := hf.stands.rely hr
  have hcwd : h'.cwd = h.cwd := hr.cwd
  have hn : Names (hereDir ++ x) [x] := hf.proper.names
  have hfail : Guar mode env moves (.mkdir (hereDir ++ x)) (l, h') (l.tick.release, h') :=
    Guar.silent hs' rfl rfl nofun nofun
  have hstay : l.tick.release.Stands mode env h' := hs'.congr rfl rfl
  cases hfault : l.fault with
  | true =>
    rw [respond_of_fault hfault rfl]
    refine ⟨hfail, ⟨rfl, rfl, rfl, rfl⟩, rfl, .inr ⟨rfl, ht, hstay, fun _ hl => ?_⟩⟩
    rw [hl.fault] at hfault
    cases hfault
  | false =>
    have hnew : h'.fs.resolveNew h'.cwd (hereDir ++ x) = some (h'.cwd, x) :=
      hf.proper.resolveNew_here hs'.cwd
    cases hmk : h'.fs.mkdirAt h'.cwd x with
    | none =>
      rw [respond_mkdir_none hfault hnew hmk]
      refine ⟨hfail, ⟨rfl, rfl, rfl, rfl⟩, rfl, .inr ⟨rfl, ht, hstay, fun hsolo _ => ?_⟩⟩
      -- alone, the name is still free, so the call cannot fail
      have habsent : h'.fs.node (h'.cwd ++ [x]) = none := by
        rw [hr.alone hsolo]
        exact hf.absent (.inr ht)
      have hsome := FileSystem.mkdirAt_isSome hs'.cwd habsent
      rw [hmk] at hsome
      cases hsome
    | some fs =>
      obtain ⟨-, habsent, -, hnode⟩ := FileSystem.mkdirAt_eq_some hmk
      have hguar : Guar mode env moves (.mkdir (hereDir ++ x)) (l, h')
          (l.tick.made (h'.cwd ++ [x]), h'.withFs fs) :=
        Guar.newDir hs' ht (hcwd ▸ hf.held) (hcwd ▸ hf.top) (hn.locate h') habsent hnode
      rw [respond_mkdir hfault hnew hmk]
      refine ⟨hguar, ⟨rfl, rfl, rfl, rfl⟩, rfl, .inl ⟨rfl, hguar.stands, ?_, ?_⟩⟩
      · exact Session.made_tmp_of_none ht _
      · funext q
        show (fs.node (h'.cwd ++ [x] ++ q)).map Node.entry = Tree.bare q
        by_cases hq : q = []
        · rw [hq, List.append_nil, hnode, if_pos rfl]
          rfl
        · -- nothing was below a name that was free
          have hbelow : h'.fs.node (h'.cwd ++ [x] ++ q) = none :=
            h'.fs.node_of_prefix_none habsent (List.prefix_append _ _)
          rw [hnode, if_neg (by simpa using hq), hbelow, Tree.bare, if_neg hq]
          rfl

/-- **`mkdirs` for the name that was chosen** makes the directory of the session, which is empty. -/
theorem mkdirs_free (hf : Free mode env x l h) (ht : l.tmp = none) (hlen : x.length ≤ 8) :
    (mkdirs (hereDir ++ x)).Sat respond (uploading mode env moves) l h (fun a l' h' =>
      l.SameSocket l' ∧ l'.dests = l.dests ∧
        ((a = some .success ∧ Inside mode env x Tree.bare l' h') ∨
          (a = some .failure ∧ l'.tmp = none ∧ l'.Stands mode env h' ∧
            (mode.solo = true → ¬ l.Reliable)))) := by
  have hhead : ¬ (hereDir ++ x).head? ≠ some 0x2e := fun h0 => h0 rfl
  have hshort : ¬ (hereDir ++ x).length > maxFileNameLen := by
    have hmax : maxFileNameLen = 2048 := rfl
    rw [length_hereDir_append]
    omega
  have hdot : sep ∉ dot := by decide
  have hx := hf.proper
  have hdx : dot ++ [sep] ++ x = hereDir ++ x := rfl
  unfold mkdirs
  rw [if_neg hhead]
  refine (fileExists_free hf ht).bind (fun b l1 h1 ⟨hb, hf1, ha1, _⟩ => ?_)
    (fun l1 h1 ⟨hb, _⟩ => by cases hb)
  cases hb
  rw [if_neg (by decide), if_neg hshort, hereDir_append, mkdirsLoop_next hdot, List.nil_append]
  -- the working directory is there
  refine (mkdirCheck_here hf1.stands).bind (fun r l2 h2 ⟨hr, hrely, ha2, hheld⟩ => ?_)
    (fun l2 h2 ⟨hr, _⟩ => by cases hr)
  cases hr
  have hf2 := (hf1.rely hrely).congr ha2.tmp ha2.dests hheld
  have ht2 : l2.tmp = none := (ha2.tmp.trans ha1.tmp).trans ht
  dsimp only
  rw [mkdirsLoop_last hx.sep, hdx]
  -- and the name is still free
  refine (fileExists_free hf2 ht2).bind (fun b l3 h3 ⟨hb, hf3, ha3, _⟩ => ?_)
    (fun l3 h3 ⟨hb, _⟩ => by cases hb)
  cases hb
  have ha := (ha1.trans ha2).trans ha3
  refine (mkdir_free hf3 (ha3.tmp.trans ht2)).bind (fun r l4 h4 ⟨hsock, hdests, hr⟩ => ?_)
    (fun l4 h4 ⟨_, _, hr⟩ => by rcases hr with ⟨hr, _⟩ | ⟨hr, _⟩ <;> cases hr)
  have hsock' : l.SameSocket l4 := ha.sameSocket.trans hsock
  rcases hr with ⟨hr, hin⟩ | ⟨hr, htmp, hs, hrel⟩
  · cases hr
    exact ⟨hsock', hdests.trans ha.dests, .inl ⟨rfl, hin⟩⟩
  · cases hr
    exact ⟨hsock', hdests.trans ha.dests,
      .inr ⟨rfl, htmp, hs, fun hsolo hl => hrel hsolo (hl.alike ha)⟩⟩

/-! ### Removing the directory -/

/-- The step that removes the session's directory. -/
theorem Guar.rmdir (hin : Inside mode env x T l h) {s : Bytes} {fs : FileSystem}
    (hnode : ∀ q, fs.node q = if q = h.cwd ++ [x] then none else h.fs.node q) :
    Guar mode env moves (.rmdir s) (l, h) (l.tick.unmade (h.cwd ++ [x]), h.withFs fs) := by
  have htmp : (l.tick.unmade (h.cwd ++ [x])).tmp = none := Session.unmade_tmp hin.tmp
  have hkeep : ∀ q, q ≠ h.cwd ++ [x] → fs.node q = h.fs.node q := fun q hq => by
    rw [hnode, if_neg hq]
  have hfile : ∀ q ino d, fs.node q = some (.file ino d) → h.fs.node q = some (.file ino d) := by
    intro q ino d hq
    rw [hnode] at hq
    split at hq
    · cases hq
    · exact hq
  have hdests : mode.strict = true → ∀ d ∈ l.dests, fs.node d = h.fs.node d := by
    intro hst d hd
    refine hkeep d ?_
    rintro rfl
    exact hin.stands.apart hst _ hd hin.tmp
  have hnecwd : h.cwd ≠ h.cwd ++ [x] := by simp
  constructor
  case cwd => rfl
  case stands =>
    refine ⟨(hkeep _ hnecwd).trans hin.stands.cwd, fun t ht => ?_, fun hst d hd => ?_,
      fun _ d _ => by rw [htmp]; nofun⟩
    · rw [htmp] at ht
      cases ht
    · exact ⟨(hin.stands.dests hst d hd).1, by
        rw [Host.withFs_fs, hdests hst d hd]; exact (hin.stands.dests hst d hd).2⟩
  case frame =>
    intro p
    by_cases hp : p = h.cwd ++ [x]
    · exact .inr (.inl (Session.owns_tmp hin.tmp (hp ▸ List.prefix_rfl)))
    · exact .inl (hkeep p hp)
  case inodes => exact fun p ino d hp => .inl ⟨d, hfile p ino d hp⟩
  case sizes => exact fun p ino d hp => .inr ⟨p, hfile p ino d hp⟩
  case tmp =>
    intro t ht
    rw [htmp] at ht
    cases ht
  case dests => exact fun d hd => .inl hd
  -- the session gives up its directory, where nothing is any more
  case gone =>
    intro p ho hno
    rcases ho with ⟨t, ht, hp⟩ | ho
    · rw [hin.tmp, Option.some.injEq] at ht
      refine fs.node_of_prefix_none ?_ (ht ▸ hp)
      rw [hnode, if_pos rfl]
    · exact absurd (.inr ho) hno
  case held => exact fun q hq => by cases hq
  case moves => exact nofun

/-- A directory that cannot be removed is not empty. -/
theorem Inside.not_empty (hin : Inside mode env x T l h)
    (hrm : h.fs.rmdirAt (h.cwd ++ [x]) = none) : ∃ q, q ≠ [] ∧ T q ≠ none := by
  have hdir : h.fs.node (h.cwd ++ [x]) = some .dir := (hin.stands.tmp _ hin.tmp).2
  have hlist : h.fs.list (h.cwd ++ [x]) ≠ [] := by
    intro hl
    have hsome := FileSystem.rmdirAt_isSome (by simp) hdir hl
    rw [hrm] at hsome
    cases hsome
  obtain ⟨n, hmem⟩ := List.exists_mem_of_ne_nil _ hlist
  rw [FileSystem.mem_list] at hmem
  refine ⟨[n], by simp, fun hnone => ?_⟩
  rw [← hin.tree, FileSystem.tree_eq_none] at hnone
  rw [hnone] at hmem
  cases hmem

/-- `remove_directory` for the directory of the session: it goes if it is empty. -/
theorem removeDirectory_inside (hin : Inside mode env x T l h) (hx : Proper x) :
    (removeDirectory (hereDir ++ x)).Sat respond (uploading mode env moves) l h (fun a l' h' =>
      l.SameSocket l' ∧ l'.dests = l.dests ∧ h'.cwd = h.cwd ∧
        (∀ p, l.Owns mode p → ¬ h.cwd ++ [x] <+: p → h'.fs.node p = h.fs.node p) ∧
        ((a = some true ∧ (∀ q, q ≠ [] → T q = none) ∧ l'.tmp = none ∧ l'.Stands mode env h') ∨
          (a = some false ∧ Inside mode env x T l' h' ∧
            (l.Sturdy → ∃ q, q ≠ [] ∧ T q ≠ none)))) := by
  intro h' hr
  have hin' := hin.rely hr
  have hcwd : h'.cwd = h.cwd := hr.cwd
  have hn : Names (hereDir ++ x) [x] := hx.names
  have hdir : h'.fs.node (h'.cwd ++ [x]) = some .dir := (hin'.stands.tmp _ hin'.tmp).2
  have hsilent : ∀ l1 : Session, l1.tmp = l.tmp → l1.dests = l.dests →
      (∀ q, l1.held = some q → l.held = some q) →
      Guar mode env moves (.rmdir (hereDir ++ x)) (l, h') (l1, h') := fun l1 ht hd hheld =>
    Guar.silent hin'.stands ht hd (fun q hq => .inl ⟨hheld q hq, rfl⟩) nofun
  have hsame : ∀ p, l.Owns mode p → ¬ h.cwd ++ [x] <+: p → h'.fs.node p = h.fs.node p :=
    fun p hp _ => hr.owned p hp
  cases hfault : l.fault with
  | true =>
    rw [respond_of_fault hfault rfl]
    exact ⟨hsilent _ rfl rfl nofun, ⟨rfl, rfl, rfl, rfl⟩, rfl, hcwd, hsame,
      .inr ⟨rfl, hin'.congr rfl rfl, fun hl => by rw [hl.fault] at hfault; cases hfault⟩⟩
  | false =>
    have hres : h'.fs.resolve h'.cwd (hereDir ++ x) = some (h'.cwd ++ [x]) := by
      rw [hn.resolve, if_pos ⟨by rw [hdir]; rfl, fun _ => hdir⟩]
    cases hrm : h'.fs.rmdirAt (h'.cwd ++ [x]) with
    | none =>
      rw [respond_rmdir_none hfault hres hrm]
      exact ⟨hsilent _ rfl rfl fun q hq => hq, ⟨rfl, rfl, rfl, rfl⟩, rfl, hcwd, hsame,
        .inr ⟨rfl, hin'.congr rfl rfl, fun _ => hin'.not_empty hrm⟩⟩
    | some fs =>
      obtain ⟨-, -, hlist, -, hnode⟩ := FileSystem.rmdirAt_eq_some hrm
      have hbelow : ∀ q, q ≠ [] → h'.fs.node (h'.cwd ++ [x] ++ q) = none := fun q hq =>
        h'.fs.node_below_of_list_nil hlist hq
      have hguar : Guar mode env moves (.rmdir (hereDir ++ x)) (l, h')
          (l.tick.unmade (h'.cwd ++ [x]), h'.withFs fs) := Guar.rmdir hin' hnode
      rw [respond_rmdir hfault hres hrm]
      refine ⟨hguar, ⟨rfl, rfl, rfl, rfl⟩, rfl, hcwd, fun p hp hnp => ?_,
        .inl ⟨rfl, fun q hq => ?_, Session.unmade_tmp hin'.tmp, hguar.stands⟩⟩
      · -- the results of the session lie elsewhere
        show fs.node p = h.fs.node p
        rw [hnode, if_neg (fun h0 => hnp (by rw [h0, hcwd])), hr.owned p hp]
      · rw [← hin'.tree, FileSystem.tree_eq_none]
        exact hbelow q hq

end ClipShare
