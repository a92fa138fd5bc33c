import ClipShare.Server.Links
import ClipShare.Verify.Frames
import ClipShare.Verify.Moving

namespace ClipShare

open Interaction Posix

/-!
# A single upload is atomic

`send_file_v1` in a session that runs alone, in a working directory with symbolic links, where
connections, `fopen` and `fwrite` fail at any time.

* `Unchanged` / `Gains` — the file system is as it was, or has one more file;
* `saveContent_gains` — the loop over the content goes on with the new file, or removes it;
* `sendFileV1_atomic` — an upload fails and changes nothing, or adds one file, if every link of the
  working directory leads to something;
* `dangling_link_followed` — a link that leads to nothing is followed.
-/

/-! ### The file system -/

namespace LinkedHost

/-- The file system is as it was. -/
structure Unchanged (h h' : LinkedHost) : Prop where
  node : h'.host.fs.node = h.host.fs.node
  link : h'.link = h.link
  cwd : h'.host.cwd = h.host.cwd

/-- The only change is a new regular file in the working directory, under a name that was free. -/
structure Gains (h : LinkedHost) (n : Name) (ino : Nat) (d : Bytes) (h' : LinkedHost) : Prop where
  proper : Proper n
  free : h.host.fs.node (h.host.cwd ++ [n]) = none
  unlinked : h.link n = none
  new : ∀ p e, h.host.fs.node p ≠ some (.file ino e)
  node : h'.host.fs.node =
    Function.update h.host.fs.node (h.host.cwd ++ [n]) (some (.file ino d))
  link : h'.link = h.link
  cwd : h'.host.cwd = h.host.cwd

/-- Every link of the working directory leads to something. -/
def NoDangling (h : LinkedHost) : Prop :=
  ∀ n target, h.link n = some target → (target.bind h.host.fs.node).isSome

variable {h h' : LinkedHost} {n : Name} {ino : Nat} {d : Bytes}

theorem Unchanged.refl (h : LinkedHost) : h.Unchanged h := ⟨rfl, rfl, rfl⟩

/-- The link that the name of an entry names. -/
theorem linkAt_here (h : LinkedHost) (hn : Proper n) : h.linkAt (hereDir ++ n) = h.link n := by
  have hnames : Names (hereDir ++ n) [n] := hn.names
  have hentry : FileSystem.entryOf h.host.cwd (h.host.cwd ++ [n]) = some n :=
    FileSystem.entryOf_eq_some.mpr rfl
  unfold linkAt
  rw [hnames.locate, hentry, Option.bind_some]

theorem Gains.node_self (hg : h.Gains n ino d h') :
    h'.host.fs.node (h'.host.cwd ++ [n]) = some (.file ino d) := by
  rw [hg.node, hg.cwd, Function.update_self]

/-- The new file is appended to. -/
theorem Gains.write (hg : h.Gains n ino d h') (data : Bytes) :
    h.Gains n ino (d ++ data)
      (h'.withHost (h'.host.withFs (h'.host.fs.writeAt ino d.length data))) where
  proper := hg.proper
  free := hg.free
  unlinked := hg.unlinked
  new := hg.new
  link := hg.link
  cwd := hg.cwd
  node := by
    funext q
    show (h'.host.fs.writeAt ino d.length data).node q = _
    by_cases hq : q = h.host.cwd ++ [n]
    · rw [FileSystem.writeAt_node, hg.node, hq, Function.update_self, Function.update_self]
      simp [FileSystem.patch_length]
    · have hother : h'.host.fs.node q = h.host.fs.node q := by
        rw [hg.node, Function.update_of_ne hq]
      rw [FileSystem.writeAt_node_of_ne, hother, Function.update_of_ne hq]
      intro e
      rw [hother]
      exact hg.new q e

/-- Without the new file, everything is as it was. -/
theorem Gains.removed (hg : h.Gains n ino d h') {fs : FileSystem}
    (hrm : h'.host.fs.removeAt (h'.host.cwd ++ [n]) = some fs) :
    h.Unchanged (h'.withHost (h'.host.withFs fs)) where
  link := hg.link
  cwd := hg.cwd
  node := by
    obtain ⟨-, -, -, hnode⟩ := FileSystem.removeAt_eq_some hrm
    funext q
    show fs.node q = _
    rw [hnode, hg.node, hg.cwd]
    by_cases hq : q = h.host.cwd ++ [n]
    · rw [if_pos hq, hq, hg.free]
    · rw [if_neg hq, Function.update_of_ne hq]

end LinkedHost

/-- A file can be removed. -/
theorem removeAt_file {fs : FileSystem} {p : Path} {ino : Nat} {d : Bytes}
    (hp : fs.node p = some (.file ino d)) : ∃ fs', fs.removeAt p = some fs' := by
  have hne : p ≠ [] := by
    rintro rfl
    rw [fs.root] at hp
    cases hp
  have hlist : fs.list p = [] := by
    apply List.eq_nil_iff_forall_not_mem.mpr
    intro n hn
    rw [FileSystem.mem_list] at hn
    have hdir := fs.closed p n hn
    rw [hp] at hdir
    cases hdir
  refine ⟨fs.erase p hne hlist, ?_⟩
  unfold FileSystem.removeAt
  rw [dif_pos ⟨hne, by rw [hp]; rfl, hlist⟩]

/-! ### The calls -/

/-- The contract of a session that runs alone. -/
abbrev lone : Contract Calls Session LinkedHost := Contract.alone fun _ _ _ => True

section calls

variable {l : Session} {h h0 : LinkedHost} {n : Name} {ino : Nat} {d : Bytes}

/-- A call of a session that runs alone. -/
theorem sat_lone {α : Type} {Q : Option α → Session → LinkedHost → Prop} {c : Call}
    {k : c.Resp → Proc α}
    (hk : (k (respondLinked c (l, h)).1).Sat respondLinked lone (respondLinked c (l, h)).2.1
      (respondLinked c (l, h)).2.2 Q) :
    (Prog.call (S := Calls) c k).Sat respondLinked lone l h Q := by
  rintro h' rfl
  exact ⟨trivial, hk⟩

/-- `read_sock` fails, or takes the bytes from what the client has sent. -/
theorem readSock_lone {k : Nat} (hk : 0 < k) :
    (readSock k).Sat respondLinked lone l h (fun a l' h' => h' = h ∧
      (a = some none ∨ ∃ data, a = some (some data) ∧
        field k l.input = some (data, l'.input))) := by
  refine sat_lone ⟨rfl, ?_⟩
  show some (l.readSock k).1 = some none ∨
    ∃ data, some (l.readSock k).1 = some (some data) ∧
      field k l.input = some (data, (l.readSock k).2.input)
  rcases l.readSock_cases hk with ⟨-, -, hlen, hread⟩ | ⟨l', hread, -⟩
  · rw [hread]
    exact .inr ⟨_, rfl, if_pos hlen⟩
  · rw [hread]
    exact .inl rfl

theorem readSize_lone :
    readSize.Sat respondLinked lone l h (fun a l' h' => h' = h ∧
      (a = some none ∨ ∃ size, a = some (some size) ∧
        sizeField l.input = some (size, l'.input))) := by
  refine (readSock_lone (by decide)).bind (fun r l1 h1 ⟨hh, hr⟩ => ?_)
    (fun l1 h1 ⟨_, hr⟩ => by rcases hr with hr | ⟨_, hr, _⟩ <;> cases hr)
  rcases hr with hr | ⟨data, hr, hfield⟩
  · cases hr
    exact ⟨hh, .inl rfl⟩
  · cases hr
    exact ⟨hh, .inr ⟨_, rfl, by simp [sizeField, hfield]⟩⟩

theorem writeSock_lone (data : Bytes) :
    (writeSock data).Sat respondLinked lone l h (fun a l' h' => h' = h ∧ l'.input = l.input ∧
      ∃ b, a = some b) := by
  refine sat_lone ⟨rfl, ?_, _, rfl⟩
  show (l.writeSock data).2.input = l.input
  unfold Session.writeSock
  split_ifs
  · rfl
  · rfl
  · split <;> rfl

/-- A name that `file_exists` does not find is free, as no link leads to nothing. -/
theorem fileExists_lone (hcwd : h.host.fs.node h.host.cwd = some .dir) (hlinks : h.NoDangling)
    {s : Bytes} (hsep : sep ∉ s) :
    (fileExists (hereDir ++ s)).Sat respondLinked lone l h (fun a l' h' => h' = h ∧
      l'.input = l.input ∧ ∃ b, a = some b ∧ (b = false →
        Proper s ∧ h.host.fs.node (h.host.cwd ++ [s]) = none ∧ h.link s = none)) := by
  unfold fileExists
  rw [if_neg (hereDir_append_ne_nil _)]
  refine sat_lone ?_
  cases hat : h.linkAt (hereDir ++ s) with
  | some target =>
    have hresp : respondLinked (.access (hereDir ++ s)) (l, h) =
        ((target.bind h.host.fs.node).isSome, l.tick, h) := by
      simp only [respondLinked, hat]
    obtain ⟨m, -, hm⟩ := Option.bind_eq_some_iff.mp hat
    rw [hresp, hlinks m target hm]
    exact ⟨rfl, rfl, true, rfl, fun htrue => by cases htrue⟩
  | none =>
    have hresp : respondLinked (.access (hereDir ++ s)) (l, h) =
        h.execute (.access (hereDir ++ s)) l := by
      simp only [respondLinked, hat]
    rw [hresp]
    simp only [LinkedHost.execute, execute]
    by_cases hres : (h.host.fs.resolve h.host.cwd (hereDir ++ s)).isSome
    · rw [if_pos hres]
      exact ⟨rfl, rfl, true, rfl, fun htrue => by cases htrue⟩
    · obtain ⟨hproper, hnode⟩ := (resolve_here hsep hcwd).resolve_left hres
      rw [if_neg hres]
      refine ⟨rfl, rfl, false, rfl, fun _ => ⟨hproper, hnode, ?_⟩⟩
      rw [← h.linkAt_here hproper, hat]

/-- `open_file` for a name that is free. -/
theorem openWrite_lone (hcwd : h.host.fs.node h.host.cwd = some .dir) (hn : Proper n)
    (hfree : h.host.fs.node (h.host.cwd ++ [n]) = none) (hlink : h.link n = none) :
    (openWrite (hereDir ++ n)).Sat respondLinked lone l h (fun a l' h' => l'.input = l.input ∧
      ((a = some none ∧ h' = h) ∨ ∃ ino, a = some (some ino) ∧ h.Gains n ino [] h')) := by
  refine sat_lone ?_
  -- `fopen` may fail, and then nothing has changed
  by_cases hfault : l.fault
  · have hresp : respondLinked (.openWrite (hereDir ++ n)) (l, h) =
        (none, l.tick.release, h) := by
      simp only [respondLinked, hfault, if_true]
    rw [hresp]
    exact ⟨rfl, .inl ⟨rfl, rfl⟩⟩
  · have hresp : respondLinked (.openWrite (hereDir ++ n)) (l, h) =
        h.execute (.openWrite (hereDir ++ n)) l := by
      have hat : h.linkAt (hereDir ++ n) = none := by rw [h.linkAt_here hn, hlink]
      simp only [respondLinked, hfault, hat, Bool.false_eq_true, if_false]
    obtain ⟨fs, hof, hnode⟩ :=
      openWriteOf_new hn.getLast_here (hn.resolveNew_here hcwd) hcwd hfree
    rw [hresp]
    simp only [LinkedHost.execute, execute, hof]
    refine ⟨rfl, .inr ⟨_, rfl, hn, hfree, hlink, fun p e hp => ?_, ?_, rfl, rfl⟩⟩
    · -- the inode number has not been used
      exact absurd (h.host.fs.fresh p _ e hp) (lt_irrefl _)
    · funext q
      show fs.node q = _
      rw [hnode, Function.update_apply]

/-- `remove_file` for the new file. -/
theorem removeFile_lone (hg : h0.Gains n ino d h) :
    (do let _ ← removeFile (hereDir ++ n); return Status.failure : Proc Status).Sat respondLinked
      lone l h (fun a _ h' => a = some .failure ∧ h0.Unchanged h') := by
  obtain ⟨fs, hrm⟩ := removeAt_file hg.node_self
  have hres : h.host.fs.resolve h.host.cwd (hereDir ++ n) = some (h.host.cwd ++ [n]) :=
    hg.proper.resolve_here (by rw [hg.node_self]; rfl)
  have hof : removeOf h.host (hereDir ++ n) = some (h.host.cwd ++ [n], fs) := by
    simp [removeOf, hres, hrm]
  have hresp : respondLinked (.remove (hereDir ++ n)) (l, h) =
      h.execute (.remove (hereDir ++ n)) l := by
    have hat : h.linkAt (hereDir ++ n) = none := by
      rw [h.linkAt_here hg.proper, hg.link, hg.unlinked]
    simp only [respondLinked, hat]
  refine sat_lone ?_
  rw [hresp]
  simp only [LinkedHost.execute, execute, hof]
  exact ⟨rfl, hg.removed hrm⟩

end calls

/-! ### The content -/

section content

variable {l : Session} {h h0 : LinkedHost} {n : Name} {ino : Nat} {d : Bytes}

/-- There is nothing left to read. -/
theorem LinkedHost.Gains.done (hg : h0.Gains n ino d h) (input : Bytes) :
    ∃ data, field 0 input = some (data, input) ∧ h0.Gains n ino (d ++ data) h := by
  refine ⟨[], by simp [field], ?_⟩
  rw [List.append_nil]
  exact hg

/-- **Run lemma.**  The loop of `_save_file_common` appends the bytes that are left to the new
    file, or removes it. -/
theorem saveContent_gains (fuel : Nat) {size : Nat} (hg : h0.Gains n ino d h)
    (hfuel : size ≤ fuel) :
    (saveContent (hereDir ++ n) ino fuel d.length size).Sat respondLinked lone l h
      (fun a l' h' =>
        (a = some .success ∧ ∃ data, field size l.input = some (data, l'.input) ∧
          h0.Gains n ino (d ++ data) h') ∨
        (a = some .failure ∧ h0.Unchanged h')) := by
  induction fuel generalizing l h d size with
  | zero => exact .inl ⟨rfl, Nat.le_zero.mp hfuel ▸ hg.done l.input⟩
  | succ fuel ih =>
    unfold saveContent
    by_cases h0 : size = 0
    · rw [if_pos h0]
      exact .inl ⟨rfl, h0 ▸ hg.done l.input⟩
    · rw [if_neg h0]
      dsimp only
      -- one buffer full, or what is left
      obtain ⟨hkpos, hkn⟩ := readLen_bounds h0
      obtain ⟨k, hk⟩ : ∃ k, (if size < fileBufSz then size else fileBufSz) = k := ⟨_, rfl⟩
      rw [hk] at hkpos hkn ⊢
      refine (readSock_lone hkpos).bind (fun r l1 h1 hpost => ?_)
        (fun l1 h1 hpost => by rcases hpost with ⟨-, hr | ⟨_, hr, -⟩⟩ <;> cases hr)
      obtain ⟨rfl, hr | ⟨data, hr, hfield⟩⟩ := hpost
      · -- the client does not send them
        cases hr
        exact (removeFile_lone hg).mono fun a l' h' hpost => .inr hpost
      · cases hr
        have hlen : data.length = k := (field_eq_some.mp hfield).1
        -- how much of it is written
        obtain ⟨w, hw⟩ : ∃ w, l1.written data = w := ⟨_, rfl⟩
        have hwk : w ≤ k := by
          rw [← hw, ← hlen]
          unfold Session.written
          split
          · exact Nat.min_le_right _ _
          · exact le_rfl
        have hresp : respondLinked (.fwrite ino d.length data) (l1, h1) = (w, l1.tick,
            h1.withHost (h1.host.withFs (h1.host.fs.writeAt ino d.length (data.take w)))) := by
          rw [← hw]
          rfl
        have hwritten := hg.write (data.take w)
        refine sat_lone ?_
        rw [hresp]
        show Prog.Sat _ _ (if w < k then _ else saveContent _ ino fuel (d.length + k) (size - k))
          _ _ _
        by_cases hshort : w < k
        · rw [if_pos hshort]
          exact (removeFile_lone hwritten).mono fun a l' h' hpost => .inr hpost
        · rw [if_neg hshort]
          have htake : data.take w = data := List.take_of_length_le (by omega)
          rw [htake] at hwritten ⊢
          have hlen' : d.length + k = (d ++ data).length := by rw [List.length_append, hlen]
          rw [hlen']
          refine (ih hwritten (by omega)).mono fun a l' h' hpost => ?_
          rcases hpost with ⟨ha, rest, hrest, hg'⟩ | hfail
          · refine .inl ⟨ha, data ++ rest, ?_, ?_⟩
            · have := field_add hfield hrest
              rwa [Nat.add_sub_cancel' hkn] at this
            · rw [← List.append_assoc]
              exact hg'
          · exact .inr hfail

/-- `_save_file_common` for a name that is free. -/
theorem saveFileCommon_gains {env : Env} (hcwd : h.host.fs.node h.host.cwd = some .dir)
    (hn : Proper n) (hfree : h.host.fs.node (h.host.cwd ++ [n]) = none) (hlink : h.link n = none) :
    (saveFileCommon env 1 (hereDir ++ n)).Sat respondLinked lone l h (fun a _ h' =>
      (a = some .success ∧ ∃ size data rest rest', sizeField l.input = some (size, rest) ∧
        0 ≤ size ∧ field size.toNat rest = some (data, rest') ∧ ∃ ino, h.Gains n ino data h') ∨
      (a = some .failure ∧ h.Unchanged h')) := by
  refine readSize_lone.bind (fun r l1 h1 ⟨hh, hr⟩ => ?_)
    (fun l1 h1 ⟨_, hr⟩ => by rcases hr with hr | ⟨_, hr, _⟩ <;> cases hr)
  subst hh
  rcases hr with hr | ⟨size, hr, hfield⟩
  · cases hr
    exact .inr ⟨rfl, .refl h1⟩
  · cases hr
    -- a size of -1 stands for a directory only from version 3 on
    have hold : ¬ (size = -1 ∧ 1 ≥ 3) := by omega
    dsimp only
    by_cases hmax : size > env.configuration.maxFileSize
    · rw [if_pos hmax]
      exact .inr ⟨rfl, .refl h1⟩
    · by_cases hneg : size < 0
      · rw [if_neg hmax, if_neg hold, if_pos hneg]
        exact .inr ⟨rfl, .refl h1⟩
      · rw [if_neg hmax, if_neg hold, if_neg hneg]
        refine (openWrite_lone hcwd hn hfree hlink).bind (fun r l2 h2 ⟨hinput, hr⟩ => ?_)
          (fun l2 h2 ⟨_, hr⟩ => by rcases hr with ⟨hr, _⟩ | ⟨_, hr, _⟩ <;> cases hr)
        rcases hr with ⟨hr, hh⟩ | ⟨ino, hr, hg⟩
        · cases hr
          subst hh
          exact sat_lone (.inr ⟨rfl, .refl h2⟩)
        · cases hr
          refine (saveContent_gains size.toNat hg le_rfl).mono fun a l' h' hpost => ?_
          rcases hpost with ⟨ha, data, hdata, hg'⟩ | hfail
          · rw [hinput] at hdata
            exact .inl ⟨ha, size, data, _, _, hfield, not_lt.mp hneg, hdata, ino, hg'⟩
          · exact .inr hfail

end content

/-! ### The name -/

/-- **Run lemma.**  The loop over the candidates ends with a name that is free. -/
theorem freeName_lone {env : Env} {l : Session} {h : LinkedHost}
    (hcwd : h.host.fs.node h.host.cwd = some .dir) (hlinks : h.NoDangling) (size : Nat)
    {fileName : Bytes} (hsep : sep ∉ fileName) (left : Nat) {s : Bytes} (hs : sep ∉ s)
    (htop : env.configuration.workingDir = none → s ≠ configFile) :
    (freeName size fileName left (hereDir ++ s)).Sat respondLinked lone l h (fun a l' h' =>
      h' = h ∧ l'.input = l.input ∧ (a = some none ∨ ∃ n, a = some (some (hereDir ++ n)) ∧
        Proper n ∧ h.host.fs.node (h.host.cwd ++ [n]) = none ∧ h.link n = none ∧
        (env.configuration.workingDir = none → n ≠ configFile))) := by
  induction left generalizing l s with
  | zero =>
    refine (fileExists_lone hcwd hlinks hs).bind (fun b l1 h1 ⟨hh, hinput, b', hb, hfree⟩ => ?_)
      (fun l1 h1 ⟨_, _, _, hb, _⟩ => by cases hb)
    cases hb
    cases b with
    | true => exact ⟨hh, hinput, .inl rfl⟩
    | false =>
      obtain ⟨hproper, hnode, hlink⟩ := hfree rfl
      exact ⟨hh, hinput, .inr ⟨s, rfl, hproper, hnode, hlink, htop⟩⟩
  | succ left ih =>
    refine (fileExists_lone hcwd hlinks hs).bind (fun b l1 h1 ⟨hh, hinput, b', hb, hfree⟩ => ?_)
      (fun l1 h1 ⟨_, _, _, hb, _⟩ => by cases hb)
    cases hb
    cases b with
    | true =>
      rw [if_pos rfl]
      -- the name is taken: on to the next candidate, if it fits the buffer
      cases hfit : snprintfCheck size (candidate (1000000 - (left + 1)) fileName) with
      | none => exact ⟨hh, hinput, .inl rfl⟩
      | some tmp =>
        subst hh
        rw [snprintfCheck_eq hfit, candidate_eq, ← hinput]
        exact ih (sep_not_mem_candidate _ hsep) fun _ => decimal_ne_configFile _ _
    | false =>
      obtain ⟨hproper, hnode, hlink⟩ := hfree rfl
      exact ⟨hh, hinput, .inr ⟨s, rfl, hproper, hnode, hlink, htop⟩⟩

/-- `send_file_v1` from the name of the file on. -/
theorem storeFile_gains {env : Env} (hcut : env.configuration.cutSentFiles = 0) {l : Session}
    {h : LinkedHost} (hcwd : h.host.fs.node h.host.cwd = some .dir) (hlinks : h.NoDangling)
    {fileName : Bytes} (hsep : sep ∉ fileName) (nameMaxLen : Nat) :
    (storeFile env fileName nameMaxLen).Sat respondLinked lone l h (fun a _ h' =>
      (a = some .success ∧ ∃ n size data rest rest' ino,
        sizeField l.input = some (size, rest) ∧ 0 ≤ size ∧
        field size.toNat rest = some (data, rest') ∧ h.Gains n ino data h' ∧
        (env.configuration.workingDir = none → n ≠ configFile)) ∨
      (a = some .failure ∧ h.Unchanged h')) := by
  unfold storeFile renameIfExists
  cases hfit : snprintfCheck nameMaxLen (firstCandidate env fileName) with
  | none => exact .inr ⟨rfl, .refl h⟩
  | some tmp =>
    obtain ⟨s, hfirst, hsep', htop, -⟩ := firstCandidate_eq env hsep
    have htmp : tmp = hereDir ++ s := (snprintfCheck_eq hfit).trans hfirst
    subst htmp
    refine (freeName_lone hcwd hlinks nameMaxLen hsep 999999 hsep' htop).bind
      (fun r l1 h1 ⟨hh, hinput, hr⟩ => ?_)
      (fun l1 h1 ⟨_, _, hr⟩ => by rcases hr with hr | ⟨_, hr, _⟩ <;> cases hr)
    subst hh
    rcases hr with hr | ⟨n, hr, hproper, hfree, hlink, hname⟩
    · cases hr
      exact .inr ⟨rfl, .refl h1⟩
    · cases hr
      refine (saveFileCommon_gains hcwd hproper hfree hlink).bind (fun st l2 h2 hpost => ?_)
        (fun l2 h2 hpost => by rcases hpost with ⟨hst, _⟩ | ⟨hst, _⟩ <;> cases hst)
      rcases hpost with ⟨hst, size, data, rest, rest', hfield, hsize, hdata, ino, hg⟩ | ⟨hst, hsame⟩
      · cases hst
        refine sat_lone ?_
        unfold cutSentFiles
        rw [if_neg (not_not_intro hcut)]
        rw [hinput] at hfield
        exact .inl ⟨rfl, n, size, data, rest, rest', ino, hfield, hsize, hdata, hg, hname⟩
      · cases hst
        exact .inr ⟨rfl, hsame⟩

/-! ### The upload -/

/-- The content that the client of version 1 announces: after the name, a size and as many bytes. -/
def announcedContent (input : Bytes) : Option Bytes := do
  let (nameLength, input) ← sizeField input
  let (_, input) ← field nameLength.toNat input
  let (fileSize, input) ← sizeField input
  if fileSize < 0 then none
  else do
    let (data, _) ← field fileSize.toNat input
    return data

/-- An upload has failed and changed nothing, or it has succeeded, and the only change is a file
    with the content that its client has announced. -/
def Atomic (env : Env) (input : Bytes) (h : LinkedHost) (a : Option Status) (h' : LinkedHost) :
    Prop :=
  (a = some .failure ∧ h.Unchanged h') ∨
  (a = some .success ∧ ∃ n ino data, announcedContent input = some data ∧ h.Gains n ino data h' ∧
    (env.configuration.workingDir = none → n ≠ configFile))

theorem sendFileV1_gains {env : Env} (hcut : env.configuration.cutSentFiles = 0) {l : Session}
    {h : LinkedHost} (hcwd : h.host.fs.node h.host.cwd = some .dir) (hlinks : h.NoDangling) :
    (sendFileV1 env).Sat respondLinked lone l h (fun a _ h' => Atomic env l.input h a h') := by
  refine (writeSock_lone [statusOk]).bind (fun b l1 h1 ⟨hh, hinput1, b', hb⟩ => ?_)
    (fun l1 h1 ⟨_, _, _, hb⟩ => by cases hb)
  cases hb
  subst hh
  cases b with
  | false => exact .inl ⟨rfl, .refl h1⟩
  | true =>
    refine readSize_lone.bind (fun r l2 h2 ⟨hh, hr⟩ => ?_)
      (fun l2 h2 ⟨_, hr⟩ => by rcases hr with hr | ⟨_, hr, _⟩ <;> cases hr)
    subst hh
    rcases hr with hr | ⟨size, hr, hfield2⟩
    · cases hr
      exact .inl ⟨rfl, .refl h2⟩
    · cases hr
      rw [hinput1] at hfield2
      dsimp only
      -- up to here nothing has been written: whatever the checks refuse leaves the host as it is
      by_cases hsize : size ≤ 0 ∨ size > maxFileNameLen
      · rw [if_pos hsize]
        exact .inl ⟨rfl, .refl h2⟩
      · rw [if_neg hsize]
        by_cases hlong : size.toNat + 16 > maxFileNameLen
        · rw [if_pos hlong]
          exact sat_lone (.inl ⟨rfl, .refl h2⟩)
        · rw [if_neg hlong]
          refine (readSock_lone (by omega)).bind (fun r l3 h3 ⟨hh, hr⟩ => ?_)
            (fun l3 h3 ⟨_, hr⟩ => by rcases hr with hr | ⟨_, hr, _⟩ <;> cases hr)
          subst hh
          rcases hr with hr | ⟨name, hr, hfield3⟩
          · cases hr
            exact .inl ⟨rfl, .refl h3⟩
          · cases hr
            dsimp only
            by_cases hvalid : isValidFname name
            · rw [if_neg (by simp [hvalid])]
              by_cases hsep : sep ∈ getBaseName (cstr name)
              · rw [if_pos hsep]
                exact .inl ⟨rfl, .refl h3⟩
              · rw [if_neg hsep]
                refine (storeFile_gains hcut hcwd hlinks hsep _).mono fun a l' h' hpost => ?_
                -- the file that was stored has the content that the stream announces
                rcases hpost with ⟨ha, n, fileSize, data, rest, rest', ino, hfield4, hnonneg, hdata,
                  hg, hname⟩ | hfail
                · refine .inr ⟨ha, n, ino, data, ?_, hg, hname⟩
                  simp [announcedContent, hfield2, hfield3, hfield4, not_lt.mpr hnonneg, hdata]
                · exact .inl hfail
            · rw [if_pos (by simp [hvalid])]
              exact .inl ⟨rfl, .refl h3⟩

/-- **An upload of version 1 is atomic**, whatever its client sends and whichever reads, writes and
    calls to `fopen` and `fwrite` fail, if every link of the working directory leads to
    something. -/
theorem sendFileV1_atomic {env : Env} (hcut : env.configuration.cutSentFiles = 0) (l : Session)
    {h : LinkedHost} (hcwd : h.host.fs.node h.host.cwd = some .dir) (hlinks : h.NoDangling) :
    Atomic env l.input h ((sendFileV1 env).run respondLinked (l, h)).1
      ((sendFileV1 env).run respondLinked (l, h)).2.2 :=
  (sendFileV1_gains hcut hcwd hlinks).run

/-- A client that sends the file `a` with the content `x`. -/
def letterFile : Bytes := sizeBytes 8 1 ++ [0x61] ++ sizeBytes 8 1 ++ [0x78]

/-- The link `l` leads to the working directory itself. -/
def liveLink : LinkedHost := ⟨.empty, fun n => if n = [0x6c] then some (some []) else none⟩

/-- An upload in a directory with a link. -/
theorem sendFileV1_atomic_letter :
    Atomic .default letterFile liveLink
      ((sendFileV1 .default).run respondLinked (Session.fresh letterFile .calm, liveLink)).1
      ((sendFileV1 .default).run respondLinked (Session.fresh letterFile .calm, liveLink)).2.2 := by
  refine sendFileV1_atomic rfl (Session.fresh letterFile .calm) rfl fun n target htarget => ?_
  unfold liveLink at htarget
  dsimp only at htarget
  split at htarget
  · cases htarget
    rfl
  · cases htarget

/-- The link `a` leads to `b`, which does not exist. -/
def danglingLink : LinkedHost :=
  ⟨.empty, fun n => if n = [0x61] then some (some [[0x62]]) else none⟩

/-- The upload of `letterFile`, when the connection breaks before the last byte. -/
def brokenUpload : Option Status × Session × LinkedHost :=
  (sendFileV1 .default).run respondLinked (Session.fresh letterFile.dropLast .calm, danglingLink)

/-- **A link that leads to nothing is followed.**  When the upload fails, the link is gone, and what
    it has led to is there. -/
theorem dangling_link_followed :
    brokenUpload.1 = some .failure ∧
      brokenUpload.2.2.host.fs.node [[0x62]] = some (.file 0 []) ∧
      (brokenUpload.2.2.link [0x61]).isNone ∧
      ¬ Atomic .default letterFile.dropLast danglingLink brokenUpload.1 brokenUpload.2.2 := by
  have hfail : brokenUpload.1 = some .failure := by decide
  have hnode : brokenUpload.2.2.host.fs.node [[0x62]] = some (.file 0 []) := by decide
  refine ⟨hfail, hnode, by decide, ?_⟩
  rintro (⟨-, hsame⟩ | ⟨hsuccess, -⟩)
  · rw [hsame.node] at hnode
    exact absurd hnode (by decide)
  · rw [hfail] at hsuccess
    cases hsuccess

end ClipShare
