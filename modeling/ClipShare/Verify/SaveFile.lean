import ClipShare.Verify.Frames

namespace ClipShare

open Interaction Posix

/-!
# Saving one file

How a frame that the client sends becomes an entry.

* `Holds` — the session has a file of its own open;
* `saveContent_sat` — the content of a file is written to it, or the file is removed;
* `saveFile_inside` — `save_file` grafts exactly this entry into the tree of the session.
-/

variable {mode : Mode} {env : Env} {moves : Host → Path → Prop} {l l' : Session} {h h' : Host}

/-! ### An open file -/

/-- A file of the session is open: it is at `p`, with these contents, and nowhere else. -/
structure Holds (mode : Mode) (env : Env) (p : Path) (ino : Nat) (d : Bytes) (l : Session)
    (h : Host) : Prop where
  stands : l.Stands mode env h
  owns : l.Owns mode p
  node : h.fs.node p = some (.file ino d)
  sole : Sole h.fs ino p

/-- A part of a program has failed: what the session owns is still there. -/
structure Failed (mode : Mode) (env : Env) (l : Session) (h : Host) (l' : Session) (h' : Host) :
    Prop where
  cwd : h'.cwd = h.cwd
  stands : l'.Stands mode env h'
  tmp : l'.tmp = l.tmp
  dests : ∀ d ∈ l'.dests, d ∈ l.dests

/-- A failure later on. -/
theorem Failed.after {l1 : Session} {h1 : Host} (hf : Failed mode env l1 h1 l' h')
    (hcwd : h1.cwd = h.cwd) (ht : l1.tmp = l.tmp) (hd : l1.dests = l.dests) :
    Failed mode env l h l' h' :=
  ⟨hf.cwd.trans hcwd, hf.stands, hf.tmp.trans ht, fun e he => hd ▸ hf.dests e he⟩

variable {p : Path} {ino : Nat} {d : Bytes}

theorem Holds.rely (hh : Holds mode env p ino d l h) {c : Option Call} (hr : Rely mode c l h h') :
    Holds mode env p ino d l h' where
  stands := hh.stands.rely hr
  owns := hh.owns
  node := (hr.owned p hh.owns).trans hh.node
  sole := hr.sole p ino d hh.owns hh.node hh.sole

theorem Holds.congr (hh : Holds mode env p ino d l h) (ht : l'.tmp = l.tmp)
    (hd : l'.dests = l.dests) : Holds mode env p ino d l' h :=
  ⟨hh.stands.congr ht hd, (Session.owns_congr ht hd p).mpr hh.owns, hh.node, hh.sole⟩

/-- The location of an open file is no directory that has to stay. -/
theorem Holds.ne_tmp (hh : Holds mode env p ino d l h) {t : Path} (ht : l.tmp = some t) :
    t ≠ p := by
  rintro rfl
  have := (hh.stands.tmp t ht).2
  rw [hh.node] at this
  cases this

/-- Writing at the end of the open file. -/
theorem Guar.fwrite (hh : Holds mode env p ino d l h) (off : Nat) (whole : Bytes)
    {data : Bytes} (hsize : (d.length : Int) + data.length ≤ env.configuration.maxFileSize) :
    Guar mode env moves (.fwrite ino off whole) (l, h)
      (l.tick, h.withFs (h.fs.writeAt ino d.length data)) ∧
    Holds mode env p ino (d ++ data) l.tick (h.withFs (h.fs.writeAt ino d.length data)) ∧
    ∀ q, q ≠ p → (h.fs.writeAt ino d.length data).node q = h.fs.node q := by
  -- the inode has no other name, so the write is seen nowhere else
  have hother : ∀ q, q ≠ p → (h.fs.writeAt ino d.length data).node q = h.fs.node q :=
    fun q hq => FileSystem.writeAt_node_of_ne fun e he => hq (hh.sole q e he)
  have hself : (h.fs.writeAt ino d.length data).node p = some (.file ino (d ++ data)) := by
    rw [FileSystem.writeAt_node, hh.node]
    simp [FileSystem.patch_length]
  have hino : ∀ q i e, (h.fs.writeAt ino d.length data).node q = some (.file i e) →
      ∃ e', h.fs.node q = some (.file i e') := by
    intro q i e hq
    by_cases hqp : q = p
    · rw [hqp, hself] at hq
      cases hq
      exact ⟨d, hqp ▸ hh.node⟩
    · exact ⟨e, by rw [← hother q hqp]; exact hq⟩
  have hdir : ∀ q, h.fs.node q = some .dir →
      (h.fs.writeAt ino d.length data).node q = some .dir := by
    intro q hq
    by_cases hqp : q = p
    · rw [hqp, hh.node] at hq; cases hq
    · rw [hother q hqp]; exact hq
  have hguar : Guar mode env moves (.fwrite ino off whole) (l, h)
      (l.tick, h.withFs (h.fs.writeAt ino d.length data)) := by
    refine Guar.owned hh.stands rfl rfl (fun _ h0 => h0) (fun q hq => ⟨hq, rfl⟩) (fun q => ?_)
      (fun t ht => hdir t (hh.stands.tmp t ht).2) (fun hst e he => ?_)
      (fun q i e hq => .inl (hino q i e hq)) (fun q i e hq => ?_)
      (fun q ho hn => absurd ho hn) nofun
    · by_cases hqp : q = p
      · exact .inr (hqp ▸ hh.owns)
      · exact .inl (hother q hqp)
    · by_cases hep : e = p
      · rw [Host.withFs_fs, hep, hself]; rfl
      · rw [Host.withFs_fs, hother e hep]; exact (hh.stands.dests hst e he).2
    · by_cases hqp : q = p
      · rw [Host.withFs_fs, hqp, hself] at hq
        cases hq
        exact .inl (by rw [List.length_append]; push_cast; exact hsize)
      · exact .inr ⟨q, by rw [← hother q hqp]; exact hq⟩
  refine ⟨hguar, ⟨hguar.stands, hh.owns, hself, fun q e hq => ?_⟩, hother⟩
  obtain ⟨e', he'⟩ := hino q ino e hq
  exact hh.sole q e' he'

/-- Removing the open file after a failure. -/
theorem removeFile_failed (hh : Holds mode env p ino d l h) {s : Bytes} {r : Path}
    (hn : Names s r) (hp : p = h.cwd ++ r) :
    (do let _ ← removeFile s; return Status.failure : Proc Status).Sat respond
      (uploading mode env moves) l h
      (fun a l' h' => a = some .failure ∧ Failed mode env l h l' h') := by
  intro h1 hr
  have hh1 := hh.rely hr
  have hcwd : h1.cwd = h.cwd := hr.cwd
  have hp1 : p = h1.cwd ++ r := by rw [hcwd]; exact hp
  -- a call that fails leaves the file behind, which stays the session's own
  have hsilent : ∀ l1 : Session, l1.tmp = l.tmp → l1.dests = l.dests →
      (∀ q, l1.held = some q → l.held = some q) →
      Guar mode env moves (.remove s) (l, h1) (l1, h1) := fun l1 ht hd hheld =>
    Guar.silent hh1.stands ht hd (fun q hq => .inl ⟨hheld q hq, rfl⟩) nofun
  have hstay : ∀ l1 : Session, l1.tmp = l.tmp → l1.dests = l.dests → Failed mode env l h l1 h1 :=
    fun l1 ht hd => ⟨hcwd, hh1.stands.congr ht hd, ht, fun e he => hd ▸ he⟩
  cases hfault : l.fault with
  | true =>
    rw [respond_of_fault hfault rfl]
    exact ⟨hsilent _ rfl rfl nofun, rfl, hstay _ rfl rfl⟩
  | false =>
    rcases respond_remove_cases hfault with ⟨q, fs', hres, hrem, hresp⟩ | hresp
    · rw [hresp]
      rw [hn.resolve, ← hp1] at hres
      split at hres
      · cases hres
        obtain ⟨-, -, -, hnode⟩ := FileSystem.removeAt_eq_some hrem
        have hfile : ∀ q i e, fs'.node q = some (.file i e) → h1.fs.node q = some (.file i e) := by
          intro q i e hq
          rw [hnode] at hq
          split at hq
          · cases hq
          · exact hq
        have hkeep : ∀ q, q ≠ p → fs'.node q = h1.fs.node q := fun q hq => by
          rw [hnode, if_neg hq]
        -- the file is no longer among the results
        have hsub : ∀ e ∈ (l.tick.removed p).dests, e ∈ l.dests ∧ e ≠ p := fun e he => by
          exact Session.mem_removed_dests _ |>.mp he
        have hguar : Guar mode env moves (.remove s) (l, h1)
            (l.tick.removed p, h1.withFs fs') := by
          refine Guar.owned hh1.stands rfl rfl (fun e he => (hsub e he).1)
            (fun q hq => ⟨hq, rfl⟩) (fun q => ?_) (fun t ht => ?_) (fun hst e he => ?_)
            (fun q i e hq => .inl ⟨e, hfile q i e hq⟩)
            (fun q i e hq => .inr ⟨q, hfile q i e hq⟩) (fun q ho hno => ?_) nofun
          · by_cases hqp : q = p
            · exact .inr (hqp ▸ hh1.owns)
            · exact .inl (hkeep q hqp)
          · rw [Host.withFs_fs, hkeep t (hh1.ne_tmp ht)]
            exact (hh1.stands.tmp t ht).2
          · obtain ⟨hmem, hne⟩ := hsub e he
            rw [Host.withFs_fs, hkeep e hne]
            exact (hh1.stands.dests hst e hmem).2
          · -- only what lay at the file itself is no longer owned
            have hpq : p <+: q := by
              rcases ho with ho | ⟨hst, e, he, heq⟩
              · exact absurd (.inl ho) hno
              · by_cases hep : e = p
                · exact hep ▸ heq
                · refine absurd (.inr ⟨hst, e, ?_, heq⟩) hno
                  exact Session.mem_removed_dests _ |>.mpr ⟨he, hep⟩
            refine fs'.node_of_prefix_none ?_ hpq
            rw [hnode, if_pos rfl]
        exact ⟨hguar, rfl, hcwd, hguar.stands, rfl, fun e he => (hsub e he).1⟩
      · cases hres
    · rw [hresp]
      exact ⟨hsilent _ rfl rfl fun q hq => hq, rfl, hstay _ rfl rfl⟩

/-! ### The content of a file -/

/-- What the end of the loop of `_save_file_common` has done. -/
def Appended (mode : Mode) (env : Env) (p : Path) (ino : Nat) (d : Bytes) (n : Nat) (l : Session)
    (h : Host) (l' : Session) (h' : Host) : Prop :=
  l.Consumed n l' ∧ h'.cwd = h.cwd ∧ Holds mode env p ino (d ++ l.input.take n) l' h' ∧
    ∀ q, l.Owns mode q → q ≠ p → h'.fs.node q = h.fs.node q

/-- There is nothing left to read. -/
theorem Appended.done (hh : Holds mode env p ino d l h) : Appended mode env p ino d 0 l h l h := by
  refine ⟨⟨Nat.zero_le _, rfl, rfl, rfl, rfl, rfl, rfl⟩, rfl, ?_, fun _ _ _ => rfl⟩
  rw [List.take_zero, List.append_nil]
  exact hh

/-- One buffer has been appended, and then the loop has gone on. -/
theorem Appended.cons {k n : Nat} {l1 : Session} {h1 : Host} (hkn : k ≤ n)
    (hone : Appended mode env p ino d k l h l1 h1)
    (hrest : Appended mode env p ino (d ++ l.input.take k) (n - k) l1 h1 l' h') :
    Appended mode env p ino d n l h l' h' := by
  obtain ⟨hc1, hcwd1, -, hsame1⟩ := hone
  obtain ⟨hc2, hcwd2, hh2, hsame2⟩ := hrest
  refine ⟨?_, hcwd2.trans hcwd1, ?_, fun q hq hqp => ?_⟩
  · have := hc1.trans hc2
    rwa [Nat.add_sub_cancel' hkn] at this
  · have hsplit : l.input.take n = l.input.take k ++ (l.input.drop k).take (n - k) := by
      rw [← List.take_add, Nat.add_sub_cancel' hkn]
    rw [hsplit, ← List.append_assoc, ← hc1.input]
    exact hh2
  · rw [hsame2 q ((Session.owns_congr hc1.tmp hc1.dests q).mpr hq) hqp, hsame1 q hq hqp]

/-- `fwrite` at the end of the open file appends what it takes. -/
theorem fwrite_appends (hh : Holds mode env p ino d l h) (data : Bytes)
    (hsize : (d.length : Int) + data.length ≤ env.configuration.maxFileSize) :
    (fwrite ino d.length data).Sat respond (uploading mode env moves) l h (fun a l' h' =>
      a = some (l.written data) ∧ l' = l.tick ∧ h'.cwd = h.cwd ∧
        Holds mode env p ino (d ++ data.take (l.written data)) l' h' ∧
        ∀ q, l.Owns mode q → q ≠ p → h'.fs.node q = h.fs.node q) := by
  intro h1 hr
  have hh1 := hh.rely hr
  have htake : (data.take (l.written data)).length ≤ data.length := by simp
  obtain ⟨hguar, hh2, hother⟩ := @Guar.fwrite _ _ moves _ _ _ _ _ hh1 d.length data
    (data.take (l.written data)) (by omega)
  rw [respond_of_failed_none rfl]
  refine ⟨hguar, rfl, rfl, hr.cwd, hh2, fun q hq hqp => ?_⟩
  exact (hother q hqp).trans (hr.owned q hq)

/-- **Run lemma.**  The loop of `_save_file_common` appends the bytes that are left to the open
    file, or removes it. -/
theorem saveContent_sat {s : Bytes} {r : Path} (hn : Names s r) (fuel : Nat) {n : Nat}
    (hh : Holds mode env p ino d l h) (hp : p = h.cwd ++ r) (hfuel : n ≤ fuel)
    (hsize : (d.length : Int) + n ≤ env.configuration.maxFileSize) :
    (saveContent s ino fuel d.length n).Sat respond (uploading mode env moves) l h
      (fun a l' h' =>
        (a = some .success ∧ Appended mode env p ino d n l h l' h') ∨
        (a = some .failure ∧ Failed mode env l h l' h' ∧
          (l.Reliable → l.input.length < n))) := by
  induction fuel generalizing l h d n with
  | zero => exact .inl ⟨rfl, Nat.le_zero.mp hfuel ▸ Appended.done hh⟩
  | succ fuel ih =>
    unfold saveContent
    by_cases h0 : n = 0
    · rw [if_pos h0]
      exact .inl ⟨rfl, h0 ▸ Appended.done hh⟩
    · rw [if_neg h0]
      dsimp only
      -- one buffer full, or what is left
      obtain ⟨hkpos, hkn⟩ := readLen_bounds h0
      obtain ⟨k, hk⟩ : ∃ k, (if n < fileBufSz then n else fileBufSz) = k := ⟨_, rfl⟩
      rw [hk] at hkpos hkn ⊢
      refine (readSock_reads hh.stands hkpos).bind (fun r l1 h1 ⟨hreads, hr⟩ => ?_)
        (fun l1 h1 ⟨_, hr⟩ => by rcases hr with ⟨_, _, hr, _⟩ | ⟨hr, _⟩ <;> cases hr)
      have hh1 := (hh.rely hreads.rely).congr hreads.tmp hreads.dests
      have hcwd1 : h1.cwd = h.cwd := hreads.rely.cwd
      rcases hr with ⟨data, rest, hr, hfield, htook⟩ | ⟨hr, hfail⟩
      · cases hr
        obtain ⟨hlen, hinput⟩ := field_eq_some.mp hfield
        have htake : data = l.input.take k := by rw [hinput, ← hlen, List.take_left]
        have hdrop : rest = l.input.drop k := by rw [hinput, ← hlen, List.drop_left]
        refine (fwrite_appends hh1 data (by omega)).bind
          (fun w l2 h2 ⟨hw, hl2, hcwd2, hh2, hsame2⟩ => ?_) (fun l2 h2 ⟨hw, _⟩ => by cases hw)
        cases hw
        subst hl2
        have hcwd : h2.cwd = h.cwd := hcwd2.trans hcwd1
        by_cases hshort : l1.written data < k
        · -- a short write
          rw [if_pos hshort]
          refine (removeFile_failed hh2 hn (by rw [hp, hcwd])).mono fun a l' h' ⟨ha, hf⟩ =>
            .inr ⟨ha, hf.after hcwd htook.tmp htook.dests, fun hl => ?_⟩
          have hfull : l1.written data = data.length := by
            rw [Session.written, (hl.took htook).roomy]
          omega
        · rw [if_neg hshort]
          have hfull : data.take (l1.written data) = data := List.take_of_length_le (by omega)
          rw [hfull] at hh2
          have hlen' : (d ++ data).length = d.length + k := by rw [List.length_append, hlen]
          have hone : Appended mode env p ino d k l h l1.tick h2 := by
            refine ⟨⟨?_, htook.input.trans hdrop, htook.output, htook.closed, htook.oracle,
              htook.tmp, htook.dests⟩, hcwd, htake ▸ hh2, fun q hq hqp => ?_⟩
            · rw [hinput, List.length_append]
              omega
            · rw [hsame2 q ((Session.owns_congr htook.tmp htook.dests q).mpr hq) hqp,
                hreads.rely.owned q hq]
          have hrest := ih (n := n - k) hh2 (by rw [hp, hcwd]) (by omega) (by rw [hlen']; omega)
          rw [hlen'] at hrest
          refine hrest.mono fun a l' h' hpost => ?_
          rcases hpost with ⟨ha, happ⟩ | ⟨ha, hf, hrel⟩
          · exact .inl ⟨ha, hone.cons hkn (htake ▸ happ)⟩
          · refine .inr ⟨ha, hf.after hcwd htook.tmp htook.dests, fun hl => ?_⟩
            have hmissing := hrel ((hl.took htook).of_eq rfl rfl)
            rw [hone.1.input, List.length_drop] at hmissing
            omega
      · -- the client does not send them
        cases hr
        refine (removeFile_failed hh1 hn (by rw [hp, hcwd1])).mono fun a l' h' ⟨ha, hf⟩ =>
          .inr ⟨ha, hf.after hcwd1 hreads.tmp hreads.dests, fun hl => ?_⟩
        have hnone := hfail hl
        unfold field at hnone
        split at hnone
        · cases hnone
        · omega

/-! ### Creating a file -/

variable {x : Name} {T : Tree}

/-- The step that creates a new file. -/
theorem Guar.create (hin : Inside mode env x T l h) {s : Bytes} {cs : Path} {fs : FileSystem}
    (habsent : h.fs.node (h.cwd ++ x :: cs) = none) (hsize : 0 ≤ env.configuration.maxFileSize)
    (hnode : ∀ q, fs.node q = if q = h.cwd ++ x :: cs then some (.file h.fs.nextIno [])
      else h.fs.node q) :
    Guar mode env moves (.openWrite s) (l, h) (l.tick.opened (h.cwd ++ x :: cs), h.withFs fs) := by
  have hkeep : ∀ q, (h.fs.node q).isSome → fs.node q = h.fs.node q := by
    intro q hq
    rw [hnode, if_neg]
    rintro rfl
    rw [habsent] at hq
    cases hq
  -- a file of the new tree is an old one, or the new one, which is empty
  have hfile : ∀ q ino d, fs.node q = some (.file ino d) →
      h.fs.node q = some (.file ino d) ∨ (ino = h.fs.nextIno ∧ d = []) := by
    intro q ino d hq
    rw [hnode] at hq
    split at hq
    · cases hq
      exact .inr ⟨rfl, rfl⟩
    · exact .inl hq
  have hdests : (l.tick.opened (h.cwd ++ x :: cs)).dests = l.dests := by
    exact Session.opened_dests_of_some hin.tmp _
  refine Guar.owned hin.stands rfl rfl (fun d hd => hdests ▸ hd) (fun q hq => by cases hq)
    (fun p => ?_) (fun t ht => ?_) (fun hst d hd => ?_) (fun p ino d hp => ?_)
    (fun p ino d hp => ?_) (fun p ho hn => ?_) nofun
  · by_cases hp : p = h.cwd ++ x :: cs
    · exact .inr (hp ▸ hin.owns cs)
    · exact .inl (by rw [Host.withFs_fs, hnode, if_neg hp])
  · have hdir := (hin.stands.tmp t ht).2
    rw [Host.withFs_fs, hkeep t (by rw [hdir]; rfl)]
    exact hdir
  · have hd := (hin.stands.dests hst d (hdests ▸ hd)).2
    rw [Host.withFs_fs, hkeep d hd]
    exact hd
  · rcases hfile p ino d hp with h1 | ⟨h1, -⟩
    · exact .inl ⟨d, h1⟩
    · exact .inr h1.ge
  · rcases hfile p ino d hp with h1 | ⟨-, rfl⟩
    · exact .inr ⟨p, h1⟩
    · exact .inl hsize
  · exact hn.elim ((Session.owns_congr (l := l) (by rfl) hdests p).mpr ho)

/-- `open_file` for a new file in a directory of the own tree. -/
theorem openWrite_inside (hin : Inside mode env x T l h) {s : Bytes} {ks : List Name} {ds : Path}
    {n : Name} (hn : Names s (x :: (ds ++ [n]))) (hks : components s = ks ++ [n])
    (hds : T ds = some .dir) (hnone : T (ds ++ [n]) = none)
    (hsize : 0 ≤ env.configuration.maxFileSize) :
    (openWrite s).Sat respond (uploading mode env moves) l h (fun a l' h' =>
      l.Alike l' ∧
        ((∃ ino, a = some (some ino) ∧
            Holds mode env (h'.cwd ++ x :: (ds ++ [n])) ino [] l' h' ∧
            Inside mode env x (Function.update T (ds ++ [n]) (some (.file []))) l' h') ∨
          (a = some none ∧ Inside mode env x T l' h' ∧ ¬ l.Reliable))) := by
  intro h' hr
  have hin' := hin.rely hr
  have hfail : Guar mode env moves (.openWrite s) (l, h') (l.tick.release, h') :=
    Guar.silent hin'.stands rfl rfl nofun nofun
  have halike : l.Alike l.tick.release := ⟨rfl, rfl, rfl, rfl, rfl, rfl⟩
  cases hfault : l.fault with
  | true =>
    rw [respond_of_fault hfault rfl]
    exact ⟨hfail, halike, .inr ⟨rfl, hin'.congr rfl rfl, fun hl => by
      rw [hl.fault] at hfault; cases hfault⟩⟩
  | false =>
    have hplain : plain ks = x :: ds := hn.plain_init hks
    have hnew := Names.resolveNew (h := h') hn hks hplain ((hin'.dir_iff).mpr hds)
    have hloc : h'.cwd ++ x :: ds ++ [n] = h'.cwd ++ x :: (ds ++ [n]) := by simp
    have hsep : s.getLast? ≠ some sep := Names.getLast_ne (p := x :: ds) hn hks
    have habsent : h'.fs.node (h'.cwd ++ x :: (ds ++ [n])) = none := (hin'.none_iff _).mpr hnone
    -- nothing is in the way, and the directory is there
    obtain ⟨fs, hof, hnode⟩ :=
      openWriteOf_new hsep hnew ((hin'.dir_iff).mpr hds) (hloc ▸ habsent)
    rw [hloc] at hof hnode
    have hguar : Guar mode env moves (.openWrite s) (l, h')
        (l.tick.opened (h'.cwd ++ x :: (ds ++ [n])), h'.withFs fs) :=
      Guar.create hin' habsent hsize hnode
    have hdests : (l.tick.opened (h'.cwd ++ x :: (ds ++ [n]))).dests = l.dests := by
      exact Session.opened_dests_of_some hin'.tmp _
    rw [respond_openWrite hfault hof]
    have hself : fs.node (h'.cwd ++ x :: (ds ++ [n])) = some (.file h'.fs.nextIno []) := by
      rw [hnode, if_pos rfl]
    refine ⟨hguar, ⟨rfl, rfl, rfl, rfl, rfl, hdests⟩, .inl ⟨h'.fs.nextIno, rfl,
      ⟨hguar.stands, Session.owns_tmp hin'.tmp ⟨ds ++ [n], by simp⟩, hself,
        fun _ _ hq => FileSystem.eq_of_newest hnode hq⟩,
      ⟨hguar.stands, hin'.tmp, ?_⟩⟩⟩
    -- the tree has the empty file as its only new entry
    exact hin'.tree_update hself fun p _ hp => by rw [hnode, if_neg hp]

/-! ### One file or directory -/

/-- The working directory is still the same one. -/
theorem Inside.cwd_eq {T' : Tree} (hin : Inside mode env x T l h)
    (hin' : Inside mode env x T' l' h') (ht : l'.tmp = l.tmp) : h'.cwd = h.cwd := by
  have htmp := hin'.tmp
  rw [ht, hin.tmp, Option.some.injEq] at htmp
  exact (List.append_cancel_right htmp).symm

/-- A failure that leaves the own directory known. -/
theorem Inside.failed {T' : Tree} (hin : Inside mode env x T l h)
    (hin' : Inside mode env x T' l' h') (ht : l'.tmp = l.tmp) (hd : l'.dests = l.dests) :
    Failed mode env l h l' h' :=
  ⟨hin.cwd_eq hin' ht, hin'.stands, ht, fun _ hmem => hd ▸ hmem⟩

theorem Reads.inside {l1 : Session} {h1 : Host} (hr : Reads mode l h l1 h1)
    (hin : Inside mode env x T l h) : Inside mode env x T l1 h1 :=
  (hin.rely hr.rely).congr hr.tmp hr.dests

/-- A file whose contents have been written is part of the tree. -/
theorem Appended.inside {cs : Path} {n : Nat}
    (hin : Inside mode env x (Function.update T cs (some (.file []))) l h)
    (ha : Appended mode env (h.cwd ++ x :: cs) ino d n l h l' h') :
    Inside mode env x (Function.update T cs (some (.file (d ++ l.input.take n)))) l' h' := by
  obtain ⟨hc, hcwd, hh, hsame⟩ := ha
  refine ⟨hh.stands, by rw [hc.tmp, hcwd]; exact hin.tmp, ?_⟩
  have htree := hin.tree_update hh.node fun p hp hne => hsame p (Session.owns_tmp hin.tmp hp) hne
  rw [hcwd, htree]
  exact Function.update_idem ..

/-- A path string in the own directory whose last component is a proper name. -/
theorem Names.of_components (hx : Proper x) {s : Bytes} {ks : List Name} {n : Name}
    (hs : components s = dot :: x :: (ks ++ [n])) (hn : Proper n) (hup : dotdot ∉ ks) :
    Names s (x :: (plain ks ++ [n])) := by
  have hthrough := Names.through hx hs (hn.dotdot_not_mem_concat hup)
  rwa [hn.plain_concat] at hthrough

/-- What is saved at a free name of an existing directory is an update of the tree. -/
theorem Inside.graft_eq (hin : Inside mode env x T l h) {ds : Path} (hds : T ds = some .dir)
    (n : Name) (e : Entry) :
    T.graft (ds ++ [n]) e = Function.update T (ds ++ [n]) (some e) :=
  Tree.graft_concat (Tree.dirs_of_above fun _ hq => hin.dirs_above hds hq) n e

section save

variable {s : Bytes} {ks : List Name} {n : Name}

/-- `_save_file_common` for a directory. -/
theorem saveDirectory_inside (hin : Inside mode env x T l h) (hx : Proper x)
    (hs : components s = dot :: x :: (ks ++ [n])) (hn : Proper n) (hup : dotdot ∉ ks)
    (hds : T (plain ks) = some .dir) (hnone : T (plain ks ++ [n]) = none) :
    (mkdirs s).Sat respond (uploading mode env moves) l h (fun a l' h' =>
      l.Alike l' ∧
        ((a = some .success ∧ Inside mode env x (T.graft (plain ks ++ [n]) .dir) l' h') ∨
          (a = some .failure ∧ (∃ T', Inside mode env x T' l' h') ∧
            ¬ (l.Reliable ∧ s.length ≤ maxFileNameLen)))) := by
  have habove : ∀ q, q <+: plain ks → T q = some .dir := fun _ hq => hin.dirs_above hds hq
  have hdirs : T.dirs (plain ks) = T := Tree.dirs_of_above habove
  refine (mkdirs_inside hin hx hs (hn.dotdot_not_mem_concat hup)).mono
    fun a l' h' ⟨T', hin', ha, hr⟩ => ⟨ha, ?_⟩
  rw [hn.plain_concat] at hr
  rcases hr with ⟨rfl, rfl, -⟩ | ⟨rfl, hrel⟩
  · rw [Tree.dirs_concat, hdirs, ← hin.graft_eq hds] at hin'
    exact .inl ⟨rfl, hin'⟩
  · refine .inr ⟨rfl, ⟨T', hin'⟩, fun ⟨hl, hlen⟩ => hrel hl hlen ?_⟩
    refine Tree.Way.of_dirs (fun q hq => .inr (habove q hq)) (.inl ?_)
    rw [hdirs]
    exact hnone

/-- `_save_file_common` for a file of `size` bytes. -/
theorem saveRegular_inside (hin : Inside mode env x T l h) (hx : Proper x)
    (hs : components s = dot :: x :: (ks ++ [n])) (hn : Proper n) (hup : dotdot ∉ ks)
    (hds : T (plain ks) = some .dir) (hnone : T (plain ks ++ [n]) = none) {size : Nat}
    (hsize : (size : Int) ≤ env.configuration.maxFileSize) :
    (do
      match ← openWrite s with
      | none => do
          error (ascii "Couldn't create some files")
          return .failure
      | some file => saveContent s file size 0 size : Proc Status).Sat respond
      (uploading mode env moves) l h
      (fun a l' h' =>
        (a = some .success ∧ size ≤ l.input.length ∧ l.Took (l.input.drop size) l' ∧
            Inside mode env x (T.graft (plain ks ++ [n]) (.file (l.input.take size))) l' h') ∨
          (a = some .failure ∧ Failed mode env l h l' h' ∧
            (l.Reliable → l.input.length < size))) := by
  have hnames := Names.of_components hx hs hn hup
  have hks : components s = (dot :: x :: ks) ++ [n] := by rw [hs]; simp
  refine (openWrite_inside hin hnames hks hds hnone (by omega)).bind
    (fun f l1 h1 ⟨ha1, hr⟩ => ?_)
    (fun l1 h1 ⟨_, hr⟩ => by rcases hr with ⟨_, hr, _⟩ | ⟨hr, _⟩ <;> cases hr)
  rcases hr with ⟨ino, hf, hh, hin1⟩ | ⟨hf, hin1, hrel⟩
  · cases hf
    have hcwd : h1.cwd = h.cwd := hin.cwd_eq hin1 ha1.tmp
    refine (saveContent_sat hnames size hh rfl le_rfl ?_).mono fun a l' h' hpost => ?_
    · simpa using hsize
    · rcases hpost with ⟨rfl, happ⟩ | ⟨rfl, hf, hrel⟩
      · have henough := happ.1.enough
        have htook := happ.1.took
        have hin2 := happ.inside hin1
        rw [ha1.input] at henough htook
        rw [ha1.input, List.nil_append, ← hin.graft_eq hds] at hin2
        exact .inl ⟨rfl, henough, ha1.took.trans htook, hin2⟩
      · refine .inr ⟨rfl, hf.after hcwd ha1.tmp ha1.dests, fun hl => ?_⟩
        rw [← ha1.input]
        exact hrel (hl.alike ha1)
  · cases hf
    refine sat_silent rfl hin1.stands fun h2 hr2 => ?_
    rw [respond_error]
    have hin2 : Inside mode env x _ { l1.tick with
        log := l1.log ++ [ascii "Couldn't create some files"] } h2 :=
      (hin1.rely hr2).congr rfl rfl
    exact .inr ⟨rfl, hin.failed hin2 ha1.tmp ha1.dests, fun hl => absurd hl hrel⟩

/-- **`_save_file_common`** at a free name of an existing directory: the entry that the client
    sends is there afterwards. -/
theorem saveFileCommon_inside (hin : Inside mode env x T l h) (hx : Proper x) {version : Nat}
    (hs : components s = dot :: x :: (ks ++ [n])) (hn : Proper n) (hup : dotdot ∉ ks)
    (hds : T (plain ks) = some .dir) (hnone : T (plain ks ++ [n]) = none) :
    (saveFileCommon env version s).Sat respond (uploading mode env moves) l h (fun a l' h' =>
      (a = some .success ∧ ∃ e rest, contentOf env version l.input = some (e, rest) ∧
          l.Took rest l' ∧ Inside mode env x (T.graft (plain ks ++ [n]) e) l' h') ∨
        (a = some .failure ∧ Failed mode env l h l' h' ∧
          (l.Reliable → s.length ≤ maxFileNameLen → contentOf env version l.input = none))) := by
  refine (readSize_reads hin.stands).bind (fun a l1 h1 ⟨hreads, hr⟩ => ?_)
    (fun l1 h1 ⟨_, hr⟩ => by rcases hr with ⟨_, _, hr, _⟩ | ⟨hr, _⟩ <;> cases hr)
  have hin1 := hreads.inside hin
  rcases hr with ⟨size, rest, ha, hfield, ht⟩ | ⟨ha, hfail⟩
  · cases ha
    have hcontent : contentOf env version l.input = bodyOf env version size rest :=
      contentOf_eq hfield
    rw [hcontent]
    -- a failure at this point, for a reason that the client's bytes show
    have hreject : bodyOf env version size rest = none →
        ((some Status.failure = some .success ∧ ∃ e rest',
            bodyOf env version size rest = some (e, rest') ∧ l.Took rest' l1 ∧
              Inside mode env x (T.graft (plain ks ++ [n]) e) l1 h1) ∨
          (some Status.failure = some .failure ∧ Failed mode env l h l1 h1 ∧
            (l.Reliable → s.length ≤ maxFileNameLen → bodyOf env version size rest = none))) :=
      fun h0 => .inr ⟨rfl, hin.failed hin1 hreads.tmp hreads.dests, fun _ _ => h0⟩
    dsimp only
    by_cases hmax : size > env.configuration.maxFileSize
    · rw [if_pos hmax]
      exact hreject (if_pos hmax)
    rw [if_neg hmax]
    by_cases hdir : size = -1 ∧ version ≥ 3
    · rw [if_pos hdir]
      have hbody : bodyOf env version size rest = some (.dir, rest) := bodyOf_dir hmax hdir
      refine (saveDirectory_inside hin1 hx hs hn hup hds hnone).mono
        fun a l' h' ⟨ha, hr⟩ => ?_
      rcases hr with ⟨rfl, hin'⟩ | ⟨rfl, ⟨T', hin'⟩, hrel⟩
      · exact .inl ⟨rfl, .dir, rest, hbody, ht.trans (ht.input ▸ ha.took), hin'⟩
      · exact .inr ⟨rfl, hin.failed hin' (ha.tmp.trans ht.tmp) (ha.dests.trans ht.dests),
          fun hl hlen => absurd ⟨hl.took ht, hlen⟩ hrel⟩
    rw [if_neg hdir]
    by_cases hneg : size < 0
    · rw [if_pos hneg]
      exact hreject (bodyOf_negative hmax hdir hneg)
    · rw [if_neg hneg]
      have hcwd1 : h1.cwd = h.cwd := hreads.rely.cwd
      refine (saveRegular_inside hin1 hx hs hn hup hds hnone (by omega)).mono fun a l' h' hr => ?_
      rw [ht.input] at hr
      rcases hr with ⟨rfl, henough, htook, hin'⟩ | ⟨rfl, hf, hrel⟩
      · exact .inl ⟨rfl, _, _, bodyOf_file hmax hdir hneg henough, ht.trans htook, hin'⟩
      · exact .inr ⟨rfl, hf.after hcwd1 ht.tmp ht.dests, fun hl _ =>
          bodyOf_short hmax hdir hneg (hrel (hl.took ht))⟩
  · cases ha
    exact .inr ⟨rfl, hin.failed hin1 hreads.tmp hreads.dests,
      fun hl _ => contentOf_eq_none (hfail hl)⟩

end save

/-! ### One frame of the client -/

/-- The parent of a directory is there. -/
theorem fileExists_up (hin : Inside mode env x T l h) {s : Bytes} {ds : Path}
    (hn : Names s (x :: ds)) (hds : T ds = some .dir) :
    (fileExists (s ++ sep :: dotdot)).Sat respond (uploading mode env moves) l h (fun a l' h' =>
      a = some true ∧ Inside mode env x T l' h' ∧ l.Alike l') := by
  unfold fileExists
  rw [if_neg (by simp)]
  intro h' hr
  have hin' := hin.rely hr
  rw [respond_access, if_pos (hn.resolve_up ((hin'.dir_iff).mpr hds))]
  exact ⟨Guar.silent hin'.stands rfl rfl (fun q hq => .inl ⟨hq, rfl⟩) nofun, rfl,
    hin'.congr rfl rfl, ⟨rfl, rfl, rfl, rfl, rfl, rfl⟩⟩

/-- `_make_directories`: all directories above a path. -/
theorem makeDirectories_inside (hin : Inside mode env x T l h) (hx : Proper x) {parent : Bytes}
    {t : Name} {ks : List Name} (ht : sep ∉ t) (hp : components parent = dot :: x :: ks)
    (hup : dotdot ∉ ks) :
    (makeDirectories (parent ++ sep :: t)).Sat respond (uploading mode env moves) l h
      (fun a l' h' => ∃ T', Inside mode env x T' l' h' ∧ l.Alike l' ∧
        ((a = some .success ∧ T' = T.dirs (plain ks) ∧ T.Way (plain ks)) ∨
          (a = some .failure ∧
            (l.Reliable → parent.length ≤ maxFileNameLen → ¬ T.Way (plain ks))))) := by
  unfold makeDirectories
  rw [beforeLast_append parent t ht]
  exact mkdirs_inside hin hx hp hup

/-- The path of an upload, cut at its last separator. -/
theorem upload_parent (hx : Proper x) {u : Bytes} {ks : List Name} {t : Name}
    (hu : components u = ks ++ [t]) : ∃ parent, dot ++ sep :: (x ++ sep :: u) = parent ++ sep :: t ∧
      sep ∉ t ∧ components parent = dot :: x :: ks := by
  have hdot : sep ∉ dot := by decide
  have hcs : ∀ c ∈ dot :: x :: ks, sep ∉ c := by
    intro c hc
    rcases List.mem_cons.mp hc with rfl | hc
    · exact hdot
    rcases List.mem_cons.mp hc with rfl | hc
    · exact hx.sep
    · exact sep_not_mem_of_mem_components (s := u) (by rw [hu]; simp [hc])
  refine ⟨joined (dot :: x :: ks), ?_, ?_, components_joined hcs (List.cons_ne_nil _ _)⟩
  · have hcomp : components (dot ++ sep :: (x ++ sep :: u)) = dot :: (x :: ks) ++ [t] := by
      rw [components_append_sep, components_append_sep, components_of_not_mem hdot,
        components_of_not_mem hx.sep, hu]
      simp
    rw [← joined_concat, ← hcomp, joined_components]
  · exact sep_not_mem_of_mem_components (s := u) (by rw [hu]; simp)

/-- The test whether the last component of a path is free, when its directory is there.  What is not
    a proper name is never free. -/
theorem fileExists_target (hin : Inside mode env x T l h) (hx : Proper x) {parent : Bytes}
    {ks : List Name} {t : Name} (ht : sep ∉ t) (hp : components parent = dot :: x :: ks)
    (hup : dotdot ∉ ks) (hds : T (plain ks) = some .dir) :
    (fileExists (parent ++ sep :: t)).Sat respond (uploading mode env moves) l h (fun a l' h' =>
      Inside mode env x T l' h' ∧ l.Alike l' ∧
        ((a = some true ∧ (¬ Proper t ∨ T (plain ks ++ [t]) ≠ none)) ∨
          (a = some false ∧ Proper t ∧ T (plain ks ++ [t]) = none))) := by
  have hnparent : Names parent (x :: plain ks) := .through hx hp hup
  by_cases htup : t = dotdot
  · -- the path ends in `..`
    rw [htup]
    refine (fileExists_up hin hnparent hds).mono fun a l' h' ⟨ha, hin', halike⟩ =>
      ⟨hin', halike, .inl ⟨ha, .inl fun hproper => hproper.up rfl⟩⟩
  · have hsnoc := hnparent.snoc ht htup
    by_cases hstay : stays t = true
    · -- the path ends in a separator or a dot
      have hn : Names (parent ++ sep :: t) (x :: plain ks) := by
        have hn := hsnoc.2
        rwa [plain_cons, if_pos hstay, plain_nil, List.append_nil] at hn
      refine (fileExists_inside hin hn).mono fun a l' h' ⟨hin', halike, b, ha, hiff⟩ =>
        ⟨hin', halike, .inl ⟨?_, .inl fun hproper => ?_⟩⟩
      · rw [ha, hiff.mpr ⟨by rw [hds]; rfl, fun _ => hds⟩]
      · rw [hproper.stays] at hstay
        cases hstay
    · -- the path ends in a proper name
      have hproper : Proper t := .of_stays ht (eq_false_of_ne_true hstay) htup
      have hn : Names (parent ++ sep :: t) (x :: (plain ks ++ [t])) := by
        have hn := hsnoc.2
        rwa [hproper.plain, plain_nil] at hn
      have hend : endsInDir (components (parent ++ sep :: t)) = false :=
        @Names.endsInDir _ (x :: plain ks) (components parent) _ hn hsnoc.1
      refine (fileExists_inside hin hn).mono fun a l' h' ⟨hin', halike, b, ha, hiff⟩ =>
        ⟨hin', halike, ?_⟩
      rw [hend] at hiff
      cases b with
      | true => exact .inl ⟨ha, .inr (Option.ne_none_iff_isSome.mpr (hiff.mp rfl).1)⟩
      | false =>
        refine .inr ⟨ha, hproper, ?_⟩
        by_contra hne
        have htrue := hiff.mpr ⟨Option.ne_none_iff_isSome.mp hne, nofun⟩
        cases htrue

/-- The part of `save_file` after the path has been made: directories on the way, the test
    whether the name is free, and the content. -/
theorem saveNewFile_inside (hin : Inside mode env x T l h) (hx : Proper x) {version : Nat}
    {u : Bytes} {ks : List Name} {t : Name} (hu : components u = ks ++ [t])
    (hup : dotdot ∉ ks) {s : Bytes} (hs : s = dot ++ sep :: (x ++ sep :: u)) :
    (saveNewFile env version s).Sat respond (uploading mode env moves) l h (fun a l' h' =>
        (a = some .success ∧ Proper t ∧ T.Fits (plain ks ++ [t]) ∧
            ∃ e rest, contentOf env version l.input = some (e, rest) ∧ l.Took rest l' ∧
              Inside mode env x (T.graft (plain ks ++ [t]) e) l' h') ∨
          (a = some .failure ∧ Failed mode env l h l' h' ∧
            (l.Reliable → s.length ≤ maxFileNameLen → Proper t → T.Fits (plain ks ++ [t]) →
              contentOf env version l.input = none))) := by
  obtain ⟨parent, hparent, htsep, hcomp⟩ := upload_parent hx hu
  rw [hparent] at hs
  have hscomp : components s = dot :: x :: (ks ++ [t]) := by
    rw [hs, components_append_sep, hcomp, components_of_not_mem htsep]
    simp
  have hlen : s.length ≤ maxFileNameLen → parent.length ≤ maxFileNameLen := by
    rw [hs, List.length_append, List.length_cons]
    omega
  have hmkdirs := @makeDirectories_inside _ _ moves _ _ _ _ hin hx _ _ _ htsep hcomp hup
  rw [← hs] at hmkdirs
  refine hmkdirs.bind (fun a l1 h1 ⟨T1, hin1, ha1, hr⟩ => ?_)
    (fun l1 h1 ⟨_, _, _, hr⟩ => by rcases hr with ⟨hr, _⟩ | ⟨hr, _⟩ <;> cases hr)
  rcases hr with ⟨ha, rfl, hway⟩ | ⟨ha, hfail⟩
  · cases ha
    have hds : T.dirs (plain ks) (plain ks) = some .dir := Tree.dirs_self
    have hexists := @fileExists_target _ _ moves _ _ _ _ hin1 hx _ _ _ htsep hcomp hup hds
    rw [← hs, Tree.dirs_beyond] at hexists
    refine hexists.bind (fun b l2 h2 ⟨hin2, ha2, hb⟩ => ?_)
      (fun l2 h2 ⟨_, _, hb⟩ => by rcases hb with ⟨hb, _⟩ | ⟨hb, _⟩ <;> cases hb)
    have halike := ha1.trans ha2
    rcases hb with ⟨hb, hbad⟩ | ⟨hb, hproper, hfree⟩
    · cases hb
      -- something is there already
      refine .inr ⟨rfl, hin.failed hin2 halike.tmp halike.dests, fun _ _ hproper hfits => ?_⟩
      rcases hbad with hbad | hbad
      · exact absurd hproper hbad
      · exact absurd hfits.free hbad
    · cases hb
      have hfits : T.Fits (plain ks ++ [t]) :=
        ⟨by simp, by rw [List.dropLast_concat]; exact hway, hfree⟩
      refine (saveFileCommon_inside hin2 hx hscomp hproper hup hds
        (Tree.dirs_beyond.trans hfree)).mono fun a l' h' hpost => ?_
      rw [halike.input] at hpost
      rcases hpost with ⟨rfl, e, rest, hcontent, htook, hin'⟩ | ⟨rfl, hf, hrel⟩
      · rw [Tree.graft_dirs (List.prefix_append _ _)] at hin'
        exact .inl ⟨rfl, hproper, hfits, e, rest, hcontent, halike.took.trans htook, hin'⟩
      · exact .inr ⟨rfl, hf.after (hin.cwd_eq hin2 halike.tmp) halike.tmp halike.dests,
          fun hl hshort _ _ => hrel (hl.alike halike) hshort⟩
  · cases ha
    refine .inr ⟨rfl, hin.failed hin1 ha1.tmp ha1.dests, fun hl hshort _ hfits => ?_⟩
    have hway := hfits.way
    rw [List.dropLast_concat] at hway
    exact absurd hway (hfail hl (hlen hshort))

/-- The path of an upload that does not go up. -/
theorem badPath_not_infix (hx : Proper x) {cs : List Name} (hne : cs ≠ [])
    (hcs : ∀ c ∈ cs, Proper c ∧ (0 : UInt8) ∉ c) :
    ¬ badPath <:+: dot ++ sep :: (x ++ sep :: joined cs) := by
  intro h0
  have hdotdot : sep ∉ dotdot := by decide
  have hmem := mem_components_of_infix hdotdot h0
  have hdot : sep ∉ dot := by decide
  rw [components_append_sep, components_append_sep, components_of_not_mem hdot,
    components_of_not_mem hx.sep, components_joined (fun c hc => (hcs c hc).1.sep) hne] at hmem
  simp only [List.mem_append, List.mem_singleton] at hmem
  rcases hmem with hmem | hmem | hmem
  · exact absurd hmem (by decide)
  · exact hx.up hmem.symm
  · exact (hcs _ hmem).1.up rfl

/-- The path for a name that is made of proper names. -/
theorem uploadPath_for (hlen : x.length ≤ 8) {cs : List Name} (hne : cs ≠ []) {name u : Bytes}
    (hfor : NameFor cs name)
    (hpath : uploadPath (hereDir ++ x) name = some (dot ++ sep :: (x ++ sep :: u))) :
    u = joined cs ∧ components u = cs := by
  have hsame := hpath.symm.trans (uploadPath_joined hlen hne hfor).1
  have hu : u = joined cs := by simpa using hsame
  refine ⟨hu, ?_⟩
  rw [hu, components_joined (fun c hc => (hfor.parts c hc).1.sep) hne]

/-- The part of `save_file` after a valid name has been received. -/
theorem saveUpload_inside (hin : Inside mode env x T l h) (hx : Proper x) (hlen : x.length ≤ 8)
    {version : Nat} {name u : Bytes}
    (hpath : uploadPath (hereDir ++ x) name = some (dot ++ sep :: (x ++ sep :: u)))
    (hplain : plain (components u) = pathOf name) :
    (if badPath <:+: dot ++ sep :: (x ++ sep :: u) then return .failure
      else saveNewFile env version (dot ++ sep :: (x ++ sep :: u)) : Proc Status).Sat respond
      (uploading mode env moves) l h (fun a l' h' =>
        (a = some .success ∧ ∃ e rest, contentOf env version l.input = some (e, rest) ∧
            l.Took rest l' ∧ (∀ c ∈ pathOf name, Proper c) ∧ T.Fits (pathOf name) ∧
            Inside mode env x (T.graft (pathOf name) e) l' h') ∨
          (a = some .failure ∧ Failed mode env l h l' h' ∧
            (l.Reliable → ∀ cs e rest, contentOf env version l.input = some (e, rest) →
              NameFor cs name → ¬ T.Fits cs))) := by
  obtain ⟨ks, t, hu⟩ : ∃ ks t, components u = ks ++ [t] :=
    ⟨_, _, (List.dropLast_append_getLast (components_ne_nil u)).symm⟩
  obtain ⟨parent, hparent, -, hcomp⟩ := upload_parent hx hu
  by_cases hbad : badPath <:+: dot ++ sep :: (x ++ sep :: u)
  · rw [if_pos hbad]
    refine .inr ⟨rfl, hin.failed hin rfl rfl, fun _ cs e rest _ hfor hfits => ?_⟩
    obtain ⟨rfl, -⟩ := uploadPath_for hlen hfits.ne hfor hpath
    exact badPath_not_infix hx hfits.ne hfor.parts hbad
  · rw [if_neg hbad]
    have hup : dotdot ∉ ks := fun hmem => hbad (by
      rw [hparent]
      exact infix_of_mem_components hcomp (List.mem_cons_of_mem x hmem) t)
    refine (saveNewFile_inside hin hx hu hup rfl).mono fun a l' h' hpost => ?_
    rcases hpost with ⟨rfl, hproper, hfits, e, rest, hcontent, htook, hin'⟩ | ⟨rfl, hf, hrel⟩
    · have hname : pathOf name = plain ks ++ [t] := by
        rw [← hplain, hu, hproper.plain_concat]
      rw [hname]
      refine .inl ⟨rfl, e, rest, hcontent, htook, fun c hc => ?_, hfits, hin'⟩
      rcases List.mem_append.mp hc with hc | hc
      · obtain ⟨hmem, hstays⟩ := List.mem_filter.mp hc
        have hsep : sep ∉ c := sep_not_mem_of_mem_components (s := u) (by rw [hu]; simp [hmem])
        exact .of_stays hsep (by simpa using hstays) fun h0 => hup (h0 ▸ hmem)
      · rw [List.mem_singleton.mp hc]
        exact hproper
    · refine .inr ⟨rfl, hf, fun hl cs e rest hcontent hfor hfits => ?_⟩
      obtain ⟨rfl, hcs⟩ := uploadPath_for hlen hfits.ne hfor hpath
      obtain rfl : ks ++ [t] = cs := hu.symm.trans hcs
      have hks : plain ks = ks :=
        plain_of_proper fun c hc => (hfor.parts c (List.mem_append_left _ hc)).1
      have hshort := hfor.short
      rw [hks] at hrel
      have hnone := hrel hl (by
        simp only [List.length_append, List.length_cons, dot, List.length_nil, maxFileNameLen]
        omega) (hfor.parts t (List.mem_append_right _ (List.mem_singleton_self t))).1 hfits
      rw [hcontent] at hnone
      cases hnone

/-- **`save_file` grafts the entry of one frame into the tree of the session.**  It fails on a
    reliable session only if the frame is not well formed or there is no room for it. -/
theorem saveFile_inside (hin : Inside mode env x T l h) (hx : Proper x) (hlen : x.length ≤ 8)
    {version : Nat} :
    (saveFile env version (hereDir ++ x)).Sat respond (uploading mode env moves) l h
      (fun a l' h' =>
        (a = some .success ∧ ∃ cs e rest, frameOf env version l.input = some ((cs, e), rest) ∧
            l.Took rest l' ∧ (∀ c ∈ cs, Proper c) ∧ T.Fits cs ∧
            Inside mode env x (T.graft cs e) l' h') ∨
          (a = some .failure ∧ Failed mode env l h l' h' ∧
            (l.Reliable → ∀ cs name input e rest, nameOf l.input = some (name, input) →
              contentOf env version input = some (e, rest) → NameFor cs name → ¬ T.Fits cs))) := by
  refine (readSize_reads hin.stands).bind (fun a l1 h1 ⟨hreads, hr⟩ => ?_)
    (fun l1 h1 ⟨_, hr⟩ => by rcases hr with ⟨_, _, hr, _⟩ | ⟨hr, _⟩ <;> cases hr)
  have hin1 := hreads.inside hin
  -- a failure because there is no name
  have hnoname : ∀ {l2 : Session} {h2 : Host} {T2 : Tree} {P : Prop}, Inside mode env x T2 l2 h2 →
      l2.tmp = l.tmp → l2.dests = l.dests → (l.Reliable → nameOf l.input = none) →
      (some Status.failure = some .success ∧ P) ∨
        (some Status.failure = some .failure ∧ Failed mode env l h l2 h2 ∧
          (l.Reliable → ∀ cs name input e rest, nameOf l.input = some (name, input) →
            contentOf env version input = some (e, rest) → NameFor cs name → ¬ T.Fits cs)) := by
    intro l2 h2 T2 P hin2 htmp hdests hnone
    refine .inr ⟨rfl, hin.failed hin2 htmp hdests, fun hl cs name input e rest hname => ?_⟩
    rw [hnone hl] at hname
    cases hname
  rcases hr with ⟨size, rest1, ha, hfield, ht1⟩ | ⟨ha, hfail⟩
  · cases ha
    by_cases hsize : size ≤ 0 ∨ size > maxFileNameLen
    · dsimp only
      rw [if_pos hsize]
      exact hnoname hin1 hreads.tmp hreads.dests fun _ => by simp [nameOf, hfield, hsize]
    · dsimp only
      rw [if_neg hsize]
      have hsizes := hsize
      rw [not_or, not_le, not_lt] at hsizes
      refine (readSock_reads hin1.stands (by omega)).bind (fun b l2 h2 ⟨hreads2, hr2⟩ => ?_)
        (fun l2 h2 ⟨_, hr2⟩ => by rcases hr2 with ⟨_, _, hr2, _⟩ | ⟨hr2, _⟩ <;> cases hr2)
      have hin2 := hreads2.inside hin1
      have htmp2 := hreads2.tmp.trans hreads.tmp
      have hdests2 := hreads2.dests.trans hreads.dests
      rcases hr2 with ⟨name, rest2, hb, hfield2, ht2⟩ | ⟨hb, hfail2⟩
      · cases hb
        rw [ht1.input] at hfield2
        dsimp only
        by_cases hvalid : isValidFname name = true
        · have hname : nameOf l.input = some (name, rest2) := by
            simp [nameOf, hfield, hsize, hfield2, hvalid]
          obtain ⟨u, hpath, hplain, -⟩ := uploadPath_eq hlen name
          rw [hvalid, Bool.not_true, if_neg (by decide), hpath]
          dsimp only
          have htook := ht1.trans ht2
          refine (saveUpload_inside hin2 hx hlen hpath hplain).mono fun a l' h' hpost => ?_
          rw [htook.input] at hpost
          rcases hpost with ⟨rfl, e, rest, hcontent, ht3, hproper, hfits, hin'⟩ | ⟨rfl, hf, hrel⟩
          · refine .inl ⟨rfl, pathOf name, e, rest, ?_, htook.trans ht3, hproper, hfits, hin'⟩
            simp [frameOf, hname, hcontent]
          · refine .inr ⟨rfl, hf.after (hin.cwd_eq hin2 htmp2) htmp2 hdests2,
              fun hl cs name' input e rest hname' hcontent hfor => ?_⟩
            rw [hname] at hname'
            cases hname'
            exact hrel (hl.took htook) cs e rest hcontent hfor
        · rw [if_pos (by simpa using hvalid)]
          exact hnoname hin2 htmp2 hdests2 fun _ => by
            simp [nameOf, hfield, hsize, hfield2, hvalid]
      · cases hb
        refine hnoname hin2 htmp2 hdests2 fun hl => ?_
        have hnone := hfail2 (hl.took ht1)
        rw [ht1.input] at hnone
        simp [nameOf, hfield, hsize, hnone]
  · cases ha
    exact hnoname hin1 hreads.tmp hreads.dests fun hl => by simp [nameOf, hfail hl]

/-- **Run lemma.**  The loop of `_send_files_dirs` grafts the entries of the frames one after the
    other. -/
theorem saveFiles_inside (hin : Inside mode env x T l h) (hx : Proper x) (hlen : x.length ≤ 8)
    {version : Nat} (cnt : Nat) :
    (saveFiles env version (hereDir ++ x) cnt).Sat respond (uploading mode env moves) l h
      (fun a l' h' =>
        (a = some .success ∧ ∃ fs rest, framesOf env version cnt l.input = some (fs, rest) ∧
            l.Took rest l' ∧ (∀ f ∈ fs, ∀ c ∈ f.1, Proper c) ∧ T.FitsAll fs ∧
            Inside mode env x (T.graftAll fs) l' h') ∨
          (a = some .failure ∧ Failed mode env l h l' h' ∧
            (l.Reliable → ∀ fs rest, Carries env version fs l.input rest → fs.length = cnt →
              ¬ T.FitsAll fs))) := by
  induction cnt generalizing l h T with
  | zero =>
    exact .inl ⟨rfl, [], l.input, rfl, ⟨rfl, rfl, rfl, rfl, rfl, rfl⟩, nofun, trivial, hin⟩
  | succ cnt ih =>
    refine (saveFile_inside hin hx hlen).bind (fun a l1 h1 hr => ?_)
      (fun l1 h1 hr => by rcases hr with ⟨hr, _⟩ | ⟨hr, _⟩ <;> cases hr)
    rcases hr with ⟨ha, cs, e, rest1, hframe, ht1, hproper, hfits, hin1⟩ | ⟨ha, hf, hrel⟩
    · cases ha
      have hcwd := hin.cwd_eq hin1 ht1.tmp
      refine (ih hin1).mono fun a l' h' hpost => ?_
      rw [ht1.input] at hpost
      rcases hpost with ⟨rfl, fs, rest, hframes, ht, hpropers, hall, hin'⟩ | ⟨rfl, hf, hrel⟩
      · refine .inl ⟨rfl, (cs, e) :: fs, rest, ?_, ht1.trans ht, ?_, ⟨hfits, hall⟩, hin'⟩
        · simp [framesOf, hframe, hframes]
        · intro f hf
          rcases List.mem_cons.mp hf with rfl | hf
          · exact hproper
          · exact hpropers f hf
      · refine .inr ⟨rfl, hf.after hcwd ht1.tmp ht1.dests, fun hl fs rest hcarries hcnt hall => ?_⟩
        cases fs with
        | nil => cases hcnt
        | cons f fs =>
          -- the first of the entries that the stream carries is the one that was saved
          obtain ⟨ds, d⟩ := f
          obtain ⟨name, hfor, input1, input2, hname, hcontent, hcarries⟩ := hcarries
          have hpath := (uploadPath_joined hlen hall.1.ne hfor).2
          have heq : ((ds, d), input2) = ((cs, e), rest1) := by
            have : frameOf env version l.input = some ((ds, d), input2) := by
              simp [frameOf, hname, hcontent, hpath]
            exact Option.some.inj (this.symm.trans hframe)
          cases heq
          exact hrel (hl.took ht1) fs rest hcarries (Nat.succ.inj hcnt) hall.2
    · cases ha
      refine .inr ⟨rfl, hf, fun hl fs rest hcarries hcnt hall => ?_⟩
      cases fs with
      | nil => cases hcnt
      | cons f fs =>
        obtain ⟨ds, d⟩ := f
        obtain ⟨name, hfor, input1, input2, hname, hcontent, -⟩ := hcarries
        exact hrel hl ds name input1 d input2 hname hcontent hfor hall.1

end ClipShare
