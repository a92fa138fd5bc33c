import ClipShare.Verify.Upload

namespace ClipShare

open Interaction Posix

/-!
# One upload by itself

What the working directory looks like after an upload, whatever its client sends and however it
ends.

* `Contained` — everything that was there is untouched, and what is new lies under new names of the
  working directory;
* `upload_contained` — every upload is contained;
* `Arrived` — the entries that a client sent are in the working directory, and nothing else is new;
* `upload_settled` — what the answer of an upload says about its entries.
-/

variable {env : Env}

/-- A session that has not done anything yet, in a working directory that exists. -/
theorem Session.fresh_stands (mode : Mode) (input : Bytes) (oracle : Oracle) {h : Host}
    (hcwd : h.fs.node h.cwd = some .dir) : (Session.fresh input oracle).Stands mode env h :=
  ⟨hcwd, nofun, fun _ => nofun, fun _ => nofun⟩

/-- The run of an upload that nobody disturbs. -/
def uploadRun (env : Env) (version : Nat) (input : Bytes) (oracle : Oracle) (h : Host) :
    Option Status × Session × Host :=
  (sendFilesDirs env version).run respond (Session.fresh input oracle, h)

/-- An upload only adds to the tree. -/
theorem uploadRun_added (env : Env) (version : Nat) (input : Bytes) (oracle : Oracle) {h : Host}
    (hcwd : h.fs.node h.cwd = some .dir) :
    (uploadRun env version input oracle h).2.1.Added env h
      (uploadRun env version input oracle h).2.2 := by
  have hs := @Session.fresh_stands env .single input oracle h hcwd
  have hsat := sendFilesDirs_delivers hs rfl rfl version
  exact ((Session.Added.sat hsat fun _ => Session.Added.start hs rfl rfl).run).2 rfl

/-! ### Containment -/

/-- Everything that was there is untouched; what is new lies under names of the working directory
    that were not there and are not that of the configuration file (unless the server works
    elsewhere), and new files are not too long. -/
structure Contained (env : Env) (h h' : Host) : Prop where
  kept : ∀ p nd, h.fs.node p = some nd → h'.fs.node p = some nd
  below : ∀ p, h.fs.node p = none → h'.fs.node p ≠ none → ∃ n, h.cwd ++ [n] <+: p ∧
    h.fs.node (h.cwd ++ [n]) = none ∧ (env.configuration.workingDir = none → n ≠ configFile)
  sizes : ∀ p ino d, h.fs.node p = none → h'.fs.node p = some (.file ino d) →
    (d.length : Int) ≤ env.configuration.maxFileSize

/-- What has been added is contained. -/
theorem Session.Added.contained {l : Session} {h0 h : Host} (ha : l.Added env h0 h) :
    Contained env h0 h where
  kept p nd hp := ha.present hp
  below p h0none hp := by
    have howns : l.Owns .single p := (ha.kept p).resolve_left fun h1 => hp (h1.trans h0none)
    -- the directory or the result that it lies in
    have htop : ∃ q, TopLevel env h.cwd q ∧ q <+: p ∧ l.Owns .single q := by
      rcases howns with ⟨t, ht, hpre⟩ | ⟨-, d, hd, hpre⟩
      · exact ⟨t, (ha.stands.tmp t ht).1, hpre, Session.owns_tmp ht List.prefix_rfl⟩
      · exact ⟨d, (ha.stands.dests rfl d hd).1, hpre, Session.owns_dest rfl hd List.prefix_rfl⟩
    obtain ⟨q, ⟨n, rfl, hn⟩, hpre, hq⟩ := htop
    rw [ha.cwd] at hpre hq
    exact ⟨n, hpre, ha.fresh _ hq, hn⟩
  sizes p ino d h0none hp := by
    rcases ha.sizes p ino d hp with h1 | ⟨q, h1⟩
    · exact h1
    · have hsome := ha.inodes p q ino d d hp h1
      rw [h0none] at hsome
      cases hsome

/-- **Containment.**  Whatever the client of an upload sends, and however the upload ends, it leaves
    alone everything that was there, and adds only to the working directory. -/
theorem upload_contained (env : Env) (version : Nat) (input : Bytes) (oracle : Oracle) {h : Host}
    (hcwd : h.fs.node h.cwd = some .dir) :
    Contained env h (uploadRun env version input oracle h).2.2 :=
  (uploadRun_added env version input oracle hcwd).contained

/-- An upload of one file, `a`, with the contents `b`. -/
def letterUpload : Bytes :=
  sizeBytes 8 1 ++ sizeBytes 8 1 ++ [0x61] ++ sizeBytes 8 1 ++ [0x62]

theorem upload_contained_letter :
    Contained .default .empty (uploadRun .default 3 letterUpload .calm .empty).2.2 :=
  upload_contained .default 3 letterUpload .calm rfl

/-! ### What the answer says -/

/-- An upload of two files whose client stops after the first one. -/
def cutUpload : Bytes :=
  sizeBytes 8 2 ++ sizeBytes 8 1 ++ [0x61] ++ sizeBytes 8 1 ++ [0x62]

/-- The upload fails, and the first file stays in the temporary directory. -/
theorem failed_upload_leaves_file :
    (uploadRun .default 3 cutUpload .calm .empty).1 = some .failure ∧
      Host.empty.fs.node [ascii "0", ascii "a"] = none ∧
      (uploadRun .default 3 cutUpload .calm .empty).2.2.fs.node [ascii "0", ascii "a"]
        = some (.file 0 (ascii "b")) := by
  decide

/-- The entries of a client are in the working directory, each with all that is in it and at a new
    place of its own, and nothing else is new. -/
structure Arrived (env : Env) (T : Tree) (moved : List (Name × Path)) (h h' : Host) : Prop where
  all : ∀ n, T [n] ≠ none ↔ n ∈ moved.map Prod.fst
  nodup : (moved.map Prod.fst).Nodup
  distinct : (moved.map Prod.snd).Nodup
  top : ∀ m ∈ moved, TopLevel env h.cwd m.2
  new : ∀ m ∈ moved, h.fs.node m.2 = none
  placed : ∀ m ∈ moved, h'.fs.tree m.2 = T.below m.1
  rest : ∀ p, h'.fs.node p = h.fs.node p ∨ ∃ m ∈ moved, m.2 <+: p

/-- An upload whose directory has been removed has arrived. -/
theorem Delivered.arrived {T : Tree} {moved : List (Name × Path)} {l : Session} {h h' : Host}
    (hd : Delivered .single env T moved l h') (htmp : l.tmp = none) (ha : l.Added env h h') :
    Arrived env T moved h h' := by
  have hmem : ∀ m ∈ moved, m.2 ∈ l.dests := fun m hm => by
    rw [hd.dests]
    exact List.mem_map_of_mem hm
  refine ⟨fun n => ⟨fun hn => ?_, fun hn => ?_⟩, hd.nodup, hd.distinct rfl, fun m hm => ?_,
    fun m hm => ?_, hd.placed rfl, fun p => ?_⟩
  · rcases hd.rest with ⟨-, h0⟩ | ⟨x, hin⟩
    · exact h0 n hn
    · have htmp' := hin.tmp
      rw [htmp] at htmp'
      cases htmp'
  · obtain ⟨m, hm, rfl⟩ := List.mem_map.mp hn
    exact hd.entries m hm
  · rw [← ha.cwd]
    exact (ha.stands.dests rfl _ (hmem m hm)).1
  · exact ha.fresh _ (Session.owns_dest rfl (hmem m hm) List.prefix_rfl)
  · rcases ha.kept p with h1 | ⟨t, ht, -⟩ | ⟨-, d, hmem, hp⟩
    · exact .inl h1
    · rw [htmp] at ht
      cases ht
    · rw [hd.dests] at hmem
      obtain ⟨m, hm, rfl⟩ := List.mem_map.mp hmem
      exact .inr ⟨m, hm, hp⟩

/-- **What the answer of an upload says.**  If it is success, the temporary directory is gone unless
    a call has failed or too many names were taken; and if it is gone, and the disk has room for
    what was received, everything that the client sent is in the working directory.  If it is
    failure, nothing has changed but for the temporary directory, which is gone again unless there
    is something in it or a call has failed. -/
theorem upload_settled (env : Env) (hcut : env.configuration.cutSentFiles = 0) (version : Nat)
    (input : Bytes) (oracle : Oracle) {h : Host} (hcwd : h.fs.node h.cwd = some .dir) :
    let s := uploadRun env version input oracle h
    (s.1 = some .success →
        ((∀ k, oracle.fs k = false) → s.2.1.calls < 1000000 → s.2.1.tmp = none) ∧
        (oracle.Roomy → s.2.1.tmp = none → ∃ fs rest moved,
          uploadOf env version input = some (fs, rest) ∧
            Arrived env (Tree.build fs) moved h s.2.2)) ∧
      (s.1 = some .failure →
        (∀ p, s.2.2.fs.node p = h.fs.node p ∨ ∃ t, s.2.1.tmp = some t ∧ t <+: p) ∧
          ∀ t, s.2.1.tmp = some t → TopLevel env h.cwd t ∧ h.fs.node t = none ∧
            ((∀ k, oracle.fs k = false) → ∃ n, s.2.2.fs.node (t ++ [n]) ≠ none)) := by
  intro s
  have hs := @Session.fresh_stands env .single input oracle h hcwd
  have hadded : s.2.1.Added env h s.2.2 := uploadRun_added env version input oracle hcwd
  obtain ⟨⟨hsucc, hfail, -⟩, hlater⟩ :=
    (Session.Later.sat (sendFilesDirs_delivers hs rfl rfl version)).run
  constructor
  · intro ha
    obtain ⟨fs, rest, moved, hup, hdel⟩ := hsucc ha
    -- without buffers a write that comes short is noticed, so that the room on the disk is not used
    exact ⟨fun hl hcalls => hdel.gone rfl ⟨fun k => by rw [hlater.oracle]; exact hl k, hcalls⟩,
      fun _ htmp => ⟨fs, rest, moved, hup, hdel.arrived htmp hadded⟩⟩
  · intro ha
    obtain ⟨hdests, hleft⟩ := hfail ha hcut
    refine ⟨fun p => ?_, fun t ht => ⟨?_, ?_, fun hl => hleft hl t ht⟩⟩
    · rcases hadded.kept p with h1 | h1 | ⟨-, d, hmem, -⟩
      · exact .inl h1
      · exact .inr h1
      · have hnil : s.2.1.dests = [] := hdests
        rw [hnil] at hmem
        cases hmem
    · rw [← hadded.cwd]
      exact (hadded.stands.tmp t ht).1
    · exact hadded.fresh t (Session.owns_tmp ht List.prefix_rfl)

theorem upload_settled_letter :
    (uploadRun .default 3 letterUpload .calm .empty).1 = some .success ∧
      ∃ fs rest moved, uploadOf .default 3 letterUpload = some (fs, rest) ∧
        Arrived .default (Tree.build fs) moved .empty
          (uploadRun .default 3 letterUpload .calm .empty).2.2 := by
  have hrun : (uploadRun .default 3 letterUpload .calm .empty).1 = some .success ∧
      (uploadRun .default 3 letterUpload .calm .empty).2.1.calls < 1000000 := by decide
  have hcut : Env.default.configuration.cutSentFiles = 0 := by decide
  obtain ⟨hgone, harrived⟩ := (upload_settled .default hcut 3 letterUpload .calm rfl).1 hrun.1
  exact ⟨hrun.1, harrived (fun _ => rfl) (hgone (fun _ => rfl) hrun.2)⟩

end ClipShare
