import ClipShare.Verify.Addition
import ClipShare.Verify.Moving

namespace ClipShare

open Interaction Posix

/-!
# Uploads

What `_send_files_dirs` and `send_file_v1` do, whatever other sessions do meanwhile.

* `Delivered` — where the entries of an upload are at its end;
* `settleUpload_inside` — the end of an upload;
* `Begun` / `Saved` — an upload whose directory stands, and one whose entries have been read;
* `Uploaded` / `sendFilesDirs_delivers` — an upload that succeeds has delivered what its client
  sent;
* `sendFileV1_delivers` — the same for the method of version 1.
-/

variable {mode : Mode} {env : Env} {moves : Host → Path → Prop} {l l' : Session} {h h' : Host}
variable {x : Name} {T : Tree}

/-! ### The end of the connection -/

/-- The session has used its connection, and the others have gone on. -/
structure Talked (mode : Mode) (l : Session) (h : Host) (l' : Session) (h' : Host) : Prop where
  others : Rely mode (some (.mkdir [])) l h h'
  oracle : l'.oracle = l.oracle
  tmp : l'.tmp = l.tmp
  dests : l'.dests = l.dests

theorem Talked.trans {l1 : Session} {h1 : Host} (h12 : Talked mode l h l1 h1)
    (h23 : Talked mode l1 h1 l' h') : Talked mode l h l' h' :=
  ⟨h12.others.trans (h23.others.others h12.tmp h12.dests), h23.oracle.trans h12.oracle,
    h23.tmp.trans h12.tmp, h23.dests.trans h12.dests⟩

theorem Reads.talked (hr : Reads mode l h l' h') : Talked mode l h l' h' :=
  ⟨hr.rely.others rfl rfl, hr.oracle, hr.tmp, hr.dests⟩

theorem Talked.stands (hk : Talked mode l h l' h') (hs : l.Stands mode env h) :
    l'.Stands mode env h' := (hs.rely hk.others).congr hk.tmp hk.dests

theorem Talked.inside (hk : Talked mode l h l' h') (hin : Inside mode env x T l h) :
    Inside mode env x T l' h' := (hin.rely hk.others).congr hk.tmp hk.dests

/-- Closing the socket. -/
theorem closeSocket_talks (hs : l.Stands mode env h) (await shutdown : Bool) :
    (Prog.ask (S := Calls) (.closeSocket await shutdown) id).Sat respond (uploading mode env moves)
      l h (fun a l' h' => a = some () ∧ Talked mode l h l' h' ∧
        (l.input = [] → l'.input = [])) := by
  refine sat_silent rfl hs fun h1 hr1 => ?_
  obtain ⟨hkept, -⟩ := respond_silent (c := .closeSocket await shutdown) rfl l h1
  rw [respond_closeSocket] at hkept ⊢
  refine ⟨rfl, ⟨hr1.others rfl rfl, hkept.oracle, hkept.tmp, hkept.dests⟩, fun hnil => ?_⟩
  show (l.closeSocket await).input = []
  unfold Session.closeSocket
  split
  · exact hnil
  · split
    · simp [hnil]
    · exact hnil

/-- Sending the acknowledgement. -/
theorem sendAck_talks (hs : l.Stands mode env h) :
    sendAck.Sat respond (uploading mode env moves) l h (fun a l' h' =>
      Talked mode l h l' h' ∧ l'.input = l.input ∧
        ∃ st, a = some st ∧ (l.Reliable → st = .success)) := by
  refine (writeSock_writes hs [1]).bind (fun b l1 h1 ⟨hreads, hinput, _, b', hb, hrel⟩ => ?_)
    (fun l1 h1 ⟨_, _, _, _, hb, _⟩ => by cases hb)
  cases hb
  exact ⟨hreads.talked, hinput, _, rfl, fun hl => by rw [hrel hl]; rfl⟩

/-- The end of the exchange with the client keeps the status, unless the acknowledgement cannot be
    sent. -/
theorem finishUpload_talks (hs : l.Stands mode env h) (version : Nat) (status : Status) :
    (finishUpload version status).Sat respond (uploading mode env moves) l h (fun a l' h' =>
      Talked mode l h l' h' ∧ (l.input = [] → l'.input = []) ∧
        ∃ st, a = some st ∧ (st = .success → status = .success) ∧ (l.Reliable → st = status)) := by
  unfold finishUpload
  by_cases hack : status = .success ∧ version ≥ 4
  · rw [if_pos hack]
    refine (sendAck_talks hs).bind (fun st l1 h1 ⟨htalk, hinput, st', hst, hrel⟩ => ?_)
      (fun l1 h1 ⟨_, _, _, hst, _⟩ => by cases hst)
    cases hst
    refine (closeSocket_talks (htalk.stands hs) true true).bind
      (fun _ l2 h2 ⟨_, htalk2, hnil⟩ => ?_) (fun l2 h2 ⟨hu, _⟩ => by cases hu)
    exact ⟨htalk.trans htalk2, fun h0 => hnil (hinput.trans h0), st, rfl, fun _ => hack.1,
      fun hl => (hrel hl).trans hack.1.symm⟩
  · rw [if_neg hack]
    refine (closeSocket_talks hs false true).bind (fun _ l2 h2 ⟨_, htalk2, hnil⟩ => ?_)
      (fun l2 h2 ⟨hu, _⟩ => by cases hu)
    exact ⟨htalk2, hnil, status, rfl, id, fun _ => rfl⟩

/-! ### The end of an upload -/

/-- `list_dir` for the session's directory. -/
theorem listDir_inside (hin : Inside mode env x T l h) (hx : Proper x) :
    (listDir (hereDir ++ x)).Sat respond (uploading mode env moves) l h (fun a l' h' =>
      Looked mode l h l' h' ∧ ((a = some none ∧ ¬ l.Sturdy) ∨
        ∃ names, a = some (some names) ∧ names.Nodup ∧ ∀ n, n ∈ names ↔ T [n] ≠ none)) := by
  refine sat_silent rfl hin.stands fun h1 hr1 => ?_
  have hin1 := hin.rely hr1
  cases hfault : l.fault with
  | true =>
    rw [respond_of_fault hfault rfl]
    refine ⟨Looked.of_rely (hr1.settled rfl) ⟨rfl, rfl, rfl, rfl, rfl, rfl⟩,
      .inl ⟨rfl, fun hl => ?_⟩⟩
    rw [hl.fault] at hfault
    cases hfault
  | false =>
    have hn : Names (hereDir ++ x) [x] := hx.names
    have hdir : h1.fs.node (h1.cwd ++ [x]) = some .dir := (hin1.stands.tmp _ hin1.tmp).2
    have hres : h1.fs.resolve h1.cwd (hereDir ++ x) = some (h1.cwd ++ [x]) := by
      rw [hn.resolve, if_pos ⟨by rw [hdir]; rfl, fun _ => hdir⟩]
    rw [respond_readDir hfault hres hdir]
    refine ⟨Looked.of_rely (hr1.settled rfl) ⟨rfl, rfl, rfl, rfl, rfl, rfl⟩,
      .inr ⟨l.oracle.order l.calls (h1.fs.list (h1.cwd ++ [x])), rfl, ?_, fun n => ?_⟩⟩
    · exact (l.oracle.order_perm _ _).nodup_iff.mpr (h1.fs.nodup_list _)
    · rw [(l.oracle.order_perm _ _).mem_iff, FileSystem.mem_list, ← hin1.tree,
        ← Option.isSome_iff_ne_none, FileSystem.tree_isSome]

/-- Where the entries of an upload are at its end: moved to the working directory, each to a place
    of its own, or still in the directory of the session.  That is gone if no call has failed,
    unless the session has tried so many names that it may have given up. -/
structure Delivered (mode : Mode) (env : Env) (T : Tree) (moved : List (Name × Path)) (l : Session)
    (h : Host) : Prop where
  dests : l.dests = moved.map Prod.snd
  nodup : (moved.map Prod.fst).Nodup
  entries : ∀ m ∈ moved, T [m.1] ≠ none
  placed : mode.strict = true → ∀ m ∈ moved, h.fs.tree m.2 = T.below m.1
  distinct : mode.strict = true → (moved.map Prod.snd).Nodup
  rest : (l.tmp = none ∧ ∀ n, T [n] ≠ none → n ∈ moved.map Prod.fst) ∨
    ∃ x, Inside mode env x (T.without (moved.map Prod.fst)) l h
  gone : mode.strict = true → l.Unhindered → l.tmp = none

/-- Nothing gets in the way of the entries that leave the session's directory. -/
structure Clear (env : Env) (x : Name) (T : Tree) (h : Host) : Prop where
  some : ∃ n, T [n] ≠ none
  short : ∀ n, T [n] ≠ none → n.length ≤ maxFileNameLen
  name : env.configuration.workingDir ≠ none
  ne : ∀ n, T [n] ≠ none → n ≠ x
  free : ∀ n, T [n] ≠ none → h.fs.node (h.cwd ++ [n]) = none
  uncut : env.configuration.cutSentFiles = 0

/-- All entries have been moved: nothing is left in the directory. -/
theorem Inside.emptied (hin : Inside mode env x T l h) {ns : List Name}
    (hns : ∀ n, n ∈ ns ↔ T [n] ≠ none) {q : Path} (hq : q ≠ []) : T.without ns q = none := by
  obtain ⟨n, r, rfl⟩ := List.exists_cons_of_ne_nil hq
  rw [Tree.without_cons]
  by_cases hn : n ∈ ns
  · exact if_pos hn
  · rw [if_neg hn]
    by_contra hne
    refine hn ((hns n).mpr ?_)
    by_cases hr : r = []
    · rw [← hr]
      exact hne
    · have habove := hin.above (Option.ne_none_iff_isSome.mp hne) (p := [n]) ⟨r, rfl⟩ (by
        simpa using Ne.symm hr)
      rw [habove]
      nofun

/-- `clean_temp_dir`: the entries that could be moved have been. -/
theorem cleanTempDir_inside (hin : Inside mode env x T l h) (hx : Proper x) (hlen : x.length ≤ 8)
    (hd : l.dests = []) {ns : List Name} (hnodup : ns.Nodup) (hns : ∀ n, n ∈ ns ↔ T [n] ≠ none)
    (hname : ∀ n, T [n] ≠ none → Proper n ∧ n.length ≤ maxFileNameLen)
    (hm : ∀ n, T [n] ≠ none → ∀ h1 : Host, h1.cwd = h.cwd →
      h1.fs.tree (h.cwd ++ [x, n]) = T.below n → moves h1 (h.cwd ++ [x, n])) :
    (cleanTempDir env (hereDir ++ x) ns).Sat respond (uploading mode env moves) l h
      (fun a l' h' => l.SameSocket l' ∧ h'.cwd = h.cwd ∧ l'.Stands mode env h' ∧
        ∃ r moved, a = some r ∧ Delivered mode env T moved l' h' ∧
          (mode.solo = true → mode.strict = true → l.Sturdy → Clear env x T h →
            l'.tmp = none ∧ ∀ m ∈ moved, m.2 = h.cwd ++ [m.1])) := by
  have hmov : Moving mode env x T [] l h := by
    refine ⟨?_, hd, fun _ => nofun, fun _ => List.nodup_nil⟩
    rw [List.map_nil, Tree.without_nil]
    exact hin
  refine (moveFiles_inside hx hlen hmov hnodup (fun n hn => ?_)
    fun n hn => hm n ((hns n).mp hn)).bind
    (fun r l1 h1 ⟨paths, status, new, hr, hc⟩ => ?_) (fun l1 h1 ⟨_, _, _, hr, _⟩ => by cases hr)
  · exact ⟨(hname n ((hns n).mp hn)).1, nofun, (hns n).mp hn⟩
  cases hr
  have hmov1 := hc.moving
  rw [List.nil_append] at hmov1
  have hnodup1 : (new.map Prod.fst).Nodup := hc.sublist.nodup hnodup
  have hentries : ∀ m ∈ new, T [m.1] ≠ none := fun m hmem =>
    (hns m.1).mp (hc.sublist.subset (List.mem_map_of_mem hmem))
  -- what is known if nothing gets in the way
  have hclear : mode.solo = true → mode.strict = true → l.Sturdy → Clear env x T h →
      status = .success ∧ new = ns.map fun n => (n, h.cwd ++ [n]) := by
    intro hsolo hst hl hc'
    refine hc.clear hsolo hst hl fun n hn => ?_
    have hsome := (hns n).mp hn
    exact ⟨hc'.short n hsome, .inl hc'.name, hc'.ne n hsome, hc'.free n hsome⟩
  have hplaces : new = ns.map (fun n => (n, h.cwd ++ [n])) → ∀ m ∈ new, m.2 = h.cwd ++ [m.1] := by
    rintro rfl m hmem
    obtain ⟨n, -, rfl⟩ := List.mem_map.mp hmem
    rfl
  cases status with
  | success =>
    dsimp only
    rw [if_pos rfl]
    refine (removeDirectory_inside hmov1.inside hx).bind
      (fun b l2 h2 ⟨hsock2, hdests2, hcwd2, hkept2, hb⟩ => ?_)
      (fun l2 h2 ⟨_, _, _, _, hb⟩ => by rcases hb with ⟨hb, _⟩ | ⟨hb, _⟩ <;> cases hb)
    have hsock : l.SameSocket l2 := hc.socket.trans hsock2
    have hplaced2 : mode.strict = true → ∀ m ∈ new, h2.fs.tree m.2 = T.below m.1 :=
      fun hst m hmem => hmov1.tree_kept hkept2 hst hmem
    rcases hb with ⟨hb, -, htmp, hs2⟩ | ⟨hb, hin2, hrel⟩
    · cases hb
      refine ⟨hsock, hcwd2.trans hc.cwd, hs2, _, new, rfl, ⟨hdests2.trans hmov1.dests, hnodup1,
        hentries, hplaced2, hmov1.distinct, .inl ⟨htmp, fun n hn => ?_⟩, fun _ _ => htmp⟩,
        fun hsolo hst hl hc' => ⟨htmp, hplaces (hclear hsolo hst hl hc').2⟩⟩
      rw [hc.all rfl]
      exact (hns n).mpr hn
    · cases hb
      -- the directory is empty, so only a call that fails can keep it
      have hbad : ¬ l.Sturdy := fun hl => by
        obtain ⟨q, hq, hne⟩ := hrel (hl.of_oracle hc.socket.2.2.2)
        rw [hc.all rfl] at hne
        exact hne (hin.emptied hns hq)
      exact ⟨hsock, hcwd2.trans hc.cwd, hin2.stands, _, new, rfl, ⟨hdests2.trans hmov1.dests,
        hnodup1, hentries, hplaced2, hmov1.distinct, .inr ⟨x, hin2⟩, fun _ hu =>
          absurd (hu.1.of_oracle hsock.2.2.2.symm) hbad⟩, fun _ _ hl _ => absurd hl hbad⟩
  | failure =>
    dsimp only
    rw [if_neg (by decide)]
    refine ⟨hc.socket, hc.cwd, hmov1.inside.stands, _, new, rfl, ⟨hmov1.dests, hnodup1, hentries,
      hmov1.placed, hmov1.distinct, .inr ⟨x, hmov1.inside⟩, fun hst hu => ?_⟩,
      fun hsolo hst hl hc' => Status.noConfusion (hclear hsolo hst hl hc').1⟩
    have htried := hc.tried rfl hst (hu.1.of_oracle hc.socket.2.2.2.symm) fun n hn =>
      (hname n ((hns n).mp hn)).2
    exact absurd hu.2 (not_lt.mpr htried)

/-! ### The desktop -/

theorem Session.Stands.host (hs : l.Stands mode env h) (hfs : h'.fs = h.fs)
    (hcwd : h'.cwd = h.cwd) :
    l.Stands mode env h' where
  cwd := by rw [hfs, hcwd]; exact hs.cwd
  tmp t ht := by rw [hfs, hcwd]; exact hs.tmp t ht
  dests hst d hd := by rw [hfs, hcwd]; exact hs.dests hst d hd
  apart := hs.apart

theorem Inside.host (hin : Inside mode env x T l h) (hfs : h'.fs = h.fs) (hcwd : h'.cwd = h.cwd) :
    Inside mode env x T l h' :=
  ⟨hin.stands.host hfs hcwd, by rw [hcwd]; exact hin.tmp, by rw [hfs, hcwd]; exact hin.tree⟩

theorem Delivered.host {moved : List (Name × Path)} (hd : Delivered mode env T moved l h)
    (hfs : h'.fs = h.fs) (hcwd : h'.cwd = h.cwd) : Delivered mode env T moved l h' where
  dests := hd.dests
  nodup := hd.nodup
  entries := hd.entries
  placed hst m hm := by rw [hfs]; exact hd.placed hst m hm
  distinct := hd.distinct
  rest := hd.rest.imp_right fun ⟨x, hin⟩ => ⟨x, hin.host hfs hcwd⟩
  gone := hd.gone

/-- What was delivered stays there. -/
theorem Delivered.rely {moved : List (Name × Path)} (hd : Delivered mode env T moved l h)
    {c : Option Call} (hr : Rely mode c l h h') : Delivered mode env T moved l h' where
  dests := hd.dests
  nodup := hd.nodup
  entries := hd.entries
  placed hst m hm := by
    rw [← hd.placed hst m hm]
    refine FileSystem.tree_congr fun q => hr.owned _
      (Session.owns_dest hst ?_ (List.prefix_append _ _))
    rw [hd.dests]
    exact List.mem_map_of_mem hm
  distinct := hd.distinct
  rest := hd.rest.imp_right fun ⟨x, hin⟩ => ⟨x, hin.rely hr⟩
  gone := hd.gone

theorem Delivered.congr {moved : List (Name × Path)} (hd : Delivered mode env T moved l h)
    (ht : l'.tmp = l.tmp) (hds : l'.dests = l.dests) (hl : l.Later l') :
    Delivered mode env T moved l' h where
  dests := hds.trans hd.dests
  nodup := hd.nodup
  entries := hd.entries
  placed := hd.placed
  distinct := hd.distinct
  rest := hd.rest.imp (fun h0 => ⟨ht.trans h0.1, h0.2⟩) fun ⟨x, hin⟩ => ⟨x, hin.congr ht hds⟩
  gone hst hu := ht.trans (hd.gone hst (hl.unhindered hu))

/-- With `cut_sent_files`, the clipboard gets the files; otherwise nothing happens. -/
theorem cutSentFiles_sat (hs : l.Stands mode env h) (paths : List Bytes) :
    (cutSentFiles env paths).Sat respond (uploading mode env moves) l h (fun a l' h' =>
      l.SameSocket l' ∧ l'.tmp = l.tmp ∧ l'.dests = l.dests ∧
        (∃ h1, Rely mode none l h h1 ∧ h'.fs = h1.fs ∧ h'.cwd = h1.cwd) ∧
        ∃ st, a = some st ∧ (env.configuration.cutSentFiles = 0 → st = .success)) := by
  unfold cutSentFiles
  by_cases hcut : env.configuration.cutSentFiles ≠ 0
  · rw [if_pos hcut]
    intro h1 hr
    have hs1 := hs.rely hr
    -- the clipboard is not part of what uploads promise each other
    have hguar : ∀ {l1 : Session} {h2 : Host}, l1.tmp = l.tmp → l1.dests = l.dests →
        (∀ q, l1.held = some q → l.held = some q) → h2.fs = h1.fs → h2.cwd = h1.cwd →
        Guar mode env moves (.cutFiles paths) (l, h1) (l1, h2) := by
      intro l1 h2 ht hd hheld hfs hcwd
      have hg : Guar mode env moves (.cutFiles paths) (l, h1) (l1, h1) :=
        Guar.silent hs1 ht hd (fun q hq => .inl ⟨hheld q hq, rfl⟩) nofun
      exact
        { cwd := hcwd
          stands := hg.stands.host hfs hcwd
          frame := fun _ => .inl (by rw [hfs])
          inodes := fun p ino d hp => .inl ⟨d, by rw [← hfs]; exact hp⟩
          sizes := fun p ino d hp => .inr ⟨p, by rw [← hfs]; exact hp⟩
          tmp := hg.tmp
          dests := hg.dests
          gone := fun p ho hn => absurd ((Session.owns_congr ht hd p).mpr ho) hn
          held := fun q hq => .inl ⟨hheld q hq, rfl, ht⟩
          moves := nofun }
    have hcutne : env.configuration.cutSentFiles = 0 → False := fun h0 => hcut h0
    cases hfault : l.fault with
    | true =>
      rw [respond_of_fault hfault rfl]
      exact ⟨hguar rfl rfl nofun rfl rfl, ⟨rfl, rfl, rfl, rfl⟩, rfl, rfl,
        ⟨h1, hr.settled rfl, rfl, rfl⟩, _, rfl, fun h0 => (hcutne h0).elim⟩
    | false =>
      rw [respond_of_fault_none hfault]
      exact ⟨hguar rfl rfl (fun q hq => hq) rfl rfl, ⟨rfl, rfl, rfl, rfl⟩, rfl, rfl,
        ⟨h1, hr.settled rfl, rfl, rfl⟩, _, rfl, fun h0 => (hcutne h0).elim⟩
  · rw [if_neg hcut]
    exact ⟨⟨rfl, rfl, rfl, rfl⟩, rfl, rfl, ⟨h, Rely.refl _ _ _ _, rfl, rfl⟩, .success, rfl,
      fun _ => rfl⟩

/-- How an upload has ended whose directory held `T`, and whose entries were all read if `status` is
    success. -/
structure Concluded (mode : Mode) (env : Env) (x : Name) (T : Tree) (status : Status) (l : Session)
    (h : Host) (a : Option Status) (l' : Session) (h' : Host) : Prop where
  socket : l.SameSocket l'
  success : a = some .success → status = .success ∧ ∃ moved, Delivered mode env T moved l' h' ∧
    (mode.solo = true → mode.strict = true → l.Sturdy → Clear env x T h →
      l'.tmp = none ∧ ∀ m ∈ moved, m.2 = h.cwd ++ [m.1])
  failure : a = some .failure → env.configuration.cutSentFiles = 0 → l'.dests = [] ∧
    (l.Sturdy → ∀ t, l'.tmp = some t → ∃ n, h'.fs.node (t ++ [n]) ≠ none)
  clear : status = .success → mode.solo = true → mode.strict = true → l.Sturdy →
    Clear env x T h → a = some .success

section settle

variable {l1 : Session} {h1 : Host} {status : Status} {a : Option Status}

/-- Looking around before the end makes no difference. -/
theorem Concluded.looked (hlook : Looked mode l h l1 h1)
    (hset : Concluded mode env x T status l1 h1 a l' h') :
    Concluded mode env x T status l h a l' h' := by
  have hsock := hlook.alike.sameSocket
  have hclear : mode.solo = true → Clear env x T h → Clear env x T h1 := fun hsolo hc => by
    rw [hlook.others.alone hsolo]
    exact hc
  refine ⟨hsock.trans hset.socket, fun ha => ?_, fun ha hcut => ?_, fun hst hsolo hstrict hl hc =>
    hset.clear hst hsolo hstrict (hl.of_oracle hsock.2.2.2) (hclear hsolo hc)⟩
  · obtain ⟨hst, moved, hdel, hall⟩ := hset.success ha
    refine ⟨hst, moved, hdel, fun hsolo hstrict hl hc => ?_⟩
    rw [← hlook.others.cwd]
    exact hall hsolo hstrict (hl.of_oracle hsock.2.2.2) (hclear hsolo hc)
  · obtain ⟨hd, hleft⟩ := hset.failure ha hcut
    exact ⟨hd, fun hl => hleft (hl.of_oracle hsock.2.2.2)⟩

/-- Nothing was saved: the directory goes, and the upload fails. -/
theorem settle_empty (hin : Inside mode env x T l h) (hx : Proper x) (hd : l.dests = [])
    (hnone : ∀ n, T [n] = none) (status : Status) :
    (do
      let _ ← removeDirectory (hereDir ++ x)
      return Status.failure).Sat respond (uploading mode env moves) l h
        (Concluded mode env x T status l h) := by
  refine (removeDirectory_inside hin hx).bind (fun b l1 h1 ⟨hsock1, hdests1, _, _, hb⟩ => ?_)
    (fun l1 h1 ⟨_, _, _, _, hb⟩ => by rcases hb with ⟨hb, _⟩ | ⟨hb, _⟩ <;> cases hb)
  refine ⟨hsock1, nofun, fun _ _ => ⟨hdests1.trans hd, fun hl t ht => ?_⟩, fun _ _ _ _ hc => ?_⟩
  · rcases hb with ⟨-, -, htmp, -⟩ | ⟨-, hin1, hrel⟩
    · rw [htmp] at ht
      cases ht
    · -- what is left of an empty tree is nothing
      obtain ⟨q, hq, hne⟩ := hrel hl
      have hemptied := @Inside.emptied _ _ _ _ _ _ hin1 [] (fun n => by simp [hnone n]) q hq
      rw [Tree.without_nil] at hemptied
      exact absurd hemptied hne
  · obtain ⟨n, hn⟩ := hc.some
    exact absurd (hnone n) hn

/-- Everything was read: the entries leave the directory. -/
theorem settle_success (hin : Inside mode env x T l h) (hx : Proper x) (hlen : x.length ≤ 8)
    (hd : l.dests = []) {names : List Name} (hnodup : names.Nodup)
    (hnames : ∀ n, n ∈ names ↔ T [n] ≠ none)
    (hT : ∀ n, T [n] ≠ none → (Proper n ∧ n.length ≤ maxFileNameLen) ∧ ∀ h1 : Host, h1.cwd = h.cwd →
      h1.fs.tree (h.cwd ++ [x, n]) = T.below n → moves h1 (h.cwd ++ [x, n])) :
    (do
      match ← cleanTempDir env (hereDir ++ x) names with
      | none => return Status.success
      | some destFiles => cutSentFiles env destFiles).Sat respond (uploading mode env moves) l h
        (Concluded mode env x T .success l h) := by
  refine (cleanTempDir_inside hin hx hlen hd hnodup hnames (fun n hn => (hT n hn).1)
    fun n hn => (hT n hn).2).bind
    (fun r l1 h1 ⟨hsock1, hcwd1, hs1, r', moved, hr, hdel, hall⟩ => ?_)
    (fun l1 h1 ⟨_, _, _, _, _, hr, _⟩ => by cases hr)
  cases hr
  cases r with
  | none => exact ⟨hsock1, fun _ => ⟨rfl, moved, hdel, hall⟩, nofun, fun _ _ _ _ _ => rfl⟩
  | some paths =>
    refine (Session.Later.sat (cutSentFiles_sat hs1 paths)).mono
      fun a l' h' ⟨⟨hsock2, ht2, hd2, ⟨h2, hr2, hfs2, hcwd2⟩, st, ha, hcut⟩, hlater⟩ => ?_
    subst ha
    refine ⟨hsock1.trans hsock2, fun _ => ⟨rfl, moved,
      ((hdel.rely hr2).congr ht2 hd2 hlater).host hfs2 hcwd2, fun hsolo hst hl hc => ?_⟩,
      fun hfail h0 => ?_, fun _ _ _ _ hc => ?_⟩
    · obtain ⟨h1, h2⟩ := hall hsolo hst hl hc
      exact ⟨ht2.trans h1, h2⟩
    · rw [hcut h0] at hfail
      cases hfail
    · rw [hcut hc.uncut]

end settle

/-- **The end of `_send_files_dirs`**: an upload that succeeds has delivered its entries. -/
theorem settleUpload_inside (hin : Inside mode env x T l h) (hx : Proper x) (hlen : x.length ≤ 8)
    (hd : l.dests = []) {status : Status}
    (hT : status = .success → ∀ n, T [n] ≠ none → (Proper n ∧ n.length ≤ maxFileNameLen) ∧
      ∀ h1 : Host, h1.cwd = h.cwd → h1.fs.tree (h.cwd ++ [x, n]) = T.below n →
        moves h1 (h.cwd ++ [x, n])) :
    (settleUpload env (hereDir ++ x) status).Sat respond (uploading mode env moves) l h
      (Concluded mode env x T status l h) := by
  refine (listDir_inside hin hx).bind (fun r l1 h1 ⟨hlook, hr⟩ => ?_)
    (fun l1 h1 ⟨hlook, hr⟩ => by rcases hr with ⟨hr, -⟩ | ⟨_, hr, _⟩ <;> cases hr)
  have hin1 := hlook.inside hin
  have hd1 : l1.dests = [] := hlook.alike.dests.trans hd
  rcases hr with ⟨hr, hbad⟩ | ⟨names, hr, hnodup, hnames⟩
  · cases hr
    exact ⟨hlook.alike.sameSocket, nofun, nofun, fun _ _ _ hl => absurd hl hbad⟩
  · cases hr
    dsimp only
    by_cases hempty : names.length = 0
    · rw [if_pos hempty]
      have hnone : ∀ n, T [n] = none := fun n => by
        by_contra hn
        have hmem := (hnames n).mpr hn
        rw [List.eq_nil_of_length_eq_zero hempty] at hmem
        cases hmem
      exact (settle_empty hin1 hx hd1 hnone status).mono fun _ _ _ hset => hset.looked hlook
    · rw [if_neg hempty]
      cases status with
      | failure =>
        refine ⟨hlook.alike.sameSocket, nofun, fun _ _ => ⟨hd1, fun _ t ht => ?_⟩, nofun⟩
        -- an entry that was saved is still in the directory
        obtain ⟨n, hn⟩ := List.exists_mem_of_ne_nil names fun h0 => hempty (by rw [h0]; rfl)
        rw [hin1.tmp, Option.some.injEq] at ht
        refine ⟨n, fun h0 => (hnames n).mp hn ?_⟩
        rw [← hin1.tree, FileSystem.tree_eq_none, ht]
        exact h0
      | success =>
        dsimp only
        refine (settle_success hin1 hx hlen hd1 hnodup hnames fun n hn => ?_).mono
          fun _ _ _ hset => hset.looked hlook
        rw [hlook.others.cwd]
        exact hT rfl n hn

/-! ### Uploads of files and directories -/

/-- What is moved is an entry of what the client sent, with everything in it. -/
def Ships (env : Env) (version : Nat) (input : Bytes) (h : Host) (src : Path) : Prop :=
  ∃ fs rest x n, uploadOf env version input = some (fs, rest) ∧ src = h.cwd ++ [x, n] ∧
    Tree.build fs [n] ≠ none ∧ h.fs.tree src = (Tree.build fs).below n

/-- The client sends a complete upload, and nothing gets in its way. -/
structure Smooth (env : Env) (version : Nat) (l : Session) (h : Host) (fs : List (Path × Entry)) :
    Prop where
  reliable : l.Reliable
  fuel : 0 < env.fuel
  carries : ∃ input, sizeField l.input = some ((fs.length : Int), input) ∧
    Carries env version fs input []
  count : fs.length ≤ env.configuration.maxFileCount.toNat
  fits : Tree.bare.FitsAll fs
  new : h.fs.node (h.cwd ++ [hex (l.oracle.time (l.calls + 2))]) = none
  clear : Clear env (hex (l.oracle.time (l.calls + 2))) (Tree.build fs) h

/-- The code takes no name that is longer than a file name may be. -/
theorem nameOf_length {input name rest : Bytes} (h : nameOf input = some (name, rest)) :
    name.length ≤ maxFileNameLen := by
  simp only [nameOf, Option.bind_eq_bind, Option.bind_eq_some_iff, Prod.exists] at h
  obtain ⟨size, input1, -, h⟩ := h
  by_cases hsize : size ≤ 0 ∨ size > maxFileNameLen
  · rw [if_pos hsize] at h
    cases h
  · rw [if_neg hsize] at h
    simp only [Option.bind_eq_some_iff, Prod.exists] at h
    obtain ⟨n, input2, hfield, h⟩ := h
    split at h
    · cases h
      rw [(field_eq_some.mp hfield).1]
      exact Int.toNat_le.mpr (not_lt.mp fun h0 => hsize (.inr h0))
    · cases h

/-- The parts of the path that a name stands for are not longer than the name. -/
theorem length_le_of_mem_pathOf {c name : Bytes} (h : c ∈ pathOf name) :
    c.length ≤ name.length := by
  have hmem := List.mem_of_mem_filter h
  refine (length_le_of_mem_components hmem).trans ((cstr_length_le _).trans ?_)
  split
  · simp
  · exact le_rfl

/-- All names in the paths of the frames are short enough for files. -/
theorem framesOf_short {env : Env} {version cnt : Nat} {input rest : Bytes}
    {fs : List (Path × Entry)} (h : framesOf env version cnt input = some (fs, rest)) :
    ∀ f ∈ fs, ∀ c ∈ f.1, c.length ≤ maxFileNameLen := by
  induction cnt generalizing input fs with
  | zero =>
    cases h
    exact nofun
  | succ cnt ih =>
    simp only [framesOf, frameOf, Option.bind_eq_bind, Option.bind_eq_some_iff, Option.pure_def,
      Option.some.injEq, Prod.exists, Prod.mk.injEq] at h
    obtain ⟨_, _, _, ⟨name, _, hname, e, _, -, ⟨rfl, rfl⟩, rfl⟩, gs, _, hrest, rfl, rfl⟩ := h
    intro f hf
    rcases List.mem_cons.mp hf with rfl | hf
    · exact fun c hc => (length_le_of_mem_pathOf hc).trans (nameOf_length hname)
    · exact ih hrest f hf

/-- What holds of all names in what the client sent holds of its entries. -/
theorem build_names {P : Name → Prop} {fs : List (Path × Entry)} (hfs : ∀ f ∈ fs, ∀ c ∈ f.1, P c)
    {n : Name} (hn : Tree.build fs [n] ≠ none) : P n := by
  obtain ⟨f, hf, hp⟩ := Tree.build_ne_none hn (List.cons_ne_nil n [])
  exact hfs f hf n (hp.subset List.mem_cons_self)

/-- A client that sends a complete upload announces its entries, and then sends them. -/
theorem Smooth.announced {version : Nat} {fs : List (Path × Entry)}
    (hsm : Smooth env version l h fs) {cnt : Int} {input : Bytes}
    (hfield : sizeField l.input = some (cnt, input)) :
    cnt = fs.length ∧ 0 < fs.length ∧ Carries env version fs input [] := by
  obtain ⟨input', hfield', hcarries⟩ := hsm.carries
  rw [hfield] at hfield'
  cases hfield'
  refine ⟨rfl, List.length_pos_of_ne_nil ?_, hcarries⟩
  rintro rfl
  obtain ⟨n, hn⟩ := hsm.clear.some
  exact (Tree.build_ne_none hn (List.cons_ne_nil n [])).elim fun _ h0 => by cases h0.1

/-- What an upload has done when it is over: one that succeeds has delivered the entries that its
    client sent, and one that fails has put nothing into the working directory.  Without other
    sessions, an upload in whose way nothing gets succeeds, and its entries keep their names. -/
structure Uploaded (mode : Mode) (env : Env) (version : Nat) (l : Session) (h : Host)
    (a : Option Status) (l' : Session) (h' : Host) : Prop where
  success : a = some .success → ∃ fs rest moved, uploadOf env version l.input = some (fs, rest) ∧
    Delivered mode env (Tree.build fs) moved l' h'
  failure : a = some .failure → env.configuration.cutSentFiles = 0 → l'.dests = [] ∧
    (l.Sturdy → ∀ t, l'.tmp = some t → ∃ n, h'.fs.node (t ++ [n]) ≠ none)
  smooth : mode = .single → ∀ fs, Smooth env version l h fs → a = some .success ∧ l'.input = [] ∧
    l'.tmp = none ∧ ∃ moved, Delivered mode env (Tree.build fs) moved l' h' ∧
      ∀ m ∈ moved, m.2 = h.cwd ++ [m.1]

/-- A failure before the directory of the session was created. -/
theorem Uploaded.quit {version : Nat} (hd : l'.dests = []) (ht : l'.tmp = none)
    (hbad : mode = .single → ∀ fs, ¬ Smooth env version l h fs) :
    Uploaded mode env version l h (some .failure) l' h' where
  success := nofun
  failure _ _ := ⟨hd, fun _ t h0 => by rw [ht] at h0; cases h0⟩
  smooth hm fs hsm := absurd hsm (hbad hm fs)

/-- The client has announced `cnt` entries, and the session has read the time. -/
structure Counted (mode : Mode) (env : Env) (l : Session) (h : Host) (cnt : Int) (l' : Session)
    (h' : Host) : Prop where
  field : sizeField l.input = some (cnt, l'.input)
  count : ¬ (cnt ≤ 0 ∨ cnt > env.configuration.maxFileCount.toNat)
  stands : l'.Stands mode env h'
  tmp : l'.tmp = none
  dests : l'.dests = []
  oracle : l'.oracle = l.oracle
  closed : l'.closed = l.closed
  alone : mode.solo = true → h' = h

/-- The client has announced `cnt` entries, and a free name has been found for the directory. -/
structure Named (mode : Mode) (env : Env) (version : Nat) (l : Session) (h : Host) (cnt : Int)
    (id : UInt32) (l' : Session) (h' : Host) : Prop where
  field : sizeField l.input = some (cnt, l'.input)
  count : ¬ (cnt ≤ 0 ∨ cnt > env.configuration.maxFileCount.toNat)
  free : Free mode env (hex id) l' h'
  tmp : l'.tmp = none
  dests : l'.dests = []
  oracle : l'.oracle = l.oracle
  closed : l'.closed = l.closed
  added : mode = .single → l'.Added env h h'
  name : mode = .single → ∀ fs, Smooth env version l h fs →
    hex id = hex (l.oracle.time (l.calls + 2))

/-- The client has announced `cnt` entries, and the directory for them has been created. -/
structure Begun (mode : Mode) (env : Env) (version : Nat) (l : Session) (h : Host) (cnt : Int)
    (x : Name) (l' : Session) (h' : Host) : Prop where
  field : sizeField l.input = some (cnt, l'.input)
  count : ¬ (cnt ≤ 0 ∨ cnt > env.configuration.maxFileCount.toNat)
  inside : Inside mode env x Tree.bare l' h'
  proper : Proper x
  short : x.length ≤ 8
  dests : l'.dests = []
  oracle : l'.oracle = l.oracle
  reliable : l.Reliable → l'.Reliable
  added : mode = .single → l'.Added env h h'
  name : mode = .single → ∀ fs, Smooth env version l h fs →
    x = hex (l.oracle.time (l.calls + 2))

/-- The entries have been read, and the tree in the session's directory is `T`. -/
structure Saved (mode : Mode) (env : Env) (version : Nat) (l : Session) (h : Host) (x : Name)
    (status : Status) (T : Tree) (l' : Session) (h' : Host) : Prop where
  inside : Inside mode env x T l' h'
  dests : l'.dests = []
  oracle : l'.oracle = l.oracle
  added : mode = .single → l'.Added env h h'
  known : status = .success → ∃ fs rest, uploadOf env version l.input = some (fs, rest) ∧
    T = Tree.build fs ∧ ∀ f ∈ fs, ∀ c ∈ f.1, Proper c ∧ c.length ≤ maxFileNameLen
  smooth : mode = .single → ∀ fs, Smooth env version l h fs → status = .success ∧
    T = Tree.build fs ∧ l'.input = [] ∧ l'.Reliable

section Receive

variable {version : Nat} {cnt : Int} {l1 : Session} {h1 : Host}

/-- The search for a name of the directory finds one, or does not end, which does not happen to an
    upload in whose way nothing gets. -/
theorem Counted.names (ha : Counted mode env l h cnt l1 h1) (version : Nat) :
    (freeTempName env.fuel (l.oracle.time (l.calls + 2))).Sat respond (uploading mode env moves)
      l1 h1 (fun a l' h' =>
        (a = none ∧ (mode = .single → ∀ fs, ¬ Smooth env version l h fs)) ∨
          ∃ id, a = some (some (tempName id)) ∧ Named mode env version l h cnt id l' h') := by
  refine (freeTempName_free ha.stands env.fuel _).mono fun a l' h' ⟨halone, hr⟩ => ?_
  rcases hr with ⟨rfl, hthere⟩ | ⟨halike, id, rfl, hfree, hsame⟩
  · refine .inl ⟨rfl, fun hm fs hsm => ?_⟩
    subst hm
    have hne := hthere rfl hsm.fuel
    rw [ha.alone rfl] at hne
    exact hne hsm.new
  · refine .inr ⟨id, rfl, ?_, ha.count, hfree, halike.tmp.trans ha.tmp,
      halike.dests.trans ha.dests, halike.oracle.trans ha.oracle, halike.closed.trans ha.closed,
      fun hm => ?_, fun hm fs hsm => ?_⟩
    · rw [halike.input]
      exact ha.field
    · subst hm
      have hh : h' = h := (halone rfl).trans (ha.alone rfl)
      rw [hh]
      exact Session.Added.start (hh ▸ hfree.stands) (halike.tmp.trans ha.tmp)
        (halike.dests.trans ha.dests)
    · subst hm
      rw [hsame rfl (by rw [ha.alone rfl]; exact hsm.new)]

/-- The directory is created; alone, only a call that fails is in the way. -/
theorem Named.begins {id : UInt32} (hn : Named mode env version l h cnt id l1 h1) :
    (mkdirs (tempName id)).Sat respond (uploading mode env moves) l1 h1 (fun a l' h' =>
      (a = some .success ∧ Begun mode env version l h cnt (hex id) l' h') ∨
        (a = some .failure ∧ l'.dests = [] ∧ l'.tmp = none ∧
          (mode = .single → ∀ fs, ¬ Smooth env version l h fs))) := by
  have hlen : (hex id).length ≤ 8 := length_hex_le id
  refine (Session.Added.sat (mkdirs_free hn.free hn.tmp hlen) hn.added).mono
    fun a l' h' ⟨⟨hsock, hdests, hr⟩, hadded⟩ => ?_
  rcases hr with ⟨rfl, hin⟩ | ⟨rfl, htmp, -, hrel⟩
  · refine .inl ⟨rfl, ?_, hn.count, hin, hn.free.proper, hlen, hdests.trans hn.dests,
      hsock.2.2.2.trans hn.oracle, fun hl => ?_, hadded, hn.name⟩
    · rw [hsock.1]
      exact hn.field
    · exact hl.of_eq (hsock.2.2.1.trans hn.closed) (hsock.2.2.2.trans hn.oracle)
  · exact .inr ⟨rfl, hdests.trans hn.dests, htmp, fun hm fs hsm =>
      hrel (by rw [hm]) (hsm.reliable.of_eq hn.closed hn.oracle)⟩

/-- The loop over the entries. -/
theorem Begun.saves (hb : Begun mode env version l h cnt x l1 h1) :
    (saveFiles env version (hereDir ++ x) cnt.toNat).Sat respond (uploading mode env moves) l1 h1
      (fun a l' h' => ∃ status T, a = some status ∧
        Saved mode env version l h x status T l' h') := by
  have hloop : (saveFiles env version (hereDir ++ x) cnt.toNat).Sat respond
      (uploading mode env moves) l1 h1 _ := saveFiles_inside hb.inside hb.proper hb.short cnt.toNat
  have hsaved := hloop.and_own (I := fun l' => l'.oracle = l.oracle)
    (fun c s h0 => (respond_oracle c s).trans h0) hb.oracle
  refine (Session.Added.sat hsaved hb.added).mono fun a l' h' ⟨⟨hr, horacle⟩, hadded⟩ => ?_
  rcases hr with ⟨ha, fs, rest, hframes, htook, hproper, -, hin⟩ | ⟨ha, hf, hrel⟩
  · refine ⟨.success, _, ha, hin, htook.dests.trans hb.dests, horacle, hadded,
      fun _ => ⟨fs, rest, ?_, rfl, fun f hf c hc => ⟨hproper f hf c hc,
        framesOf_short hframes f hf c hc⟩⟩, fun _ fs' hsm => ?_⟩
    · simp [uploadOf, hb.field, hb.count, hframes]
    · -- what was read is what the client sent
      obtain ⟨hlen, -, hcarries⟩ := hsm.announced hb.field
      have hframes' := hcarries.framesOf hsm.fits.ne
      rw [hlen, Int.toNat_natCast, hframes', Option.some.injEq, Prod.mk.injEq] at hframes
      obtain ⟨rfl, rfl⟩ := hframes
      exact ⟨rfl, rfl, htook.input, (hb.reliable hsm.reliable).took htook⟩
  · refine ⟨.failure, h'.fs.tree (h'.cwd ++ [x]), ha, ⟨hf.stands, ?_, rfl⟩, ?_, horacle, hadded,
      nofun, fun _ fs' hsm => ?_⟩
    · rw [hf.tmp, hf.cwd]
      exact hb.inside.tmp
    · refine List.eq_nil_iff_forall_not_mem.mpr fun d hmem => ?_
      have := hf.dests d hmem
      rw [hb.dests] at this
      cases this
    · obtain ⟨hlen, -, hcarries⟩ := hsm.announced hb.field
      refine absurd hsm.fits (hrel (hb.reliable hsm.reliable) fs' [] hcarries ?_)
      rw [hlen, Int.toNat_natCast]

/-- Nothing gets in the way of what was saved: the names of the entries are still free in the
    working directory. -/
theorem Saved.clear {status : Status} (hs : Saved .single env version l h x status T l1 h1)
    (hx : x = hex (l.oracle.time (l.calls + 2))) {fs : List (Path × Entry)}
    (hsm : Smooth env version l h fs) : Clear env x (Tree.build fs) h1 := by
  have hc := hsm.clear
  rw [← hx] at hc
  refine ⟨hc.some, hc.short, hc.name, hc.ne, fun n hn => ?_, hc.uncut⟩
  have hadded := hs.added rfl
  rw [hadded.cwd, hadded.node_eq]
  · exact hc.free n hn
  · rintro (⟨t, htmp, hp⟩ | ⟨-, d, hmem, -⟩)
    · rw [hs.inside.tmp, Option.some.injEq] at htmp
      rw [← htmp, hadded.cwd] at hp
      exact not_prefix_sibling (Ne.symm (hc.ne n hn)) hp
    · rw [hs.dests] at hmem
      cases hmem

/-- The end of an upload whose entries have been read. -/
theorem Saved.finish {status : Status} (hs : Saved mode env version l h x status T l1 h1)
    (hx : Proper x) (hlen : x.length ≤ 8)
    (hname : mode = .single → ∀ fs, Smooth env version l h fs →
      x = hex (l.oracle.time (l.calls + 2))) :
    (do
      let status ← finishUpload version status
      settleUpload env (hereDir ++ x) status).Sat respond
        (uploading mode env (Ships env version l.input)) l1 h1 (Uploaded mode env version l h) := by
  refine (finishUpload_talks hs.inside.stands version status).bind
    (fun st l2 h2 ⟨htalk, hnil, st', hst', hkeep, hrel⟩ => ?_)
    (fun l2 h2 ⟨_, _, _, hst', _⟩ => by cases hst')
  cases hst'
  have hin2 := htalk.inside hs.inside
  have hd2 : l2.dests = [] := htalk.dests.trans hs.dests
  refine (settleUpload_inside hin2 hx hlen hd2 fun hst n hn => ?_).mono
    fun a l' h' hset => ⟨fun ha => ?_, fun ha hcut => ⟨(hset.failure ha hcut).1, fun hl =>
      (hset.failure ha hcut).2 (hl.of_oracle ?_)⟩, fun hm fs hsm => ?_⟩
  · -- what is moved is an entry of what the client sent
    obtain ⟨fs, rest, hup, rfl, hnames⟩ := hs.known (hkeep hst)
    exact ⟨build_names hnames hn, fun h3 hcwd htree => ⟨fs, rest, x, n, hup,
      by rw [hcwd], hn, htree⟩⟩
  · obtain ⟨hst, moved, hdel, -⟩ := hset.success ha
    obtain ⟨fs, rest, hup, rfl, -⟩ := hs.known (hkeep hst)
    exact ⟨fs, rest, moved, hup, hdel⟩
  · exact htalk.oracle.trans hs.oracle
  · obtain ⟨hstatus, rfl, hnil1, hrel1⟩ := hs.smooth hm fs hsm
    have hst : st = .success := (hrel hrel1).trans hstatus
    have hsturdy : l2.Sturdy := Session.Sturdy.of_oracle (l := l1) hrel1.fs htalk.oracle
    -- alone, nothing has come to the places where the entries go
    subst hm
    have hclear : Clear env x (Tree.build fs) h2 := by
      rw [htalk.others.alone rfl]
      exact hs.clear (hname rfl fs hsm) hsm
    have ha := hset.clear hst rfl rfl hsturdy hclear
    obtain ⟨-, moved, hdel, hall⟩ := hset.success ha
    obtain ⟨htmp, hplaces⟩ := hall rfl rfl hsturdy hclear
    rw [htalk.others.cwd, (hs.added rfl).cwd] at hplaces
    exact ⟨ha, hset.socket.1.trans (hnil hnil1), htmp, moved, hdel, hplaces⟩

/-- An upload whose directory has been created. -/
theorem Begun.finishes (hb : Begun mode env version l h cnt x l1 h1) :
    (do
      let status ← saveFiles env version (hereDir ++ x) cnt.toNat
      let status ← finishUpload version status
      settleUpload env (hereDir ++ x) status).Sat respond
        (uploading mode env (Ships env version l.input)) l1 h1 (Uploaded mode env version l h) := by
  refine hb.saves.bind (fun status l2 h2 ⟨st, T, hst, hsaved⟩ => ?_)
    (fun l2 h2 ⟨_, _, hst, _⟩ => by cases hst)
  cases hst
  exact hsaved.finish hb.proper hb.short hb.name

end Receive

/-- **Uploads.**  What an upload has done when it is over, whatever other sessions do meanwhile. -/
theorem sendFilesDirs_delivers (hs : l.Stands mode env h) (ht : l.tmp = none) (hd : l.dests = [])
    (version : Nat) :
    (sendFilesDirs env version).Sat respond (uploading mode env (Ships env version l.input)) l h
      (Uploaded mode env version l h) := by
  refine (writeSock_writes hs [statusOk]).bind
    (fun b l1 h1 ⟨hreads1, hinput1, hclosed1, b', hb, hrel1⟩ => ?_)
    (fun l1 h1 ⟨_, _, _, _, hb, _⟩ => by cases hb)
  cases hb
  have hs1 := hreads1.talked.stands hs
  have hd1 : l1.dests = [] := hreads1.dests.trans hd
  cases b with
  | false => exact .quit hd1 (hreads1.tmp.trans ht) fun _ fs hsm => by cases hrel1 hsm.reliable
  | true =>
    refine (readSize_reads hs1).bind (fun r l2 h2 ⟨hreads2, hr⟩ => ?_)
      (fun l2 h2 ⟨_, hr⟩ => by rcases hr with ⟨_, _, hr, _⟩ | ⟨hr, _⟩ <;> cases hr)
    have htalk2 := hreads1.talked.trans hreads2.talked
    have hs2 := htalk2.stands hs
    have hd2 : l2.dests = [] := htalk2.dests.trans hd
    have ht2 : l2.tmp = none := htalk2.tmp.trans ht
    rcases hr with ⟨cnt, input, hr, hfield, htook⟩ | ⟨hr, hfail⟩
    · cases hr
      rw [hinput1] at hfield
      dsimp only
      by_cases hcnt : cnt ≤ 0 ∨ cnt > env.configuration.maxFileCount.toNat
      · rw [if_pos hcnt]
        refine .quit hd2 ht2 fun _ fs hsm => ?_
        obtain ⟨h1, h2, -⟩ := hsm.announced hfield
        have := hsm.count
        omega
      · rw [if_neg hcnt]
        refine sat_silent rfl hs2 fun h3 hr3 => ?_
        rw [respond_of_failed_none rfl]
        have hcounted : Counted mode env l h cnt l2.tick h3 := by
          refine ⟨?_, hcnt, (hs2.rely hr3).congr rfl rfl, ht2, hd2, htalk2.oracle,
            htook.closed.trans hclosed1, fun hsolo =>
              (hr3.alone hsolo).trans (htalk2.others.alone hsolo)⟩
          exact hfield.trans (congrArg (fun i => some (cnt, i)) htook.input.symm)
        -- the name of the directory comes from the time at the third call
        have htime : l2.oracle.time l2.calls = l.oracle.time (l.calls + 2) := by
          rw [htalk2.oracle, hreads2.calls, hreads1.calls]
        show Prog.Sat _ _ (freeTempName env.fuel (l2.oracle.time l2.calls) >>= _) l2.tick h3 _
        rw [htime]
        refine (hcounted.names version).bind (fun r l4 h4 hr => ?_)
          (fun l4 h4 hr => ⟨nofun, nofun, fun hm fs hsm => ?_⟩)
        · rcases hr with ⟨hr, -⟩ | ⟨id, hr, hnamed⟩
          · cases hr
          cases hr
          refine hnamed.begins.bind (fun r l5 h5 hr => ?_)
            (fun l5 h5 hr => by rcases hr with ⟨hr, _⟩ | ⟨hr, _⟩ <;> cases hr)
          rcases hr with ⟨hr, hbegun⟩ | ⟨hr, hd5, ht5, hbad⟩
          · cases hr
            exact hbegun.finishes
          · cases hr
            exact .quit hd5 ht5 hbad
        · rcases hr with ⟨-, hbad⟩ | ⟨_, hr, -⟩
          · exact absurd hsm (hbad hm fs)
          · cases hr
    · cases hr
      refine .quit hd2 ht2 fun _ fs hsm => ?_
      obtain ⟨input, hfield, -⟩ := hsm.carries
      have hnone := hfail (hsm.reliable.of_eq hclosed1 hreads1.oracle)
      rw [hinput1, hfield] at hnone
      cases hnone

/-! ### The upload of version 1 -/

/-- What an upload of version 1 brings: one file, under the last part of its name. -/
def fileOf (env : Env) (input : Bytes) : Option (List (Path × Entry) × Bytes) := do
  let (name, input) ← nameOf input
  let (e, input) ← contentOf env 1 input
  return ([([getBaseName (cstr name)], e)], input)

/-- The step that creates a result of version 1. -/
theorem Guar.createHere {s : Name} (hf : Free mode env s l h) (hst : mode.strict = true)
    (ht : l.tmp = none) (hd : l.dests = []) {path : Bytes} (hloc : h.locate path = h.cwd ++ [s])
    (hsize : 0 ≤ env.configuration.maxFileSize) {fs : FileSystem}
    (hnode : ∀ q, fs.node q = if q = h.cwd ++ [s] then some (.file h.fs.nextIno [])
      else h.fs.node q) :
    Guar mode env moves (.openWrite path) (l, h) (l.tick.opened (h.cwd ++ [s]), h.withFs fs) := by
  have habsent := hf.absent (.inl hst)
  have hcreates : Creates mode env (.openWrite path) (l, h) (h.cwd ++ [s]) :=
    ⟨hf.held, hf.top, congrArg some hloc, fun _ => habsent⟩
  have hdests : (l.tick.opened (h.cwd ++ [s])).dests = [h.cwd ++ [s]] := by
    rw [Session.opened_dests_of_none ht, hd, List.nil_append]
  have hself : fs.node (h.cwd ++ [s]) = some (.file h.fs.nextIno []) := by rw [hnode, if_pos rfl]
  have hother : ∀ q, q ≠ h.cwd ++ [s] → fs.node q = h.fs.node q := fun q hq => by
    rw [hnode, if_neg hq]
  -- a file of the new tree is an old one, or the new one, which is empty
  have hfile : ∀ q ino d, fs.node q = some (.file ino d) →
      h.fs.node q = some (.file ino d) ∨ (ino = h.fs.nextIno ∧ d = []) := by
    intro q ino d hq
    by_cases hqs : q = h.cwd ++ [s]
    · rw [hqs, hself] at hq
      cases hq
      exact .inr ⟨rfl, rfl⟩
    · rw [hother q hqs] at hq
      exact .inl hq
  constructor
  case cwd => rfl
  case stands =>
    refine ⟨(hother _ (by simp)).trans hf.stands.cwd, fun t h1 => ?_, fun _ d h1 => ?_,
      fun _ d _ => ?_⟩
    · have h2 : l.tmp = some t := h1
      rw [ht] at h2
      cases h2
    · rw [hdests, List.mem_singleton] at h1
      rw [h1, Host.withFs_fs, hself]
      exact ⟨hf.top, rfl⟩
    · show l.tmp ≠ some d
      rw [ht]
      nofun
  case frame =>
    intro p
    by_cases hp : p = h.cwd ++ [s]
    · have hpre : h.cwd ++ [s] <+: p := by rw [hp]
      refine .inr (.inr ⟨_, hcreates, hpre, fun _ => ?_⟩)
      exact Session.owns_dest hst (by rw [hdests]; exact List.mem_singleton.mpr rfl) hpre
    · exact .inl (hother p hp)
  case inodes =>
    intro p ino d hp
    rcases hfile p ino d hp with h1 | ⟨h1, -⟩
    · exact .inl ⟨d, h1⟩
    · exact .inr (.inr h1.ge)
  case sizes =>
    intro p ino d hp
    rcases hfile p ino d hp with h1 | ⟨-, rfl⟩
    · exact .inr ⟨p, h1⟩
    · exact .inl hsize
  case tmp => exact fun t h1 => .inl h1
  case dests =>
    intro d h1
    rw [hdests, List.mem_singleton] at h1
    exact .inr ⟨rfl, h1 ▸ hcreates⟩
  -- a session without results and directory owned nothing
  case gone =>
    intro p ho _
    rcases ho with ⟨t, h1, -⟩ | ⟨-, d, h1, -⟩
    · have h2 : l.tmp = some t := h1
      rw [ht] at h2
      cases h2
    · have h2 : d ∈ l.dests := h1
      rw [hd] at h2
      cases h2
  case held => exact fun q hq => by cases hq
  case moves => exact nofun

/-- `open_file` for a name of the working directory that is free. -/
theorem openWrite_free {s : Name} (hf : Free mode env s l h) (hst : mode.strict = true)
    (ht : l.tmp = none) (hd : l.dests = []) (hsize : 0 ≤ env.configuration.maxFileSize) :
    (openWrite (hereDir ++ s)).Sat respond (uploading mode env moves) l h (fun a l' h' =>
      l'.input = l.input ∧ l'.tmp = none ∧
        ((∃ ino, a = some (some ino) ∧ l'.dests = [h'.cwd ++ [s]] ∧
            Holds mode env (h'.cwd ++ [s]) ino [] l' h') ∨
          (a = some none ∧ l'.Stands mode env h'))) := by
  intro h' hr
  have hf' := hf.rely (hr.settled rfl)
  have hfail : Guar mode env moves (.openWrite (hereDir ++ s)) (l, h') (l.tick.release, h') :=
    Guar.silent hf'.stands rfl rfl nofun nofun
  have hn : Names (hereDir ++ s) [s] := hf.proper.names
  cases hfault : l.fault with
  | true =>
    rw [respond_of_fault hfault rfl]
    exact ⟨hfail, rfl, ht, .inr ⟨rfl, hf'.stands.congr rfl rfl⟩⟩
  | false =>
    have hnew : h'.fs.resolveNew h'.cwd (hereDir ++ s) = some (h'.cwd, s) :=
      hf.proper.resolveNew_here hf'.stands.cwd
    obtain ⟨fs, hof, hnode⟩ :=
      openWriteOf_new hf.proper.getLast_here hnew hf'.stands.cwd (hf'.absent (.inl hst))
    have hguar : Guar mode env moves (.openWrite (hereDir ++ s)) (l, h')
        (l.tick.opened (h'.cwd ++ [s]), h'.withFs fs) :=
      Guar.createHere hf' hst ht hd (hn.locate h') hsize hnode
    have hdests : (l.tick.opened (h'.cwd ++ [s])).dests = [h'.cwd ++ [s]] := by
      rw [Session.opened_dests_of_none ht, hd, List.nil_append]
    have hself : fs.node (h'.cwd ++ [s]) = some (.file h'.fs.nextIno []) := by
      rw [hnode, if_pos rfl]
    rw [respond_openWrite hfault hof]
    refine ⟨hguar, rfl, ht, .inl ⟨_, rfl, hdests, hguar.stands, ?_, hself, fun q d hq =>
      FileSystem.eq_of_newest hnode hq⟩⟩
    exact Session.owns_dest hst (by rw [hdests]; exact List.mem_singleton.mpr rfl) List.prefix_rfl

/-- `_save_file_common` for a name of the working directory that is free: the file is there
    afterwards. -/
theorem saveFileCommon_free {s : Name} (hf : Free mode env s l h) (hst : mode.strict = true)
    (ht : l.tmp = none) (hd : l.dests = []) :
    (saveFileCommon env 1 (hereDir ++ s)).Sat respond (uploading mode env moves) l h
      (fun a l' h' => ∃ st, a = some st ∧ (st = .success → ∃ d ino rest,
        contentOf env 1 l.input = some (.file d, rest) ∧ l'.tmp = none ∧
          l'.dests = [h'.cwd ++ [s]] ∧ l'.Stands mode env h' ∧
          h'.fs.node (h'.cwd ++ [s]) = some (.file ino d))) := by
  refine (readSize_reads hf.stands).bind (fun a l1 h1 ⟨hreads, hr⟩ => ?_)
    (fun l1 h1 ⟨_, hr⟩ => by rcases hr with ⟨_, _, hr, _⟩ | ⟨hr, _⟩ <;> cases hr)
  rcases hr with ⟨size, rest, ha, hfield, htook⟩ | ⟨ha, -⟩
  · cases ha
    -- a size of -1 stands for a directory only from version 3 on
    have hold : ¬ (size = -1 ∧ 1 ≥ 3) := by omega
    dsimp only
    by_cases hmax : size > env.configuration.maxFileSize
    · rw [if_pos hmax]
      exact ⟨_, rfl, nofun⟩
    · by_cases hneg : size < 0
      · rw [if_neg hmax, if_neg hold, if_pos hneg]
        exact ⟨_, rfl, nofun⟩
      · rw [if_neg hmax, if_neg hold, if_neg hneg]
        have hf1 := (hf.rely hreads.rely).congr hreads.tmp hreads.dests hreads.held
        have hsize : (size.toNat : Int) = size := Int.toNat_of_nonneg (not_lt.mp hneg)
        refine (openWrite_free hf1 hst (hreads.tmp.trans ht) (hreads.dests.trans hd)
          (by omega)).bind (fun r l2 h2 ⟨hinput2, ht2, hr2⟩ => ?_)
          (fun l2 h2 ⟨_, _, hr2⟩ => by rcases hr2 with ⟨_, hr2, _⟩ | ⟨hr2, _⟩ <;> cases hr2)
        rcases hr2 with ⟨ino, hr2, hd2, hh⟩ | ⟨hr2, hs2⟩
        · cases hr2
          have hn : Names (hereDir ++ s) [s] := hf.proper.names
          refine (saveContent_sat hn size.toNat hh rfl le_rfl ?_).mono fun a l' h' hpost => ?_
          · simp only [List.length_nil]
            omega
          · rcases hpost with ⟨rfl, hc, hcwd, hh', -⟩ | ⟨rfl, -, -⟩
            · have henough := hc.enough
              have hnode := hh'.node
              rw [hinput2, htook.input] at henough
              rw [hinput2, htook.input, List.nil_append] at hnode
              refine ⟨_, rfl, fun _ => ⟨rest.take size.toNat, ino, rest.drop size.toNat, ?_,
                hc.tmp.trans ht2, ?_, hh'.stands, ?_⟩⟩
              · rw [contentOf_eq hfield]
                exact bodyOf_file hmax hold hneg henough
              · rw [hc.dests, hd2, hcwd]
              · rw [hcwd]
                exact hnode
            · exact ⟨_, rfl, nofun⟩
        · cases hr2
          refine sat_silent rfl hs2 fun h3 hr3 => ?_
          exact ⟨_, rfl, nofun⟩
  · cases ha
    exact ⟨_, rfl, nofun⟩

/-- A single file in the working directory is what the client of version 1 sent. -/
theorem delivered_file {s n : Name} {d : Bytes} {ino : Nat} (ht : l.tmp = none)
    (hd : l.dests = [h.cwd ++ [s]])
    (hnode : h.fs.node (h.cwd ++ [s]) = some (.file ino d)) :
    Delivered mode env (Tree.build [([n], .file d)]) [(n, h.cwd ++ [s])] l h := by
  have hbuild : ∀ q, Tree.build [([n], .file d)] (n :: q) =
      if n :: q = [n] then some (.file d) else none := fun q => Tree.build_file n d _ nofun
  refine ⟨hd, List.nodup_singleton _, fun m hm => ?_, fun _ m hm => ?_,
    fun _ => List.nodup_singleton _, .inl ⟨ht, fun m hm => ?_⟩, fun _ _ => ht⟩
  · rw [List.mem_singleton.mp hm, hbuild, if_pos rfl]
    nofun
  · rw [List.mem_singleton.mp hm]
    funext q
    show h.fs.tree (h.cwd ++ [s]) q = Tree.build [([n], .file d)] (n :: q)
    rw [hbuild]
    by_cases hq : q = []
    · rw [hq, if_pos rfl]
      exact FileSystem.tree_of_file ((congrArg h.fs.node (List.append_nil _)).trans hnode)
    · -- nothing lies below a file
      rw [if_neg (by simpa using hq)]
      by_contra hne
      have habove := FileSystem.tree_above (Option.ne_none_iff_isSome.mp hne) List.nil_prefix
        (Ne.symm hq)
      rw [FileSystem.tree_eq_dir, List.append_nil, hnode] at habove
      cases habove
  · rw [List.map_singleton, List.mem_singleton]
    by_contra hne
    refine hm ?_
    rw [Tree.build_file n d _ (List.cons_ne_nil m [])]
    exact if_neg (by simpa using hne)

/-- The rest of `send_file_v1`, from the name of the file on. -/
theorem storeFile_free (hs : l.Stands mode env h) (ht : l.tmp = none) (hd : l.dests = [])
    (hst : mode.strict = true) {fileName : Bytes} (hsep : sep ∉ fileName) (nameMaxLen : Nat) :
    (storeFile env fileName nameMaxLen).Sat respond (uploading mode env moves) l h (fun a l' h' =>
      a = some .success → ∃ d rest moved, contentOf env 1 l.input = some (.file d, rest) ∧
        Delivered mode env (Tree.build [([fileName], .file d)]) moved l' h') := by
  unfold storeFile renameIfExists
  cases hfit : snprintfCheck nameMaxLen (firstCandidate env fileName) with
  | none => exact nofun
  | some tmp =>
    obtain ⟨s, hfirst, hsep', htop, -⟩ := firstCandidate_eq env hsep
    have htmp : tmp = hereDir ++ s := (snprintfCheck_eq hfit).trans hfirst
    subst htmp
    refine (freeName_free hs nameMaxLen hsep (show 999999 < 1000000 by omega) hsep' htop).bind
      (fun r l1 h1 ⟨hlook, hr⟩ => ?_)
      (fun l1 h1 ⟨_, hr⟩ => by rcases hr with ⟨hr, _⟩ | ⟨_, hr, _⟩ <;> cases hr)
    rcases hr with ⟨hr, -⟩ | ⟨s', hr, hfree, -⟩
    · cases hr
      exact nofun
    · cases hr
      -- the name that was found is still free, so the file is created there
      refine (saveFileCommon_free hfree hst (hlook.alike.tmp.trans ht)
        (hlook.alike.dests.trans hd)).bind (fun st l2 h2 ⟨st', hst', hgood⟩ => ?_)
        (fun l2 h2 ⟨_, hst', _⟩ => by cases hst')
      cases hst'
      cases st with
      | failure => exact nofun
      | success =>
        obtain ⟨d, ino, rest, hcontent, ht2, hd2, hs2, hnode⟩ := hgood rfl
        have hdel : Delivered mode env (Tree.build [([fileName], .file d)])
            [(fileName, h2.cwd ++ [s'])] l2 h2 := delivered_file ht2 hd2 hnode
        refine (Session.Later.sat (closeSocket_talks hs2 false true)).bind
          (fun _ l3 h3 ⟨⟨_, htalk, _⟩, hlater3⟩ => ?_) (fun l3 h3 ⟨⟨hu, _⟩, _⟩ => by cases hu)
        refine (Session.Later.sat (cutSentFiles_sat (htalk.stands hs2) _)).mono
          fun a l' h' ⟨⟨_, ht4, hd4, ⟨h4, hr4, hfs4, hcwd4⟩, _⟩, hlater4⟩ _ => ?_
        rw [hlook.alike.input] at hcontent
        refine ⟨d, rest, [(fileName, h2.cwd ++ [s'])], hcontent, ?_⟩
        have hdel3 := (hdel.rely htalk.others).congr htalk.tmp htalk.dests hlater3
        exact ((hdel3.rely hr4).congr ht4 hd4 hlater4).host hfs4 hcwd4

/-- **Uploads of version 1.**  An upload that succeeds has delivered the file that its client
    sent. -/
theorem sendFileV1_delivers (hs : l.Stands mode env h) (ht : l.tmp = none) (hd : l.dests = [])
    (hst : mode.strict = true) :
    (sendFileV1 env).Sat respond (uploading mode env moves) l h (fun a l' h' =>
      a = some .success → ∃ fs rest moved, fileOf env l.input = some (fs, rest) ∧
        Delivered mode env (Tree.build fs) moved l' h') := by
  refine (writeSock_writes hs [statusOk]).bind
    (fun b l1 h1 ⟨hreads1, hinput1, _, b', hb, _⟩ => ?_)
    (fun l1 h1 ⟨_, _, _, _, hb, _⟩ => by cases hb)
  cases hb
  cases b with
  | false => exact nofun
  | true =>
    have hs1 := hreads1.talked.stands hs
    refine (readSize_reads hs1).bind (fun r l2 h2 ⟨hreads2, hr⟩ => ?_)
      (fun l2 h2 ⟨_, hr⟩ => by rcases hr with ⟨_, _, hr, _⟩ | ⟨hr, _⟩ <;> cases hr)
    have htalk2 := hreads1.talked.trans hreads2.talked
    have hs2 := htalk2.stands hs
    rcases hr with ⟨size, input2, hr, hfield, htook2⟩ | ⟨hr, -⟩
    · cases hr
      rw [hinput1] at hfield
      dsimp only
      -- every check of the code is one of `nameOf` and `fileOf`, or else the upload fails
      by_cases hsize : size ≤ 0 ∨ size > maxFileNameLen
      · rw [if_pos hsize]
        exact nofun
      · rw [if_neg hsize]
        by_cases hlong : size.toNat + 16 > maxFileNameLen
        · rw [if_pos hlong]
          exact sat_silent rfl hs2 fun h3 _ => nofun
        · rw [if_neg hlong]
          refine (readSock_reads hs2 (by omega)).bind (fun r l3 h3 ⟨hreads3, hr⟩ => ?_)
            (fun l3 h3 ⟨_, hr⟩ => by rcases hr with ⟨_, _, hr, _⟩ | ⟨hr, _⟩ <;> cases hr)
          have htalk3 := htalk2.trans hreads3.talked
          have hs3 := htalk3.stands hs
          rcases hr with ⟨name, input3, hr, hfield3, htook3⟩ | ⟨hr, -⟩
          · cases hr
            rw [htook2.input] at hfield3
            dsimp only
            by_cases hvalid : isValidFname name
            · rw [if_neg (by simp [hvalid])]
              have hname : nameOf l.input = some (name, input3) := by
                simp [nameOf, hfield, hsize, hfield3, hvalid]
              by_cases hsep : sep ∈ getBaseName (cstr name)
              · rw [if_pos hsep]
                exact nofun
              · rw [if_neg hsep]
                exact (storeFile_free hs3 (htalk3.tmp.trans ht)
                  (htalk3.dests.trans hd) hst hsep _).mono
                  fun a l' h' hpost ha => by
                    obtain ⟨d, rest, moved, hcontent, hdel⟩ := hpost ha
                    refine ⟨_, rest, moved, ?_, hdel⟩
                    rw [htook3.input] at hcontent
                    simp [fileOf, hname, hcontent]
            · rw [if_pos (by simp [hvalid])]
              exact nofun
          · cases hr
            exact nofun
    · cases hr
      exact nofun

end ClipShare
