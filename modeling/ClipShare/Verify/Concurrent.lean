import ClipShare.Verify.Containment
import Mathlib.Data.Fintype.Basic

namespace ClipShare

open Interaction Posix

/-!
# Several uploads at a time

Uploads are forked processes that share the working directory.  Their steps interleave in any way.

* `Apart` — the invariant of uploads that run together: no location belongs to two of them;
* `Undisturbed` — the condition on a step: it does not create what another upload has found absent;
* `Apart.step` — such a step keeps the invariant and is what the other uploads rely on;
* `uploads_separate` — every upload has a temporary directory of its own;
* `uploads_kept` — no upload loses a file to another one.
-/

/-- Uploads that run together. -/
abbrev Uploads (ι : Type) := Pool Calls ι Status Session Host

variable {ι : Type} {mode : Mode} {env : Env} {s : Uploads ι}

/-! ### The invariant -/

/-- The next call of the program makes a directory, and fails if something is there. -/
def Mkdirs (p : Proc Status) : Prop := p.pending.any Call.isMkdir = true

instance (p : Proc Status) : Decidable (Mkdirs p) :=
  inferInstanceAs (Decidable (p.pending.any Call.isMkdir = true))

/-- The location at which the next step of an upload may create an entry. -/
def creating (s : Uploads ι) (i : ι) : Option Path :=
  (s.prog i).pending.bind (Call.target s.shared)

/-- No location belongs to two of the uploads, and none of them is about to use a name that belongs
    to another one. -/
structure Apart (mode : Mode) (env : Env) (s : Uploads ι) : Prop where
  stands : ∀ i, (s.own i).Stands mode env s.shared
  disjoint : ∀ i j p, i ≠ j → (s.own i).Owns mode p → ¬ (s.own j).Owns mode p
  top : ∀ i q, (s.own i).held = some q →
    TopLevel env s.shared.cwd q ∨ ∃ t, (s.own i).tmp = some t ∧ t <+: q
  held : ∀ i j q, i ≠ j → (s.own i).held = some q → (s.own j).Owns mode q → Mkdirs (s.prog i)

/-- **The condition on a step.**  What the upload creates or overwrites is nothing that another one
    has found absent and not used yet, unless that one is just about to make a directory there.
    Where only temporary directories matter, this is asked only while one of the two has none. -/
def Undisturbed (mode : Mode) (s : Uploads ι) (i : ι) : Prop :=
  ∀ j, j ≠ i → ∀ q ∈ creating s i, (s.own j).held = some q →
    mode.strict = true ∨ (s.own i).tmp = none ∨ (s.own j).tmp = none → Mkdirs (s.prog j)

instance [Fintype ι] [DecidableEq ι] (mode : Mode) (s : Uploads ι) (i : ι) :
    Decidable (Undisturbed mode s i) :=
  inferInstanceAs (Decidable (∀ j, j ≠ i → ∀ q ∈ creating s i, (s.own j).held = some q →
    mode.strict = true ∨ (s.own i).tmp = none ∨ (s.own j).tmp = none → Mkdirs (s.prog j)))

/-! ### One step -/

/-- There is only one entry of the working directory that a location lies in. -/
theorem TopLevel.unique {cwd q r p : Path} (hq : TopLevel env cwd q) (hr : TopLevel env cwd r)
    (hqp : q <+: p) (hrp : r <+: p) : q = r := by
  obtain ⟨n, rfl, -⟩ := hq
  obtain ⟨m, rfl, -⟩ := hr
  have hlen : (cwd ++ [n]).length = (cwd ++ [m]).length := by simp
  exact (List.prefix_of_prefix_length_le hqp hrp hlen.le).eq_of_length hlen

variable {l : Session} {h : Host}

/-- A location that belongs to a session lies in an entry of the working directory that does, too,
    and that is there. -/
theorem Session.Stands.root (hs : l.Stands mode env h) {p : Path} (ho : l.Owns mode p) :
    ∃ r, TopLevel env h.cwd r ∧ r <+: p ∧ l.Owns mode r ∧ h.fs.node r ≠ none := by
  rcases ho with ⟨t, ht, hp⟩ | ⟨hst, d, hd, hp⟩
  · refine ⟨t, (hs.tmp t ht).1, hp, Session.owns_tmp ht List.prefix_rfl, ?_⟩
    rw [(hs.tmp t ht).2]
    nofun
  · obtain ⟨htop, hsome⟩ := hs.dests hst d hd
    exact ⟨d, htop, hp, Session.owns_dest hst hd List.prefix_rfl,
      Option.ne_none_iff_isSome.mpr hsome⟩

variable {moves : Host → Path → Prop} {i : ι} {c : Call} {s' : Session × Host}

theorem creating_eq (hc : (s.prog i).pending = some c) {q : Path}
    (hcr : Creates mode env c (s.own i, s.shared) q) : q ∈ creating s i := by
  rw [creating, hc]
  exact hcr.target

/-- What an upload creates belongs to no other one. -/
theorem Apart.creates (ha : Apart mode env s) (hc : (s.prog i).pending = some c) {j : ι}
    (hj : j ≠ i) {q p : Path} (hcr : Creates mode env c (s.own i, s.shared) q) (hqp : q <+: p) :
    ¬ (s.own j).Owns mode p := by
  intro ho
  obtain ⟨r, htop, hrp, hown, hsome⟩ := (ha.stands j).root ho
  have hqr : q = r := hcr.top.unique htop hqp hrp
  subst hqr
  -- the other one may have made it in the meantime, but then this one makes a directory
  have hmk : c.isMkdir = true := by
    simpa [Mkdirs, hc] using ha.held i j q hj.symm hcr.held hown
  exact hsome (hcr.absent (.inr hmk))

/-- A guaranteed step is what the other uploads rely on. -/
theorem Apart.rely (ha : Apart mode env s) (hsolo : mode.solo = false)
    (hc : (s.prog i).pending = some c) (hC : Undisturbed mode s i)
    (hg : Guar mode env moves c (s.own i, s.shared) s') {j : ι} (hj : j ≠ i) :
    Rely mode (s.prog j).pending (s.own j) s.shared s'.2 where
  cwd := hg.cwd
  alone hm := by rw [hsolo] at hm; cases hm
  dir _ := by
    have hcwd := hg.stands.cwd
    rw [hg.cwd] at hcwd
    exact hcwd
  owned p ho := by
    -- what others own is neither owned by this upload nor created by its step
    rcases hg.frame p with h1 | h1 | ⟨q, hcr, hqp, -⟩
    · exact h1
    · exact absurd ho (ha.disjoint i j p hj.symm h1)
    · exact absurd ho (ha.creates hc hj hcr hqp)
  sole q ino d ho hq hsole p d' hp := by
    rcases hg.inodes p ino d' hp with ⟨e, h1⟩ | ⟨q', e, hown, h1⟩ | h1
    · exact hsole p e h1
    · have hqq : q' = q := hsole q' e h1
      subst hqq
      exact absurd ho (ha.disjoint i j q' hj.symm hown)
    · exact absurd h1 (not_le.mpr (s.shared.fs.fresh q ino d hq))
  held hst hnot q hheld hnone := by
    -- a name that was found free stays free unless its holder is about to make a directory
    have hmk : ¬ Mkdirs (s.prog j) := by
      intro hmk
      obtain ⟨c', hc', hmk⟩ := (Option.any_eq_true _ _).mp hmk
      rw [hnot c' hc'] at hmk
      cases hmk
    rcases hg.frame q with h1 | h1 | ⟨r, hcr, hrq, -⟩
    · exact h1.trans hnone
    · obtain ⟨r, htop, hrq, hown, hsome⟩ := (ha.stands i).root h1
      rcases ha.top j q hheld with hq | ⟨t, ht, hq⟩
      · rw [htop.unique hq hrq List.prefix_rfl] at hsome
        exact absurd hnone hsome
      · exact absurd (Session.owns_tmp ht hq) (ha.disjoint i j q hj.symm h1)
    · rcases ha.top j q hheld with hq | ⟨t, ht, hq⟩
      · rw [hcr.top.unique hq hrq List.prefix_rfl] at hcr
        exact absurd (hC j hj q (creating_eq hc hcr) hheld (hst.imp_right .inr)) hmk
      · exact absurd (Session.owns_tmp ht hq) (ha.creates hc hj hcr hrq)

/-- What belongs to an upload after its step belonged to it before, or lies in what it created. -/
theorem Guar.owns (hg : Guar mode env moves c (l, h) s') {p : Path} (ho : s'.1.Owns mode p) :
    l.Owns mode p ∨ ∃ q, Creates mode env c (l, h) q ∧ q <+: p ∧
      (mode.strict = true ∨ l.tmp = none) := by
  rcases ho with ⟨t, ht, hp⟩ | ⟨hst, d, hd, hp⟩
  · rcases hg.tmp t ht with h1 | ⟨hnone, -, hcr⟩
    · exact .inl (Session.owns_tmp h1 hp)
    · exact .inr ⟨t, hcr, hp, .inr hnone⟩
  · rcases hg.dests d hd with h1 | ⟨-, hcr⟩
    · exact .inl (Session.owns_dest hst h1 hp)
    · exact .inr ⟨d, hcr, hp, .inl hst⟩

variable [DecidableEq ι]

/-- **Step lemma.**  A guaranteed step that meets the condition keeps the uploads apart. -/
theorem Apart.step (ha : Apart mode env s) (hsolo : mode.solo = false) {k : c.Resp → Proc Status}
    (hc : s.prog i = .call c k) (hC : Undisturbed mode s i)
    (hg : Guar mode env moves c (s.own i, s.shared) (respond c (s.own i, s.shared)).2) :
    Apart mode env (s.step respond i) := by
  have hpend : (s.prog i).pending = some c := by rw [hc]; rfl
  have hrely : ∀ j, j ≠ i → Rely mode (s.prog j).pending (s.own j) s.shared
      (respond c (s.own i, s.shared)).2.2 := fun j hj => ha.rely hsolo hpend hC hg hj
  -- the locations of the other uploads are still theirs alone
  have hother : ∀ j, j ≠ i → ∀ p, (s.own j).Owns mode p →
      ¬ (respond c (s.own i, s.shared)).2.1.Owns mode p := by
    intro j hj p ho ho'
    rcases hg.owns ho' with h1 | ⟨q, hcr, hqp, -⟩
    · exact ha.disjoint i j p hj.symm h1 ho
    · exact ha.creates hpend hj hcr hqp ho
  rw [Pool.step_of_call hc]
  constructor
  case stands =>
    intro j
    by_cases hj : j = i
    · subst hj
      simp only [Function.update_self]
      exact hg.stands
    · simp only [Function.update_of_ne hj]
      exact (ha.stands j).rely (hrely j hj)
  case disjoint =>
    intro j k p hjk
    by_cases hj : j = i
    · subst hj
      simp only [Function.update_self, Function.update_of_ne hjk.symm]
      exact fun h1 h2 => hother k hjk.symm p h2 h1
    · by_cases hk : k = i
      · subst hk
        simp only [Function.update_self, Function.update_of_ne hj]
        exact hother j hj p
      · simp only [Function.update_of_ne hj, Function.update_of_ne hk]
        exact ha.disjoint j k p hjk
  case top =>
    intro j q
    by_cases hj : j = i
    · subst hj
      simp only [Function.update_self]
      intro hq
      rw [hg.cwd]
      rcases hg.held q hq with ⟨h1, -, htmp⟩ | ⟨-, h1⟩ | h1
      · rw [htmp]
        exact ha.top j q h1
      · exact .inl h1
      · exact .inr h1
    · simp only [Function.update_of_ne hj]
      rw [hg.cwd]
      exact ha.top j q
  case held =>
    intro j k q hjk
    by_cases hj : j = i
    · subst hj
      simp only [Function.update_self, Function.update_of_ne hjk.symm]
      intro hq ho
      rcases hg.held q hq with ⟨h1, hnot, -⟩ | ⟨hnone, htop⟩ | ⟨t, ht, htq⟩
      · have hmk : c.isMkdir = true := by simpa [Mkdirs, hpend] using ha.held j k q hjk h1 ho
        rw [hnot] at hmk
        cases hmk
      · -- what was found absent is not there, but what belongs to an upload is
        obtain ⟨r, hr, hrq, -, hsome⟩ := ((ha.stands k).rely (hrely k hjk.symm)).root ho
        rw [(hrely k hjk.symm).cwd] at hr
        rw [hr.unique htop hrq List.prefix_rfl] at hsome
        exact absurd hnone hsome
      · exact absurd (Session.owns_tmp ht htq) (hother k hjk.symm q ho)
    · by_cases hk : k = i
      · subst hk
        simp only [Function.update_self, Function.update_of_ne hj]
        intro hq ho
        rcases hg.owns ho with h1 | ⟨r, hcr, hrq, hmode⟩
        · exact ha.held j k q hjk hq h1
        · rcases ha.top j q hq with h1 | ⟨t, ht, h1⟩
          · rw [hcr.top.unique h1 hrq List.prefix_rfl] at hcr
            exact hC j hj q (creating_eq hpend hcr) hq (hmode.imp_right .inl)
          · exact absurd (Session.owns_tmp ht h1) (ha.creates hpend hj hcr hrq)
      · simp only [Function.update_of_ne hj, Function.update_of_ne hk]
        exact ha.held j k q hjk

/-! ### Runs -/

/-- Uploads that start in a working directory. -/
def uploads (method : ι → Proc Status) (input : ι → Bytes) (oracle : ι → Oracle) (h : Host) :
    Uploads ι where
  prog := method
  own i := .fresh (input i) (oracle i)
  shared := h

variable {method : ι → Proc Status} {input : ι → Bytes} {oracle : ι → Oracle}
variable {moves : ι → Host → Path → Prop} {Q : ι → Option Status → Session → Host → Prop}

/-- **Run lemma.**  In every run whose steps meet the condition the uploads stay apart and keep
    their contracts. -/
theorem Apart.run (hsolo : mode.solo = false) (hcwd : h.fs.node h.cwd = some .dir)
    (hsat : ∀ i, (method i).Sat respond (uploading mode env (moves i))
      (.fresh (input i) (oracle i)) h (Q i)) {sched : List ι}
    (hC : Pool.Meets respond (Undisturbed mode) (uploads method input oracle h) sched) :
    Apart mode env ((uploads method input oracle h).run respond sched) ∧
      ((uploads method input oracle h).run respond sched).Ok respond
        (fun i => uploading mode env (moves i)) Q := by
  have hstart : Apart mode env (uploads method input oracle h) := by
    refine ⟨fun i => Session.fresh_stands mode (input i) (oracle i) hcwd, ?_, fun _ _ => nofun,
      fun _ _ _ _ => nofun⟩
    rintro i j p - (⟨t, ht, -⟩ | ⟨-, d, hd, -⟩)
    · cases ht
    · cases hd
  refine Pool.run_sound (fun s i c k hc ha hCi hg => ?_) hstart (fun i => ?_) hC
  · refine ⟨ha.step hsolo hc hCi hg, fun j hj => ?_⟩
    have hpend : (s.prog i).pending = some c := by rw [hc]; rfl
    have hrely := ha.rely hsolo hpend hCi hg hj
    rw [Pool.step_of_call hc]
    exact hrely
  · exact ⟨h, Rely.refl _ _ _ _, hsat i⟩

/-! ### Temporary directories -/

/-- Only the temporary directories are protected. -/
abbrev Mode.dirs : Mode := ⟨false, false⟩

/-- What one upload, about to take a step, and the others have to do with each other: it has a
    temporary directory of its own, its step leaves those of the others alone, it moves nothing but
    what its own client sent, and if it has succeeded it has moved all of that, but for what could
    not be moved and is still in its own temporary directory. -/
structure Separate (env : Env) (version : ι → Nat) (input : ι → Bytes) (s : Uploads ι) (i : ι) :
    Prop where
  apart : ∀ j t, j ≠ i → (s.own j).tmp = some t → (s.own i).tmp ≠ some t
  untouched : ∀ j t p, j ≠ i → (s.own j).tmp = some t → t <+: p →
    (s.step respond i).shared.fs.node p = s.shared.fs.node p
  ships : ∀ old new src, (s.prog i).pending = some (.rename old new) →
    s.shared.fs.resolve s.shared.cwd old = some src →
    Ships env (version i) (input i) s.shared src ∧ ∃ t, (s.own i).tmp = some t ∧ t <+: src
  delivered : (s.prog i).returned = some .success → ∃ fs rest moved,
    uploadOf env (version i) (input i) = some (fs, rest) ∧
      Delivered .dirs env (Tree.build fs) moved (s.own i) s.shared

/-- **Temporary directories are separate.**  In every run of uploads whose steps meet the condition,
    each upload saves what its client sends in a directory of its own, and moves from there to the
    working directory what its client sent and nothing else. -/
theorem uploads_separate (env : Env) (version : ι → Nat) (input : ι → Bytes) (oracle : ι → Oracle)
    {h : Host} (hcwd : h.fs.node h.cwd = some .dir) (sched : List ι) (i : ι)
    (hC : Pool.Meets respond (Undisturbed .dirs)
      (uploads (fun i => sendFilesDirs env (version i)) input oracle h) (sched ++ [i])) :
    Separate env version input
      ((uploads (fun i => sendFilesDirs env (version i)) input oracle h).run respond sched) i := by
  rw [Pool.meets_append] at hC
  obtain ⟨hmeets, hCi, -⟩ := hC
  have hsat : ∀ i, (sendFilesDirs env (version i)).Sat respond
      (uploading .dirs env (Ships env (version i) (input i))) (.fresh (input i) (oracle i)) h _ :=
    fun i => sendFilesDirs_delivers (Session.fresh_stands .dirs (input i) (oracle i) hcwd) rfl rfl
      (version i)
  -- what the run keeps: owned places are apart, and every program meets its contract
  obtain ⟨ha, hok⟩ := Apart.run rfl hcwd hsat hmeets
  generalize (uploads (fun i => sendFilesDirs env (version i)) input oracle h).run respond sched = s
    at hCi ha hok ⊢
  constructor
  case apart =>
    intro j t hj ht ht'
    exact ha.disjoint j i t hj (Session.owns_tmp ht List.prefix_rfl)
      (Session.owns_tmp ht' List.prefix_rfl)
  case untouched =>
    intro j t p hj ht hp
    cases hprog : s.prog i with
    | call c k =>
      have hpend : (s.prog i).pending = some c := by rw [hprog]; rfl
      have hrely := ha.rely rfl hpend hCi (hok.step hprog).1 hj
      rw [Pool.step_of_call hprog]
      exact hrely.owned p (Session.owns_tmp ht hp)
    | ret a => rw [Pool.step_of_ne_call (by rw [hprog]; rfl)]
    | spin => rw [Pool.step_of_ne_call (by rw [hprog]; rfl)]
  case ships =>
    intro old new src hpend hsrc
    cases hprog : s.prog i with
    | call c k =>
      rw [hprog] at hpend
      have hc : c = .rename old new := Option.some.inj hpend
      exact (hok.step hprog).1.moves old new src hc hsrc
    | ret a => rw [hprog] at hpend; cases hpend
    | spin => rw [hprog] at hpend; cases hpend
  case delivered =>
    intro hret
    obtain ⟨h1, hr, hsucc, -⟩ := hok.result hret
    obtain ⟨fs, rest, moved, hup, hdel⟩ := hsucc rfl
    exact ⟨fs, rest, moved, hup, hdel.rely hr⟩

/-- What a client sends to upload one file with one byte in it. -/
def fileUpload (name byte : UInt8) : Bytes :=
  sizeBytes 8 1 ++ sizeBytes 8 1 ++ [name] ++ sizeBytes 8 1 ++ [byte]

/-- The clients of two uploads. -/
def twoClients (input1 input2 : Bytes) : Bool → Bytes
  | true => input1
  | false => input2

/-- Two uploads of version 4 in the same second: `a`, and `b`. -/
def twoUploads : Uploads Bool :=
  uploads (fun _ => sendFilesDirs .default 4)
    (twoClients (fileUpload 0x61 0x78) (fileUpload 0x62 0x79)) (fun _ => .calm) .empty

/-- The first upload takes some steps, and then they take turns. -/
def inTurns (k n : Nat) : List Bool :=
  List.replicate k true ++ (List.replicate n [false, true]).flatten

/-- The second upload looks for a name until `./0`, which the first one has made, is gone. -/
theorem uploads_separate_turns :
    (∀ i, ((twoUploads.run respond (inTurns 6 46)).prog i).returned = some .success) ∧
      ∀ i, Separate .default (fun _ => 4)
        (twoClients (fileUpload 0x61 0x78) (fileUpload 0x62 0x79))
        (twoUploads.run respond (inTurns 6 46)) i := by
  have hmeets : ∀ i, Pool.Meets respond (Undisturbed .dirs) twoUploads (inTurns 6 46 ++ [i]) := by
    decide +kernel
  exact ⟨by decide +kernel, fun i => uploads_separate .default (fun _ => 4) _ _ rfl _ i (hmeets i)⟩

/-- Both uploads find that there is no `./0`.  The first one makes it, and the second one, which
    tests once more in `mkdirs`, saves its file there.  The first one then lists both files. -/
def sharingSchedule : List Bool :=
  List.replicate 5 true ++ List.replicate 5 false ++ List.replicate 5 true ++
    List.replicate 11 false ++ List.replicate 13 true

/-- The first upload moves the file of the second. -/
theorem uploads_share_directory : ¬ ∀ (sched : List Bool) (i : Bool),
    Separate .default (fun _ => 4) (twoClients (fileUpload 0x61 0x78) (fileUpload 0x62 0x79))
      (twoUploads.run respond sched) i := by
  intro hall
  have hpend : ((twoUploads.run respond sharingSchedule).prog true).pending =
      some (.rename (ascii "./0/b") (ascii "./b")) := by decide +kernel
  have hsrc : (twoUploads.run respond sharingSchedule).shared.fs.resolve
      (twoUploads.run respond sharingSchedule).shared.cwd (ascii "./0/b") =
        some [ascii "0", ascii "b"] := by decide +kernel
  have hcwd : (twoUploads.run respond sharingSchedule).shared.cwd = [] := by decide +kernel
  obtain ⟨⟨fs, rest, x, n, hup, hpath, hsome, -⟩, -⟩ :=
    (hall sharingSchedule true).ships _ _ _ hpend hsrc
  -- what the first client has sent
  have hsent : uploadOf .default 4 (fileUpload 0x61 0x78) =
      some ([([ascii "a"], .file (ascii "x"))], []) := by decide
  have heq : some (fs, rest) = some ([([ascii "a"], .file (ascii "x"))], []) := hup.symm.trans hsent
  cases heq
  rw [hcwd] at hpath
  have hn : ascii "b" = n := by
    have := (List.cons.inj hpath).2
    exact (List.cons.inj this).1
  subst hn
  rw [Tree.build_file _ _ _ (by simp)] at hsome
  exact hsome (by decide)

/-! ### Results -/

/-- The results of uploads are protected as well. -/
abbrev Mode.results : Mode := ⟨true, false⟩

/-- The upload methods. -/
inductive UploadMethod
  | sendFileV1
  | sendFilesV2
  | sendFilesV3
  | sendFilesV4
  deriving DecidableEq, Repr

namespace UploadMethod

/-- The program of a method. -/
def proc (env : Env) : UploadMethod → Proc Status
  | .sendFileV1 => ClipShare.sendFileV1 env
  | .sendFilesV2 => ClipShare.sendFilesV2 env
  | .sendFilesV3 => ClipShare.sendFilesV3 env
  | .sendFilesV4 => ClipShare.sendFilesV4 env

/-- The entries that a client has sent to a method. -/
def entries (env : Env) (input : Bytes) : UploadMethod → Option (List (Path × Entry) × Bytes)
  | .sendFileV1 => fileOf env input
  | .sendFilesV2 => uploadOf env 2 input
  | .sendFilesV3 => uploadOf env 3 input
  | .sendFilesV4 => uploadOf env 4 input

/-- An upload that succeeds has delivered what its client sent, whatever the method. -/
theorem delivers {h : Host} (hs : l.Stands .results env h) (ht : l.tmp = none) (hd : l.dests = [])
    (method : UploadMethod) :
    (method.proc env).Sat respond (uploading .results env fun _ _ => True) l h (fun a l' h' =>
      a = some .success → ∃ fs rest moved, method.entries env l.input = some (fs, rest) ∧
        Delivered .results env (Tree.build fs) moved l' h') := by
  have hfiles : ∀ version, (sendFilesDirs env version).Sat respond
      (uploading .results env fun _ _ => True) l h (fun a l' h' =>
        a = some .success → ∃ fs rest moved, uploadOf env version l.input = some (fs, rest) ∧
          Delivered .results env (Tree.build fs) moved l' h') :=
    fun version =>
      ((sendFilesDirs_delivers hs ht hd version).mono fun _ _ _ hpost => hpost.1).weaken
      (fun _ _ _ _ hr => hr) fun _ _ _ hg =>
        { hg with moves := fun old new src hc hsrc => ⟨trivial, (hg.moves old new src hc hsrc).2⟩ }
  cases method with
  | sendFileV1 => exact sendFileV1_delivers hs ht hd rfl
  | sendFilesV2 => exact hfiles 2
  | sendFilesV3 => exact hfiles 3
  | sendFilesV4 => exact hfiles 4

end UploadMethod

/-- The place of an entry: where it was moved, or in the directory of the session. -/
theorem Delivered.place {T : Tree} {moved : List (Name × Path)}
    (hd : Delivered mode env T moved l h) (hst : mode.strict = true) (hs : l.Stands mode env h) :
    ∃ place : Name → Path,
      (∀ n, T [n] ≠ none → h.fs.tree (place n) = T.below n ∧ l.Owns mode (place n) ∧
        (TopLevel env h.cwd (place n) ∨
          ¬ l.Unhindered ∧ ∃ t, l.tmp = some t ∧ place n = t ++ [n])) ∧
      ∀ n m, T [n] ≠ none → T [m] ≠ none → place n = place m → n = m := by
  -- the entries that were moved
  have hmoved : ∀ n p, (n, p) ∈ moved → h.fs.tree p = T.below n ∧ l.Owns mode p ∧
      TopLevel env h.cwd p := by
    intro n p hm
    have hmem : p ∈ l.dests := by
      rw [hd.dests]
      exact List.mem_map_of_mem hm
    exact ⟨hd.placed hst _ hm, Session.owns_dest hst hmem List.prefix_rfl, (hs.dests hst p hmem).1⟩
  have hunique : ∀ n m p, (n, p) ∈ moved → (m, p) ∈ moved → n = m := by
    intro n m p hn hm
    have := List.inj_on_of_nodup_map (hd.distinct hst) hn hm rfl
    exact congrArg Prod.fst this
  -- those that are left
  let left : Name → Path → Prop := fun n p =>
    n ∉ moved.map Prod.fst ∧ ∃ t, l.tmp = some t ∧ p = t ++ [n] ∧ h.fs.tree p = T.below n
  have hplace : ∀ n, ∃ p, T [n] ≠ none → (n, p) ∈ moved ∨ left n p := by
    intro n
    by_cases hn : n ∈ moved.map Prod.fst
    · obtain ⟨⟨m, p⟩, hm, rfl⟩ := List.mem_map.mp hn
      exact ⟨p, fun _ => .inl hm⟩
    · rcases hd.rest with ⟨-, hall⟩ | ⟨x, hin⟩
      · exact ⟨[], fun hsome => absurd (hall n hsome) hn⟩
      · refine ⟨h.cwd ++ [x] ++ [n], fun _ => .inr ⟨hn, _, hin.tmp, rfl, ?_⟩⟩
        funext q
        have htree := congrFun hin.tree (n :: q)
        rw [FileSystem.tree] at htree ⊢
        rw [List.append_assoc, List.singleton_append]
        exact htree.trans (if_neg hn)
  choose place hplace using hplace
  refine ⟨place, fun n hn => ?_, fun n m hn hm heq => ?_⟩
  · rcases hplace n hn with h1 | ⟨-, t, ht, h1, htree⟩
    · obtain ⟨h1, h2, h3⟩ := hmoved n _ h1
      exact ⟨h1, h2, .inl h3⟩
    · refine ⟨htree, ?_, .inr ⟨fun hu => ?_, t, ht, h1⟩⟩
      · rw [h1]
        exact Session.owns_tmp ht (List.prefix_append _ _)
      · rw [hd.gone hst hu] at ht
        cases ht
  · -- an entry of the working directory is not an entry of a directory in it
    have hmixed : ∀ a b, T [b] ≠ none → (a, place a) ∈ moved → left b (place b) →
        place a ≠ place b := by
      rintro a b - h1 ⟨-, t, ht, h2, -⟩ heq
      obtain ⟨n1, hn1, -⟩ := (hmoved a _ h1).2.2
      obtain ⟨n2, hn2, -⟩ := (hs.tmp t ht).1
      rw [heq, h2, hn2] at hn1
      have := congrArg List.length hn1
      simp at this
    rcases hplace n hn with h1 | h1
    · rcases hplace m hm with h2 | h2
      · rw [heq] at h1
        exact hunique n m _ h1 h2
      · exact absurd heq (hmixed n m hm h1 h2)
    · rcases hplace m hm with h2 | h2
      · exact absurd heq.symm (hmixed m n hn h2 h1)
      · obtain ⟨-, t, ht, hp, -⟩ := h1
        obtain ⟨-, t', ht', hp', -⟩ := h2
        rw [hp, hp'] at heq
        simpa using (List.append_inj' heq rfl).2

/-- The client of this upload has sent an entry with this name. -/
def ClientSent (env : Env) (method : ι → UploadMethod) (input : ι → Bytes) (i : ι)
    (n : Name) : Prop :=
  ∃ fs rest, (method i).entries env (input i) = some (fs, rest) ∧ Tree.build fs [n] ≠ none

/-- Every entry of the uploads that have succeeded is in the working directory, with its own content
    and at a place of its own: an entry of the working directory or, if it could not be moved there
    because a call has failed or too many names were taken, of the temporary directory of its
    upload. -/
def Kept (env : Env) (method : ι → UploadMethod) (input : ι → Bytes) (s : Uploads ι) : Prop :=
  ∃ place : ι → Name → Path,
    (∀ i, (s.prog i).returned = some .success → ∃ fs rest,
      (method i).entries env (input i) = some (fs, rest) ∧ ∀ n, Tree.build fs [n] ≠ none →
        s.shared.fs.tree (place i n) = (Tree.build fs).below n ∧
          (TopLevel env s.shared.cwd (place i n) ∨
            ¬ (s.own i).Unhindered ∧ ∃ t, (s.own i).tmp = some t ∧ place i n = t ++ [n])) ∧
    ∀ i j n m, (s.prog i).returned = some .success → (s.prog j).returned = some .success →
      ClientSent env method input i n → ClientSent env method input j m →
        place i n = place j m → i = j ∧ n = m

/-- **Results are kept.**  In every run of uploads whose steps meet the condition, every entry of
    the uploads that have succeeded is kept. -/
theorem uploads_kept (env : Env) (method : ι → UploadMethod) (input : ι → Bytes)
    (oracle : ι → Oracle) {h : Host} (hcwd : h.fs.node h.cwd = some .dir) (sched : List ι)
    (hC : Pool.Meets respond (Undisturbed .results)
      (uploads (fun i => (method i).proc env) input oracle h) sched) :
    Kept env method input
      ((uploads (fun i => (method i).proc env) input oracle h).run respond sched) := by
  have hsat : ∀ i, ((method i).proc env).Sat respond (uploading .results env fun _ _ => True)
      (.fresh (input i) (oracle i)) h _ :=
    fun i => (method i).delivers (Session.fresh_stands .results (input i) (oracle i) hcwd) rfl rfl
  obtain ⟨ha, hok⟩ := Apart.run rfl hcwd hsat hC
  generalize (uploads (fun i => (method i).proc env) input oracle h).run respond sched
    = s at ha hok ⊢
  -- the places of each upload
  have hplace : ∀ i, ∃ place : Name → Path, (s.prog i).returned = some .success → ∃ fs rest,
      (method i).entries env (input i) = some (fs, rest) ∧
        (∀ n, Tree.build fs [n] ≠ none → s.shared.fs.tree (place n) = (Tree.build fs).below n ∧
          (s.own i).Owns .results (place n) ∧ (TopLevel env s.shared.cwd (place n) ∨
            ¬ (s.own i).Unhindered ∧ ∃ t, (s.own i).tmp = some t ∧ place n = t ++ [n])) ∧
        ∀ n m, Tree.build fs [n] ≠ none → Tree.build fs [m] ≠ none → place n = place m → n = m := by
    intro i
    by_cases hret : (s.prog i).returned = some .success
    · obtain ⟨h1, hr, hpost⟩ := hok.result hret
      obtain ⟨fs, rest, moved, hsent, hdel⟩ := hpost rfl
      obtain ⟨place, h2, h3⟩ := (hdel.rely hr).place rfl (ha.stands i)
      exact ⟨place, fun _ => ⟨fs, rest, hsent, h2, h3⟩⟩
    · exact ⟨fun _ => [], fun h0 => absurd h0 hret⟩
  choose place hplace using hplace
  refine ⟨place, fun i hret => ?_, fun i j n m hi hj hn hm heq => ?_⟩
  · obtain ⟨fs, rest, hsent, hall, -⟩ := hplace i hret
    exact ⟨fs, rest, hsent, fun n hn => ⟨(hall n hn).1, (hall n hn).2.2⟩⟩
  · obtain ⟨fs, rest, hsent, hall, hinj⟩ := hplace i hi
    obtain ⟨fs', rest', hsent', hn⟩ := hn
    rw [hsent, Option.some.injEq, Prod.mk.injEq] at hsent'
    obtain ⟨rfl, rfl⟩ := hsent'
    by_cases hij : i = j
    · subst hij
      obtain ⟨fs', rest', hsent', hm⟩ := hm
      rw [hsent, Option.some.injEq, Prod.mk.injEq] at hsent'
      obtain ⟨rfl, rfl⟩ := hsent'
      exact ⟨rfl, hinj n m hn hm heq⟩
    · -- what belongs to one upload does not belong to the other
      obtain ⟨fs2, rest2, hsent2, hall2, -⟩ := hplace j hj
      obtain ⟨fs', rest', hsent', hm⟩ := hm
      rw [hsent2, Option.some.injEq, Prod.mk.injEq] at hsent'
      obtain ⟨rfl, rfl⟩ := hsent'
      have howned := (hall2 m hm).2.1
      rw [← heq] at howned
      exact absurd howned (ha.disjoint i j _ hij (hall n hn).2.1)

omit [DecidableEq ι] in
/-- A single file that was sent is somewhere in the tree. -/
theorem Kept.file {method : ι → UploadMethod} {input : ι → Bytes} (hk : Kept env method input s)
    {i : ι} (hret : (s.prog i).returned = some .success) {n : Name} {d rest : Bytes}
    (hsent : (method i).entries env (input i) = some ([([n], .file d)], rest)) :
    ∃ p ∈ s.shared.fs.order, (s.shared.fs.node p).map Node.entry = some (.file d) := by
  obtain ⟨place, hplace, -⟩ := hk
  obtain ⟨fs, rest', hsent', hall⟩ := hplace i hret
  rw [hsent, Option.some.injEq, Prod.mk.injEq] at hsent'
  obtain ⟨rfl, rfl⟩ := hsent'
  have hbuild : Tree.build [([n], .file d)] [n] = some (.file d) :=
    (Tree.build_file n d _ (List.cons_ne_nil n [])).trans (if_pos rfl)
  obtain ⟨htree, -⟩ := hall n (by rw [hbuild]; nofun)
  have hnode : (s.shared.fs.node (place i n)).map Node.entry = some (.file d) := by
    have hat := congrFun htree []
    rw [Tree.below, hbuild, FileSystem.tree, List.append_nil] at hat
    exact hat
  refine ⟨place i n, (FileSystem.mem_order _ _).mpr ⟨fun h0 => ?_, ?_⟩, hnode⟩
  · rw [h0, FileSystem.root] at hnode
    cases hnode
  · rw [← Option.isSome_map (f := Node.entry), hnode]
    rfl

/-- What a client of version 1 sends to upload one file with one byte in it. -/
def fileUploadV1 (name byte : UInt8) : Bytes :=
  sizeBytes 8 1 ++ [name] ++ sizeBytes 8 1 ++ [byte]

/-- Two uploads of a file `a`: with `x` in it, and with `y`. -/
def sameName : Uploads Bool :=
  uploads (fun _ => UploadMethod.sendFileV1.proc .default)
    (twoClients (fileUploadV1 0x61 0x78) (fileUploadV1 0x61 0x79)) (fun _ => .calm) .empty

/-- The first upload has opened `./a` when the second one looks for a name. -/
theorem uploads_kept_turns :
    (∀ i, ((sameName.run respond (inTurns 5 10)).prog i).returned = some .success) ∧
      Kept .default (fun _ => .sendFileV1)
        (twoClients (fileUploadV1 0x61 0x78) (fileUploadV1 0x61 0x79))
        (sameName.run respond (inTurns 5 10)) := by
  have hmeets : Pool.Meets respond (Undisturbed .results) sameName (inTurns 5 10) := by
    decide +kernel
  exact ⟨by decide +kernel, uploads_kept .default (fun _ => .sendFileV1) _ _ rfl _ hmeets⟩

/-- The first upload finds that there is no `a`, the second one runs, and the first one goes on. -/
def overwritingSchedule : List Bool :=
  List.replicate 4 true ++ List.replicate 9 false ++ List.replicate 5 true

/-- The first upload overwrites the file of the second. -/
theorem uploads_overwrite : ¬ ∀ sched : List Bool,
    (∀ i, ((sameName.run respond sched).prog i).returned = some .success) →
      Kept .default (fun _ => .sendFileV1)
        (twoClients (fileUploadV1 0x61 0x78) (fileUploadV1 0x61 0x79))
        (sameName.run respond sched) := by
  intro hall
  have hret : ∀ i, ((sameName.run respond overwritingSchedule).prog i).returned
    = some .success := by
    decide +kernel
  -- what the second client has sent, and that it is nowhere
  have hsent : UploadMethod.sendFileV1.entries .default (fileUploadV1 0x61 0x79) =
      some ([([ascii "a"], .file (ascii "y"))], []) := by decide
  have hnone : ∀ p ∈ (sameName.run respond overwritingSchedule).shared.fs.order,
      ((sameName.run respond overwritingSchedule).shared.fs.node p).map Node.entry ≠
        some (.file (ascii "y")) := by decide
  obtain ⟨p, hp, hfile⟩ := (hall overwritingSchedule hret).file (hret false) hsent
  exact hnone p hp hfile

end ClipShare
