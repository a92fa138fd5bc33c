import ClipShare.Interaction.Contract
import ClipShare.Posix.Tree
import ClipShare.Server.Methods

namespace ClipShare

open Interaction Posix

/-!
# What belongs to an upload

Several uploads work in one directory.  Each owns its temporary directory and, where results are
to be protected, what it has put into the working directory.  This file states what an upload
relies on and what it guarantees.

* `Session.Owns` — the locations that belong to a session;
* `Session.Stands` — what holds of a session between its calls: what it owns exists;
* `Rely` / `Guar` / `uploading` — the contract of an upload;
* `Guar.silent`, `sat_silent` — calls that leave the tree alone.

The contract has a mode.  Where the results are not protected only the temporary directory is; where
they are, a name that was found absent also stays so until it is used.  The parameter `moves` says
what is known of everything that is moved.
-/

/-- What the sessions that run together know of each other: are results protected as well as
    temporary directories, and is there only one session? -/
structure Mode where
  strict : Bool
  solo : Bool

/-! ### Locations -/

/-- An entry of the working directory that an upload may make: not the configuration file of a
    server that runs where it was started. -/
def TopLevel (env : Env) (cwd q : Path) : Prop :=
  ∃ n, q = cwd ++ [n] ∧ (env.configuration.workingDir = none → n ≠ configFile)

/-- The locations that belong to a session. -/
def Session.Owns (mode : Mode) (l : Session) (p : Path) : Prop :=
  (∃ t, l.tmp = some t ∧ t <+: p) ∨ mode.strict = true ∧ ∃ d ∈ l.dests, d <+: p

/-- The inode is at this location and nowhere else. -/
def Sole (fs : FileSystem) (ino : Nat) (q : Path) : Prop :=
  ∀ p d, fs.node p = some (.file ino d) → p = q

/-- What a session owns exists, in a working directory that exists. -/
structure Session.Stands (mode : Mode) (env : Env) (l : Session) (h : Host) : Prop where
  cwd : h.fs.node h.cwd = some .dir
  tmp : ∀ t, l.tmp = some t → TopLevel env h.cwd t ∧ h.fs.node t = some .dir
  dests : mode.strict = true → ∀ d ∈ l.dests, TopLevel env h.cwd d ∧ (h.fs.node d).isSome
  apart : mode.strict = true → ∀ d ∈ l.dests, l.tmp ≠ some d

/-- The location at which a call may create an entry. -/
def Call.target (h : Host) : Call → Option Path
  | .mkdir path | .openWrite path | .rename _ path => some (h.locate path)
  | _ => none

/-- Does the call make a directory? -/
def Call.isMkdir : Call → Bool
  | .mkdir _ => true
  | _ => false

/-! ### The contract -/

/-- What a session relies on while it is about to issue a call. -/
structure Rely (mode : Mode) (c : Option Call) (l : Session) (h h' : Host) : Prop where
  cwd : h'.cwd = h.cwd
  alone : mode.solo = true → h' = h
  dir : h.fs.node h.cwd = some .dir → h'.fs.node h.cwd = some .dir
  owned : ∀ p, l.Owns mode p → h'.fs.node p = h.fs.node p
  sole : ∀ q ino d, l.Owns mode q → h.fs.node q = some (.file ino d) → Sole h.fs ino q →
    Sole h'.fs ino q
  held : mode.strict = true ∨ l.tmp = none → (∀ c', c = some c' → c'.isMkdir = false) →
    ∀ q, l.held = some q → h.fs.node q = none → h'.fs.node q = none

/-- The call creates the entry `q` of the working directory, at the location that was found
    absent. -/
structure Creates (mode : Mode) (env : Env) (c : Call) (s : Session × Host) (q : Path) :
    Prop where
  held : s.1.held = some q
  top : TopLevel env s.2.cwd q
  target : c.target s.2 = some q
  absent : mode.strict = true ∨ c.isMkdir = true → s.2.fs.node q = none

/-- What a session guarantees of each of its steps. -/
structure Guar (mode : Mode) (env : Env) (moves : Host → Path → Prop) (c : Call)
    (s s' : Session × Host) : Prop where
  cwd : s'.2.cwd = s.2.cwd
  stands : s'.1.Stands mode env s'.2
  frame : ∀ p, s'.2.fs.node p = s.2.fs.node p ∨ s.1.Owns mode p ∨
    ∃ q, Creates mode env c s q ∧ q <+: p ∧ (mode.strict = true → s'.1.Owns mode p)
  inodes : ∀ p ino d, s'.2.fs.node p = some (.file ino d) →
    (∃ e, s.2.fs.node p = some (.file ino e)) ∨
      (∃ q e, s.1.Owns mode q ∧ s.2.fs.node q = some (.file ino e)) ∨ s.2.fs.nextIno ≤ ino
  sizes : ∀ p ino d, s'.2.fs.node p = some (.file ino d) →
    (d.length : Int) ≤ env.configuration.maxFileSize ∨ ∃ q, s.2.fs.node q = some (.file ino d)
  tmp : ∀ t, s'.1.tmp = some t →
    s.1.tmp = some t ∨ s.1.tmp = none ∧ c.isMkdir = true ∧ Creates mode env c s t
  dests : ∀ d ∈ s'.1.dests, d ∈ s.1.dests ∨ c.isMkdir = false ∧ Creates mode env c s d
  gone : ∀ p, s.1.Owns mode p → ¬ s'.1.Owns mode p → s'.2.fs.node p = none
  held : ∀ q, s'.1.held = some q →
    (s.1.held = some q ∧ c.isMkdir = false ∧ s'.1.tmp = s.1.tmp) ∨
      (s'.2.fs.node q = none ∧ TopLevel env s.2.cwd q) ∨ ∃ t, s'.1.tmp = some t ∧ t <+: q
  moves : ∀ old new src, c = .rename old new → s.2.fs.resolve s.2.cwd old = some src →
    moves s.2 src ∧ ∃ t, s.1.tmp = some t ∧ t <+: src

theorem Rely.refl (mode : Mode) (c : Option Call) (l : Session) (h : Host) :
    Rely mode c l h h :=
  ⟨rfl, fun _ => rfl, id, fun _ _ => rfl, fun _ _ _ _ _ hs => hs, fun _ _ _ _ hq => hq⟩

theorem Rely.trans {mode : Mode} {c : Option Call} {l : Session} {h h' h'' : Host}
    (h1 : Rely mode c l h h') (h2 : Rely mode c l h' h'') : Rely mode c l h h'' where
  cwd := h2.cwd.trans h1.cwd
  alone hsolo := (h2.alone hsolo).trans (h1.alone hsolo)
  dir hd := h1.cwd ▸ h2.dir (h1.cwd ▸ h1.dir hd)
  owned p hp := (h2.owned p hp).trans (h1.owned p hp)
  sole q ino d hq hd hs := h2.sole q ino d hq ((h1.owned q hq).trans hd) (h1.sole q ino d hq hd hs)
  held hst hc q hq hn := h2.held hst hc q hq (h1.held hst hc q hq hn)

/-- The contract of an upload. -/
def uploading (mode : Mode) (env : Env) (moves : Host → Path → Prop) :
    Contract Calls Session Host where
  rely := Rely mode
  guar := Guar mode env moves
  refl := Rely.refl mode
  trans := Rely.trans

variable {mode : Mode} {env : Env} {moves : Host → Path → Prop} {l l' : Session} {h h' : Host}

/-! ### What the others leave alone -/

theorem Session.owns_tmp {t p : Path} (ht : l.tmp = some t) (hp : t <+: p) : l.Owns mode p :=
  .inl ⟨t, ht, hp⟩

theorem Session.owns_dest (hst : mode.strict = true) {d p : Path} (hd : d ∈ l.dests)
    (hp : d <+: p) : l.Owns mode p :=
  .inr ⟨hst, d, hd, hp⟩

/-- The locations of a session belong to it as long as it has the same directory and results. -/
theorem Session.owns_congr (ht : l'.tmp = l.tmp) (hd : l'.dests = l.dests) (p : Path) :
    l'.Owns mode p ↔ l.Owns mode p := by
  unfold Session.Owns
  rw [ht, hd]

theorem Session.Stands.congr (hs : l.Stands mode env h) (ht : l'.tmp = l.tmp)
    (hd : l'.dests = l.dests) : l'.Stands mode env h :=
  ⟨hs.cwd, fun t h => hs.tmp t (ht ▸ h), fun hst d h => hs.dests hst d (hd ▸ h),
    fun hst d h => ht ▸ hs.apart hst d (hd ▸ h)⟩

theorem Session.Stands.rely (hs : l.Stands mode env h) {c : Option Call}
    (hr : Rely mode c l h h') : l.Stands mode env h' where
  cwd := by rw [hr.cwd]; exact hr.dir hs.cwd
  tmp t ht := by
    rw [hr.cwd, hr.owned t (Session.owns_tmp ht List.prefix_rfl)]
    exact hs.tmp t ht
  dests hst d hd := by
    rw [hr.cwd, hr.owned d (Session.owns_dest hst hd List.prefix_rfl)]
    exact hs.dests hst d hd
  apart := hs.apart

/-! ### Calls that leave the tree alone -/

/-- A step that leaves the tree, the own directory and the results alone. -/
theorem Guar.silent {c : Call} (hs : l.Stands mode env h) (ht : l'.tmp = l.tmp)
    (hd : l'.dests = l.dests)
    (hheld : ∀ q, l'.held = some q → (l.held = some q ∧ c.isMkdir = false) ∨
      (h.fs.node q = none ∧ TopLevel env h.cwd q) ∨ ∃ t, l.tmp = some t ∧ t <+: q)
    (hm : ∀ old new src, c = .rename old new → h.fs.resolve h.cwd old = some src →
      moves h src ∧ ∃ t, l.tmp = some t ∧ t <+: src) :
    Guar mode env moves c (l, h) (l', h) where
  cwd := rfl
  stands := hs.congr ht hd
  frame _ := .inl rfl
  inodes _ _ d hp := .inl ⟨d, hp⟩
  sizes p _ _ hp := .inr ⟨p, hp⟩
  tmp t htmp := .inl (ht ▸ htmp)
  dests d hmem := .inl (hd ▸ hmem)
  gone p ho hn := absurd ((Session.owns_congr ht hd p).mpr ho) hn
  held q hq := by
    rcases hheld q hq with ⟨h1, h2⟩ | h1 | ⟨t, h1, h2⟩
    · exact .inl ⟨h1, h2, ht⟩
    · exact .inr (.inl h1)
    · exact .inr (.inr ⟨t, ht.trans h1, h2⟩)
  moves := hm

/-- The calls of an upload that never touch the tree, `access` aside. -/
def Call.silent : Call → Bool
  | .readSock _ | .writeSock _ | .closeSocket _ _ | .time | .rand | .stat _ | .readDir _
  | .error _ => true
  | _ => false

/-- What a session keeps when it issues a silent call. -/
structure Session.Kept (l l' : Session) : Prop where
  oracle : l'.oracle = l.oracle
  tmp : l'.tmp = l.tmp
  dests : l'.dests = l.dests
  held : l'.held = l.held ∨ l'.held = none

theorem respond_silent {c : Call} (hc : c.silent = true) (l : Session) (h : Host) :
    l.Kept (respond c (l, h)).2.1 ∧ (respond c (l, h)).2.2 = h := by
  have hkept : l.Kept l.tick := ⟨rfl, rfl, rfl, .inl rfl⟩
  cases c with
  | readSock n =>
    rw [respond_readSock]
    unfold Session.readSock
    split_ifs <;> exact ⟨⟨rfl, rfl, rfl, .inl rfl⟩, rfl⟩
  | writeSock data =>
    rw [respond_writeSock]
    unfold Session.writeSock
    split_ifs
    · exact ⟨hkept, rfl⟩
    · exact ⟨hkept, rfl⟩
    · split <;> exact ⟨⟨rfl, rfl, rfl, .inl rfl⟩, rfl⟩
  | closeSocket await shutdown =>
    rw [respond_closeSocket]
    unfold Session.closeSocket
    split <;> exact ⟨⟨rfl, rfl, rfl, .inl rfl⟩, rfl⟩
  | readDir path =>
    simp only [respond, Call.failed]
    split
    · exact ⟨⟨rfl, rfl, rfl, .inr rfl⟩, rfl⟩
    · exact ⟨hkept, rfl⟩
  | time => rw [respond_of_failed_none rfl]; exact ⟨hkept, rfl⟩
  | rand => rw [respond_of_failed_none rfl]; exact ⟨hkept, rfl⟩
  | stat path => rw [respond_of_failed_none rfl]; exact ⟨hkept, rfl⟩
  | error msg => rw [respond_error]; exact ⟨⟨rfl, rfl, rfl, .inl rfl⟩, rfl⟩
  | _ => cases hc

/-- The rule for silent calls. -/
theorem sat_silent {α : Type} {c : Call} {k : c.Resp → Proc α}
    {Q : Option α → Session → Host → Prop} (hc : c.silent = true) (hs : l.Stands mode env h)
    (hk : ∀ h', Rely mode (some c) l h h' →
      (k (respond c (l, h')).1).Sat respond (uploading mode env moves)
        (respond c (l, h')).2.1 h' Q) :
    (Prog.call (S := Calls) c k).Sat respond (uploading mode env moves) l h Q := by
  intro h' hr
  obtain ⟨hkept, hhost⟩ := respond_silent hc l h'
  have hnot : c.isMkdir = false := by cases c <;> first | rfl | cases hc
  refine ⟨?_, by rw [hhost]; exact hk h' hr⟩
  rw [show (respond c (l, h')).2 = ((respond c (l, h')).2.1, h') from Prod.ext rfl hhost]
  refine Guar.silent (hs.rely hr) hkept.tmp hkept.dests (fun q hq => ?_) ?_
  · rcases hkept.held with hh | hh
    · exact .inl ⟨hh ▸ hq, hnot⟩
    · rw [hh] at hq; cases hq
  · rintro old new src rfl
    cases hc

end ClipShare
