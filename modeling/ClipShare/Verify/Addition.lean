import ClipShare.Verify.Ownership

namespace ClipShare

open Interaction Posix

/-!
# What one upload adds

An upload that runs by itself, with its results protected, only ever adds to the tree.

* `Session.Added` — compared with an earlier host, everything is as it was except for what the
  session owns, and there was nothing at these locations;
* `Added.step` — every guaranteed step preserves this;
* `Added.sat` — it can be added to every postcondition.
-/

/-- One session, whose results are protected. -/
abbrev Mode.single : Mode := ⟨true, true⟩

/-- The tree is that of `h0` with additions of the session. -/
structure Session.Added (env : Env) (h0 : Host) (l : Session) (h : Host) : Prop where
  cwd : h.cwd = h0.cwd
  stands : l.Stands .single env h
  fresh : ∀ p, l.Owns .single p → h0.fs.node p = none
  kept : ∀ p, h.fs.node p = h0.fs.node p ∨ l.Owns .single p
  inodes : ∀ p q ino d e, h.fs.node p = some (.file ino d) → h0.fs.node q = some (.file ino e) →
    (h0.fs.node p).isSome
  sizes : ∀ p ino d, h.fs.node p = some (.file ino d) →
    (d.length : Int) ≤ env.configuration.maxFileSize ∨ ∃ q, h0.fs.node q = some (.file ino d)

variable {env : Env} {moves : Host → Path → Prop} {l l' : Session} {h h' h0 : Host}

/-- A session that has not done anything yet has added nothing. -/
theorem Session.Added.start (hs : l.Stands .single env h) (ht : l.tmp = none) (hd : l.dests = []) :
    l.Added env h h where
  cwd := rfl
  stands := hs
  fresh p ho := by
    rcases ho with ⟨t, h1, -⟩ | ⟨-, d, h1, -⟩
    · rw [ht] at h1
      cases h1
    · rw [hd] at h1
      cases h1
  kept _ := .inl rfl
  inodes p q ino d e hp _ := by rw [hp]; rfl
  sizes p ino d hp := .inr ⟨p, hp⟩

/-- What was there before is still there. -/
theorem Session.Added.present (ha : l.Added env h0 h) {p : Path} {nd : Node}
    (hp : h0.fs.node p = some nd) : h.fs.node p = some nd := by
  rcases ha.kept p with h1 | h1
  · exact h1.trans hp
  · rw [ha.fresh p h1] at hp
    cases hp

/-- Nothing was at a location that is absent now. -/
theorem Session.Added.absent (ha : l.Added env h0 h) {p : Path} (hp : h.fs.node p = none) :
    h0.fs.node p = none := by
  cases hnode : h0.fs.node p with
  | none => rfl
  | some nd =>
    rw [ha.present hnode] at hp
    cases hp

/-- **Step lemma.**  A guaranteed step adds to the tree. -/
theorem Session.Added.step {c : Call} (ha : l.Added env h0 h)
    (hg : Guar .single env moves c (l, h) (l', h')) : l'.Added env h0 h' where
  cwd := hg.cwd.trans ha.cwd
  stands := hg.stands
  fresh p ho := by
    -- a new directory or result was absent when it was created
    have hnew : ∀ q, Creates .single env c (l, h) q → q <+: p → h0.fs.node p = none := by
      intro q hq hp
      exact h0.fs.node_of_prefix_none (ha.absent (hq.absent (.inl rfl))) hp
    rcases ho with ⟨t, ht, hp⟩ | ⟨-, d, hd, hp⟩
    · rcases hg.tmp t ht with h1 | ⟨-, -, h1⟩
      · exact ha.fresh p (Session.owns_tmp h1 hp)
      · exact hnew t h1 hp
    · rcases hg.dests d hd with h1 | ⟨-, h1⟩
      · exact ha.fresh p (Session.owns_dest rfl h1 hp)
      · exact hnew d h1 hp
  kept p := by
    by_cases ho' : l'.Owns .single p
    · exact .inr ho'
    · left
      have howned : l.Owns .single p → h'.fs.node p = h0.fs.node p := fun ho => by
        rw [ha.fresh p ho]
        exact hg.gone p ho ho'
      rcases hg.frame p with h1 | h1 | ⟨q, -, -, h1⟩
      · rcases ha.kept p with h2 | h2
        · exact h1.trans h2
        · exact howned h2
      · exact howned h1
      · exact absurd (h1 rfl) ho'
  inodes p q ino d e hp hq := by
    rcases hg.inodes p ino d hp with ⟨e', h1⟩ | ⟨r, e', hr, h1⟩ | h1
    · exact ha.inodes p q ino e' e h1 hq
    · have hsome := ha.inodes r q ino e' e h1 hq
      rw [ha.fresh r hr] at hsome
      cases hsome
    · have hlt := h.fs.fresh q ino e (ha.present hq)
      exact absurd hlt (not_lt.mpr h1)
  sizes p ino d hp := by
    rcases hg.sizes p ino d hp with h1 | ⟨q, h1⟩
    · exact .inl h1
    · exact ha.sizes q ino d h1

/-- **Run lemma.**  Programs that keep the contract of a single upload add to the tree. -/
theorem Session.Added.sat {α : Type} {mode : Mode} {p : Proc α}
    {Q : Option α → Session → Host → Prop} (hp : p.Sat respond (uploading mode env moves) l h Q)
    (ha : mode = .single → l.Added env h0 h) :
    p.Sat respond (uploading mode env moves) l h
      (fun a l' h' => Q a l' h' ∧ (mode = .single → l'.Added env h0 h')) := by
  refine hp.and_invariant (I := fun l h => mode = .single → l.Added env h0 h)
    (fun _ l1 h1 h2 hr ha hm => ?_) (fun _ s s' hg ha hm => ?_) ha
  · rw [hr.alone (by rw [hm])]
    exact ha hm
  · subst hm
    exact (ha rfl).step hg

/-- The nodes at a location that the session does not own are those from before. -/
theorem Session.Added.node_eq (ha : l.Added env h0 h) {p : Path} (hp : ¬ l.Owns .single p) :
    h.fs.node p = h0.fs.node p := (ha.kept p).resolve_right hp

end ClipShare
