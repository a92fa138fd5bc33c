import ClipShare.Interaction.Program

namespace Interaction

/-!
# Two programs side by side

A relational logic for programs against one machine: two programs that start in related states
both return, with related values and states, or both fail to return, in related states.

* `Paired` — the outcomes of two such runs;
* `Prog.Related` — two programs from related states;
* `Related.bind`, `related_call`, `related_left`, `related_right` — the rules for sequencing, for a
  call that both issue, and for a call that one of them issues;
* `related_only`, `related_self` — a program and itself, when the machine treats related states
  alike;
* `Prog.YieldsBoth` — two programs that return in the same state.
-/

variable {S : Sig} {α α' β β' σ : Type}

/-- Both runs return, with values and states that `E` relates, or none does, and `N` relates the
    states. -/
inductive Paired (E : α → β → σ → σ → Prop) (N : σ → σ → Prop) :
    Option α × σ → Option β × σ → Prop
  | returned {a : α} {b : β} {s t : σ} (h : E a b s t) : Paired E N (some a, s) (some b, t)
  | stopped {s t : σ} (h : N s t) : Paired E N (none, s) (none, t)

namespace Prog

/-- From states that `R` relates, the two programs run alike. -/
def Related (m : Machine S σ) (R : σ → σ → Prop) (p : Prog S α) (q : Prog S β)
    (E : α → β → σ → σ → Prop) (N : σ → σ → Prop) : Prop :=
  ∀ s t, R s t → Paired E N (p.run m s) (q.run m t)

variable {m : Machine S σ} {R R' N : σ → σ → Prop} {p : Prog S α} {q : Prog S β}
  {E : α → β → σ → σ → Prop}

theorem related_ret {a : α} {b : β} (h : ∀ s t, R s t → E a b s t) :
    Related m R (ret a) (ret b) E N := fun s t hst => .returned (h s t hst)

/-- Sequencing. -/
theorem Related.bind {E' : α' → β' → σ → σ → Prop} (h : Related m R p q E N)
    {f : α → Prog S α'} {g : β → Prog S β'} (hf : ∀ a b, Related m (E a b) (f a) (g b) E' N) :
    Related m R (p >>= f) (q >>= g) E' N := by
  intro s t hst
  have hpq := h s t hst
  rw [run_bind, run_bind]
  generalize p.run m s = x at hpq ⊢
  generalize q.run m t = y at hpq ⊢
  cases hpq with
  | returned hab => exact hf _ _ _ _ hab
  | stopped hnone => exact .stopped hnone

/-- Less is asked of the first states, or more is said of the last ones. -/
theorem Related.mono {E' : α → β → σ → σ → Prop} {N' : σ → σ → Prop}
    (h : Related m R p q E N) (hR : ∀ s t, R' s t → R s t)
    (hE : ∀ a b s t, E a b s t → E' a b s t) (hN : ∀ s t, N s t → N' s t) :
    Related m R' p q E' N' := by
  intro s t hst
  have hpq := h s t (hR s t hst)
  generalize p.run m s = x at hpq ⊢
  generalize q.run m t = y at hpq ⊢
  cases hpq with
  | returned hab => exact .returned (hE _ _ _ _ hab)
  | stopped hnone => exact .stopped (hN _ _ hnone)

/-- A call that both programs issue, and that gets the same answer. -/
theorem related_call {c : S.Call} {k : S.Resp c → Prog S α} {k' : S.Resp c → Prog S β}
    {Q : S.Resp c → σ → σ → Prop}
    (hc : ∀ s t, R s t → (m c s).1 = (m c t).1 ∧ Q (m c s).1 (m c s).2 (m c t).2)
    (hk : ∀ r, Related m (Q r) (k r) (k' r) E N) : Related m R (call c k) (call c k') E N := by
  intro s t hst
  obtain ⟨hans, hQ⟩ := hc s t hst
  rw [run_call, run_call, ← hans]
  exact hk _ _ _ hQ

/-- A call that only the first program issues. -/
theorem related_left {c : S.Call} {k : S.Resp c → Prog S α} {Q : S.Resp c → σ → σ → Prop}
    (hc : ∀ s t, R s t → Q (m c s).1 (m c s).2 t) (hk : ∀ r, Related m (Q r) (k r) q E N) :
    Related m R (call c k) q E N := by
  intro s t hst
  rw [run_call]
  exact hk _ _ _ (hc s t hst)

/-- A call that only the second program issues. -/
theorem related_right {c : S.Call} {k : S.Resp c → Prog S β} {Q : S.Resp c → σ → σ → Prop}
    (hc : ∀ s t, R s t → Q (m c t).1 s (m c t).2) (hk : ∀ r, Related m (Q r) p (k r) E N) :
    Related m R p (call c k) E N := by
  intro s t hst
  rw [run_call]
  exact hk _ _ _ (hc s t hst)

/-- A program runs like itself, if the machine treats related states alike at every call that the
    program issues. -/
theorem related_only {P : S.Call → Prop}
    (hm : ∀ c, P c → ∀ s t, R s t → (m c s).1 = (m c t).1 ∧ R (m c s).2 (m c t).2)
    {p : Prog S α} (hp : p.Only P) : Related m R p p (fun a b s t => a = b ∧ R s t) R := by
  induction p with
  | ret a => exact related_ret fun s t hst => ⟨rfl, hst⟩
  | call c k ih => exact related_call (hm c hp.1) fun r => ih r (hp.2 r)
  | spin => exact fun s t hst => .stopped hst

theorem only_true (p : Prog S α) : p.Only fun _ => True := by
  induction p with
  | ret a => trivial
  | call c k ih => exact ⟨trivial, ih⟩
  | spin => trivial

/-- A program runs like itself, if the machine treats related states alike. -/
theorem related_self (hm : ∀ c s t, R s t → (m c s).1 = (m c t).1 ∧ R (m c s).2 (m c t).2)
    (p : Prog S α) : Related m R p p (fun a b s t => a = b ∧ R s t) R :=
  related_only (fun c _ => hm c) p.only_true

/-! ### Programs that return in the same state -/

/-- From states where `I` holds both programs return, with values that `Q` relates, and in one
    state, where `I` still holds. -/
def YieldsBoth (m : Machine S σ) (I : σ → Prop) (p : Prog S α) (q : Prog S β)
    (Q : α → β → Prop) : Prop :=
  ∀ s, I s → ∃ a b s', p.run m s = (some a, s') ∧ q.run m s = (some b, s') ∧ I s' ∧ Q a b

variable {I : σ → Prop} {Q : α → β → Prop}

theorem yieldsBoth_ret {a : α} {b : β} (h : Q a b) : YieldsBoth m I (ret a) (ret b) Q :=
  fun s hs => ⟨a, b, s, rfl, rfl, hs, h⟩

/-- A program returns like itself. -/
theorem Yields.both {p : Prog S α} {P : α → Prop} (hp : p.Yields m I P) :
    YieldsBoth m I p p fun a b => a = b ∧ P a := by
  intro s hs
  obtain ⟨a, s', hrun, hs', ha⟩ := hp s hs
  exact ⟨a, a, s', hrun, hrun, hs', rfl, ha⟩

/-- Sequencing. -/
theorem YieldsBoth.bind {R : α' → β' → Prop} (hpq : YieldsBoth m I p q Q)
    {f : α → Prog S α'} {g : β → Prog S β'}
    (hf : ∀ a b, Q a b → YieldsBoth m I (f a) (g b) R) :
    YieldsBoth m I (p >>= f) (q >>= g) R := by
  intro s hs
  obtain ⟨a, b, s', hp, hq, hs', hab⟩ := hpq s hs
  rw [run_bind_of_some m hp, run_bind_of_some m hq]
  exact hf a b hab s' hs'

theorem YieldsBoth.mono {Q' : α → β → Prop} (hpq : YieldsBoth m I p q Q)
    (h : ∀ a b, Q a b → Q' a b) : YieldsBoth m I p q Q' := by
  intro s hs
  obtain ⟨a, b, s', hp, hq, hs', hab⟩ := hpq s hs
  exact ⟨a, b, s', hp, hq, hs', h a b hab⟩

/-- The first of the two programs. -/
theorem YieldsBoth.left (hpq : YieldsBoth m I p q Q) : p.Yields m I fun a => ∃ b, Q a b := by
  intro s hs
  obtain ⟨a, b, s', hp, -, hs', hab⟩ := hpq s hs
  exact ⟨a, s', hp, hs', b, hab⟩

end Prog

end Interaction
