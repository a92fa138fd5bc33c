import ClipShare.Interaction.Confined
import Mathlib.Algebra.BigOperators.Group.Finset.Piecewise
import Mathlib.Algebra.Order.BigOperators.Group.Finset

namespace Interaction

/-!
# Programs with a budget

Some calls cost something.  A program has a budget if, whatever it is answered, its calls are
allowed and do not cost more together.

* `Tariff` — what may be answered to the calls, which calls are allowed, and what they cost;
* `Prog.Spends` — a program stays within its budget, and what is then known of its value;
* `Spends.bind`, `Spends.mono`, `Spends.of_only` — the rules for sequencing, for larger budgets and
  for programs whose calls are free;
* `Pool.Budgeted.run` — what programs that run together can add to a measure of the shared state.
-/

/-- What may be answered to the calls, which calls are allowed, and what they cost. -/
structure Tariff (S : Sig) where
  answers : (c : S.Call) → S.Resp c → Prop
  allows : S.Call → Prop
  cost : S.Call → Nat

variable {S : Sig} {α β : Type} {T : Tariff S}

namespace Prog

/-- With the budget `n` the program issues only calls that are allowed and that it can pay for, and
    `Q` holds of its value. -/
def Spends (T : Tariff S) : Prog S α → Nat → (α → Prop) → Prop
  | .ret a, _, Q => Q a
  | .call c k, n, Q => T.allows c ∧ T.cost c ≤ n ∧
      ∀ r, T.answers c r → (k r).Spends T (n - T.cost c) Q
  | .spin, _, _ => True

variable {p : Prog S α} {n n' : Nat} {Q Q' : α → Prop}

@[simp] theorem spends_ret {a : α} : (ret a : Prog S α).Spends T n Q ↔ Q a := Iff.rfl

@[simp] theorem spends_spin : (spin : Prog S α).Spends T n Q := trivial

/-- A call that is free. -/
theorem spends_call {c : S.Call} {k : S.Resp c → Prog S α} (hc : T.allows c) (h0 : T.cost c = 0)
    (hk : ∀ r, T.answers c r → (k r).Spends T n Q) : (call c k).Spends T n Q := by
  refine ⟨hc, by omega, fun r hr => ?_⟩
  rw [h0]
  exact hk r hr

/-- A larger budget, and a weaker postcondition. -/
theorem Spends.mono (hp : p.Spends T n Q) (hn : n ≤ n') (hQ : ∀ a, Q a → Q' a) :
    p.Spends T n' Q' := by
  induction p generalizing n n' with
  | ret a => exact hQ a hp
  | spin => trivial
  | call c k ih =>
    obtain ⟨hc, hcost, hk⟩ := hp
    exact ⟨hc, by omega, fun r hr => ih r (hk r hr) (by omega)⟩

/-- **Sequencing.**  Budgets add up. -/
theorem Spends.bind {f : α → Prog S β} {R : β → Prop} (hp : p.Spends T n Q)
    (hf : ∀ a, Q a → (f a).Spends T n' R) : (p >>= f).Spends T (n + n') R := by
  induction p generalizing n with
  | ret a => exact (hf a hp).mono (by omega) fun _ h => h
  | spin => trivial
  | call c k ih =>
    obtain ⟨hc, hcost, hk⟩ := hp
    refine ⟨hc, by omega, fun r hr => (ih r (hk r hr)).mono (by omega) fun _ h => h⟩

/-- Sequencing after a part that is free. -/
theorem Spends.bind_free {f : α → Prog S β} {R : β → Prop} (hp : p.Spends T 0 Q)
    (hf : ∀ a, Q a → (f a).Spends T n R) : (p >>= f).Spends T n R :=
  (hp.bind hf).mono (by omega) fun _ h => h

/-- A program whose calls are allowed and free. -/
theorem Spends.of_only {P : S.Call → Prop} (hp : p.Only P)
    (hP : ∀ c, P c → T.allows c ∧ T.cost c = 0) : p.Spends T n fun _ => True := by
  induction p with
  | ret a => trivial
  | spin => trivial
  | call c k ih =>
    obtain ⟨hc, h0⟩ := hP c hp.1
    exact spends_call hc h0 fun r _ => ih r (hp.2 r)

end Prog

namespace Pool

variable {ι L H : Type} [DecidableEq ι] {m : Machine S (L × H)} {s : Pool S ι α L H} {n : ι → Nat}

/-- Every program stays within its own budget. -/
def Budgeted (T : Tariff S) (s : Pool S ι α L H) (n : ι → Nat) : Prop :=
  ∀ i, (s.prog i).Spends T (n i) fun _ => True

/-- One call of a program leaves it the rest of its budget. -/
theorem Budgeted.step (hs : s.Budgeted T n) (hm : ∀ c l, T.answers c (m c l).1) {i : ι} {c : S.Call}
    {k : S.Resp c → Prog S α} (hi : s.prog i = .call c k) :
    T.allows c ∧ T.cost c ≤ n i ∧
      (s.step m i).Budgeted T (Function.update n i (n i - T.cost c)) := by
  have hspends := hs i
  rw [hi] at hspends
  obtain ⟨hc, hcost, hk⟩ := hspends
  refine ⟨hc, hcost, fun j => ?_⟩
  rw [step_of_call hi]
  by_cases hj : j = i
  · subst hj
    simp only [Function.update_self]
    exact hk _ (hm _ _)
  · simp only [Function.update_of_ne hj]
    exact hs j

/-- **What is spent.**  If no allowed call adds more to a measure than it costs, a run adds no more
    than the budgets of the programs that take part. -/
theorem Budgeted.run {μ : H → Nat} {I : H → Prop} (hs : s.Budgeted T n)
    (hm : ∀ c l, T.answers c (m c l).1)
    (hI : ∀ c l h, T.allows c → I h → I (m c (l, h)).2.2 ∧ μ (m c (l, h)).2.2 ≤ μ h + T.cost c)
    (h0 : I s.shared) (sched : List ι) :
    I (s.run m sched).shared ∧
      μ (s.run m sched).shared ≤ μ s.shared + ∑ i ∈ sched.toFinset, n i := by
  -- the induction needs a set of programs that does not shrink with the schedule
  suffices h : ∀ A : Finset ι, sched.toFinset ⊆ A → I (s.run m sched).shared ∧
      μ (s.run m sched).shared ≤ μ s.shared + ∑ i ∈ A, n i from h _ subset_rfl
  intro A hA
  induction sched generalizing s n with
  | nil => exact ⟨h0, Nat.le_add_right _ _⟩
  | cons j sched ih =>
    rw [List.toFinset_cons, Finset.insert_subset_iff] at hA
    rw [run_cons]
    rcases step_cases m s j with ⟨-, hstep⟩ | ⟨c, k, hj, hstep⟩
    · rw [hstep]
      exact ih hs h0 hA.2
    · obtain ⟨hc, hcost, hs'⟩ := hs.step hm hj
      obtain ⟨hI', hμ⟩ := hI c (s.own j) s.shared hc h0
      have hshared : (s.step m j).shared = (m c (s.own j, s.shared)).2.2 := by rw [hstep]
      obtain ⟨hend, hle⟩ := ih hs' (by rw [hshared]; exact hI') hA.2
      refine ⟨hend, hle.trans ?_⟩
      have hsum : ∑ i ∈ A, Function.update n j (n j - T.cost c) i + T.cost c = ∑ i ∈ A, n i := by
        rw [Finset.sum_update_of_mem hA.1, ← Finset.add_sum_erase A n hA.1,
          Finset.sdiff_singleton_eq_erase]
        omega
      rw [hshared]
      omega

end Pool

end Interaction
