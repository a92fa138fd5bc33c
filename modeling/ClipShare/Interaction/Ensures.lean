import ClipShare.Interaction.Program

namespace Interaction

/-!
# Obligations at every call, and loops

Total correctness of a program against one machine, with an obligation for each call that it
issues.

* `Prog.loop` — a body that is repeated until it returns a result, with a bound on the number of
  rounds;
* `Prog.Ensures` — every call is allowed in the state in which it is issued, and the program
  returns, with a value and a state of which a postcondition holds;
* `Ensures.bind`, `Ensures.mono`, `Ensures.weaken` — the rules for sequencing and consequence;
* `Ensures.loop`, `Ensures.loop_succ` — the rules for loops: an invariant with a measure that
  bounds the rounds, and one round by itself;
* `Ensures.run` — what is known of the run.
-/

namespace Prog

variable {S : Sig} {α β σ : Type}

/-- Repeat `body`, at most `fuel` times, until it returns a result. -/
def loop : Nat → (β → Prog S (β ⊕ α)) → β → Prog S α
  | 0, _, _ => .spin
  | fuel + 1, body, b => do
      match ← body b with
      | .inl b => loop fuel body b
      | .inr a => return a

/-- From `s` every call of `p` is one that `P` allows in the state in which it is issued, and `p`
    returns with a value and in a state of which `Q` holds. -/
def Ensures (m : Machine S σ) (P : S.Call → σ → Prop) :
    Prog S α → σ → (α → σ → Prop) → Prop
  | .ret a, s, Q => Q a s
  | .call c k, s, Q => P c s ∧ (k (m c s).1).Ensures m P (m c s).2 Q
  | .spin, _, _ => False

variable {m : Machine S σ} {P P' : S.Call → σ → Prop} {p : Prog S α} {s : σ}
  {Q Q' : α → σ → Prop}

@[simp] theorem ensures_ret {a : α} : (ret a : Prog S α).Ensures m P s Q ↔ Q a s := Iff.rfl

@[simp] theorem ensures_call {c : S.Call} {k : S.Resp c → Prog S α} :
    (call c k).Ensures m P s Q ↔ P c s ∧ (k (m c s).1).Ensures m P (m c s).2 Q := Iff.rfl

@[simp] theorem ensures_spin : ¬ (spin : Prog S α).Ensures m P s Q := id

/-- A weaker postcondition. -/
theorem Ensures.mono (hp : p.Ensures m P s Q) (hQ : ∀ a s, Q a s → Q' a s) :
    p.Ensures m P s Q' := by
  induction p generalizing s with
  | ret a => exact hQ _ _ hp
  | call c k ih => exact ⟨hp.1, ih _ hp.2⟩
  | spin => exact hp

/-- A weaker obligation at the calls. -/
theorem Ensures.weaken (hp : p.Ensures m P s Q) (hP : ∀ c s, P c s → P' c s) :
    p.Ensures m P' s Q := by
  induction p generalizing s with
  | ret a => exact hp
  | call c k ih => exact ⟨hP _ _ hp.1, ih _ hp.2⟩
  | spin => exact hp

/-- **Sequencing.** -/
theorem Ensures.bind {f : α → Prog S β} {R : β → σ → Prop} (hp : p.Ensures m P s Q)
    (hf : ∀ a s, Q a s → (f a).Ensures m P s R) : (p >>= f).Ensures m P s R := by
  induction p generalizing s with
  | ret a => exact hf _ _ hp
  | call c k ih => exact ⟨hp.1, ih _ hp.2⟩
  | spin => exact hp.elim

/-- A program that begins with `p`, from what `p` ensures. -/
theorem Ensures.of_bind {f : α → Prog S β} {R : β → σ → Prop}
    (h : (p >>= f).Ensures m P s R) : p.Ensures m P s fun a s => (f a).Ensures m P s R := by
  induction p generalizing s with
  | ret a => exact h
  | call c k ih => exact ⟨h.1, ih _ h.2⟩
  | spin => exact h

/-- What every allowed call preserves can be added to the postcondition. -/
theorem Ensures.and_invariant {I : σ → Prop} (hp : p.Ensures m P s Q)
    (hI : ∀ c s, P c s → I s → I (m c s).2) (h0 : I s) :
    p.Ensures m P s fun a s => Q a s ∧ I s := by
  induction p generalizing s with
  | ret a => exact ⟨hp, h0⟩
  | call c k ih => exact ⟨hp.1, ih _ hp.2 (hI _ _ hp.1 h0)⟩
  | spin => exact hp

/-- The run returns, and the postcondition holds of its value and its state. -/
theorem Ensures.run (hp : p.Ensures m P s Q) :
    ∃ a s', p.run m s = (some a, s') ∧ Q a s' := by
  induction p generalizing s with
  | ret a => exact ⟨a, s, rfl, hp⟩
  | call c k ih => exact ih _ hp.2
  | spin => exact hp.elim

/-- The value and the state that a run returned. -/
theorem Ensures.of_run {a : α} {s' : σ} (hp : p.Ensures m P s Q)
    (hrun : p.run m s = (some a, s')) : Q a s' := by
  obtain ⟨a', s'', hrun', hQ⟩ := hp.run
  rw [hrun] at hrun'
  cases hrun'
  exact hQ

/-- How a round of a loop ends: the loop goes on, and `I` holds, or it has a result of which `Q`
    holds. -/
def Next (I : β → σ → Prop) (Q : α → σ → Prop) : β ⊕ α → σ → Prop
  | .inl b, s => I b s
  | .inr a, s => Q a s

/-- One round of a loop, with fuel for it. -/
theorem Ensures.loop_succ {body : β → Prog S (β ⊕ α)} {fuel : Nat} {b : β}
    (h : (body b).Ensures m P s
      (Next (fun b' s' => (Prog.loop fuel body b').Ensures m P s' Q) Q)) :
    (Prog.loop (fuel + 1) body b).Ensures m P s Q := by
  refine h.bind fun r s' hr => ?_
  cases r with
  | inl b' => exact hr
  | inr a => exact hr

/-- **Loops.**  A round that does not end the loop keeps the invariant `I` and decreases the
    measure `μ`; there is fuel for as many rounds as the measure says. -/
theorem Ensures.loop {body : β → Prog S (β ⊕ α)} {I : β → σ → Prop} {μ : β → Nat}
    (hbody : ∀ b s, I b s → (body b).Ensures m P s (Next (fun b' s' => I b' s' ∧ μ b' < μ b) Q))
    {fuel : Nat} {b : β} (hfuel : μ b < fuel) (h0 : I b s) :
    (Prog.loop fuel body b).Ensures m P s Q := by
  induction fuel generalizing b s with
  | zero => omega
  | succ fuel ih =>
    refine Ensures.loop_succ ((hbody b s h0).mono fun r s' hr => ?_)
    cases r with
    | inl b' => exact ih (Nat.lt_of_lt_of_le hr.2 (Nat.le_of_lt_succ hfuel)) hr.1
    | inr a => exact hr

end Prog

end Interaction
