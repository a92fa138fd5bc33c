import ClipShare.Interaction.Program

namespace Interaction

/-!
# Programs that are stopped

A program may be stopped between any two of its calls.

* `Prog.upTo` — a program that is stopped before its next call, after some number of calls;
* `Prog.During` — what holds whenever a program is about to issue a call, and of its value at the
  end;
* `During.stopped` — what is known of a run that may have been stopped.
-/

namespace Prog

variable {S : Sig} {α β σ : Type}

/-- The program, stopped before the call that follows the first `n` ones. -/
def upTo : Nat → Prog S α → Prog S α
  | _, .ret a => .ret a
  | _, .spin => .spin
  | 0, .call _ _ => .spin
  | n + 1, .call c k => .call c fun r => (k r).upTo n

variable {m : Machine S σ} {I : σ → Prop} {Q : α → σ → Prop} {p : Prog S α} {s : σ}

/-- `I` holds in every state of the run from `s` in which a call is issued, or in which the program
    spins; `Q` holds of its value and its last state, if it returns. -/
def During (m : Machine S σ) (I : σ → Prop) (Q : α → σ → Prop) : Prog S α → σ → Prop
  | .ret a, s => Q a s
  | .call c k, s => I s ∧ (k (m c s).1).During m I Q (m c s).2
  | .spin, s => I s

/-- One call, as an equation. -/
theorem during_call {c : S.Call} {k : S.Resp c → Prog S α} {r : S.Resp c} {s' : σ} (hs : I s)
    (hc : m c s = (r, s')) (hk : (k r).During m I Q s') : During m I Q (.call c k) s := by
  refine ⟨hs, ?_⟩
  rw [hc]
  exact hk

/-- Sequencing. -/
theorem During.bind {f : α → Prog S β} {Q' : β → σ → Prop} (hp : p.During m I Q s)
    (hf : ∀ a s, Q a s → (f a).During m I Q' s) : (p >>= f).During m I Q' s := by
  induction p generalizing s with
  | ret a => exact hf a s hp
  | call c k ih => exact ⟨hp.1, ih _ hp.2⟩
  | spin => exact hp

/-- **Stopped runs.**  However many calls the program gets to issue, `Q` holds of its value, or `I`
    holds where it stops. -/
theorem During.stopped (hp : p.During m I Q s) (n : Nat) :
    (∃ a, ((p.upTo n).run m s).1 = some a ∧ Q a ((p.upTo n).run m s).2) ∨
      ((p.upTo n).run m s).1 = none ∧ I ((p.upTo n).run m s).2 := by
  induction p generalizing n s with
  | ret a =>
    cases n <;> exact .inl ⟨a, rfl, hp⟩
  | spin =>
    cases n <;> exact .inr ⟨rfl, hp⟩
  | call c k ih =>
    cases n with
    | zero => exact .inr ⟨rfl, hp.1⟩
    | succ n => exact ih _ hp.2 n

end Prog

end Interaction
