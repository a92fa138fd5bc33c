import Mathlib.Logic.Function.Basic
import Mathlib.Control.Basic

namespace Interaction

/-!
# Programs as trees of calls

A program that talks to its environment is a tree: it has returned a value, it issues a
call and goes on with the answer, or it spins (it never comes back and issues no further
call: an endless loop, or the end of its process).  The environment is a **machine**, which
answers each call and updates a state.  This file has

* `Prog S α` — the trees over a signature `S`, with their monad structure;
* `Prog.run` / `Prog.trace` — one run against a machine: the value (if any) and the final
  state, and the calls with their answers in order;
* `run_bind` / `trace_bind` — how both compose, the rules that symbolic execution uses;
* `Prog.Only` — what holds of every call of a program;
* `Prog.Inv` — a state predicate that every call of a program preserves, and the run lemma;
* `Prog.Yields` — a program that returns, what its value satisfies, and an invariant.
-/

/-- A signature: the calls a program can issue and the answer type of each. -/
structure Sig where
  Call : Type
  Resp : Call → Type

/-- Program trees over `S` returning an `α`. -/
inductive Prog (S : Sig) (α : Type) : Type
  | ret (a : α)
  | call (c : S.Call) (k : S.Resp c → Prog S α)
  | spin

/-- A machine answers each call and updates its state. -/
abbrev Machine (S : Sig) (σ : Type) := (c : S.Call) → σ → S.Resp c × σ

/-- One call together with the answer it got. -/
abbrev Event (S : Sig) := (c : S.Call) × S.Resp c

namespace Prog

variable {S : Sig} {α β σ : Type}

/-- Sequencing. -/
def bind : Prog S α → (α → Prog S β) → Prog S β
  | .ret a, f => f a
  | .call c k, f => .call c (fun r => (k r).bind f)
  | .spin, _ => .spin

instance : Monad (Prog S) where
  pure := .ret
  bind := Prog.bind

/-- The program that issues one call and returns its answer, read as an `α`. -/
def ask (c : S.Call) (g : S.Resp c → α) : Prog S α := .call c (fun r => .ret (g r))

@[simp] theorem pure_eq (a : α) : (pure a : Prog S α) = .ret a := rfl
@[simp] theorem ret_bind (a : α) (f : α → Prog S β) : (Prog.ret a >>= f) = f a := rfl
@[simp] theorem spin_bind (f : α → Prog S β) : (Prog.spin >>= f) = .spin := rfl
@[simp] theorem call_bind (c : S.Call) (k : S.Resp c → Prog S α) (f : α → Prog S β) :
    (Prog.call c k >>= f) = .call c (fun r => k r >>= f) := rfl
@[simp] theorem ask_bind (c : S.Call) (g : S.Resp c → α) (f : α → Prog S β) :
    (ask c g >>= f) = .call c (fun r => f (g r)) := rfl

/-- Sequencing is associative. -/
theorem bind_assoc {γ : Type} (p : Prog S α) (f : α → Prog S β) (g : β → Prog S γ) :
    (p >>= f) >>= g = p >>= fun a => f a >>= g := by
  induction p with
  | ret a => rfl
  | call c k ih => exact congrArg (call c) (funext ih)
  | spin => rfl

theorem bind_ret (p : Prog S α) : p >>= ret = p := by
  induction p with
  | ret a => rfl
  | call c k ih => exact congrArg (call c) (funext ih)
  | spin => rfl

/-! ### Runs -/

/-- Run a program from a state: its value, or `none` if it spins, and the final state. -/
def run (m : Machine S σ) : Prog S α → σ → Option α × σ
  | .ret a, s => (some a, s)
  | .call c k, s => (k (m c s).1).run m (m c s).2
  | .spin, s => (none, s)

/-- The calls of a run with their answers, in order. -/
def trace (m : Machine S σ) : Prog S α → σ → List (Event S)
  | .ret _, _ => []
  | .call c k, s => ⟨c, (m c s).1⟩ :: (k (m c s).1).trace m (m c s).2
  | .spin, _ => []

variable (m : Machine S σ)

@[simp] theorem run_ret (a : α) (s : σ) : (ret a : Prog S α).run m s = (some a, s) := rfl
@[simp] theorem run_spin (s : σ) : (spin : Prog S α).run m s = (none, s) := rfl
@[simp] theorem run_call (c : S.Call) (k : S.Resp c → Prog S α) (s : σ) :
    (call c k).run m s = (k (m c s).1).run m (m c s).2 := rfl
@[simp] theorem run_ask (c : S.Call) (g : S.Resp c → α) (s : σ) :
    (ask c g).run m s = (some (g (m c s).1), (m c s).2) := rfl

@[simp] theorem trace_ret (a : α) (s : σ) : (ret a : Prog S α).trace m s = [] := rfl
@[simp] theorem trace_spin (s : σ) : (spin : Prog S α).trace m s = [] := rfl
@[simp] theorem trace_call (c : S.Call) (k : S.Resp c → Prog S α) (s : σ) :
    (call c k).trace m s = ⟨c, (m c s).1⟩ :: (k (m c s).1).trace m (m c s).2 := rfl
@[simp] theorem trace_ask (c : S.Call) (g : S.Resp c → α) (s : σ) :
    (ask c g).trace m s = [⟨c, (m c s).1⟩] := rfl

/-- The run of a sequence is the run of the first part followed, if that returned, by the
    run of the second from the state reached. -/
theorem run_bind (p : Prog S α) (f : α → Prog S β) (s : σ) :
    (p >>= f).run m s = match p.run m s with
      | (some a, s') => (f a).run m s'
      | (none, s') => (none, s') := by
  induction p generalizing s with
  | ret a => rfl
  | call c k ih => exact ih (m c s).1 (m c s).2
  | spin => rfl

/-- The trace of a sequence is the trace of the first part followed, if that returned, by
    the trace of the second. -/
theorem trace_bind (p : Prog S α) (f : α → Prog S β) (s : σ) :
    (p >>= f).trace m s = p.trace m s ++ match p.run m s with
      | (some a, s') => (f a).trace m s'
      | (none, _) => [] := by
  induction p generalizing s with
  | ret a => rfl
  | call c k ih =>
    simp only [call_bind, trace_call, run_call, List.cons_append]
    rw [ih]
  | spin => rfl

/-- `run_bind` when the first part is known to return. -/
theorem run_bind_of_some {p : Prog S α} {f : α → Prog S β} {s s' : σ} {a : α}
    (h : p.run m s = (some a, s')) : (p >>= f).run m s = (f a).run m s' := by
  rw [run_bind, h]

/-! ### Calls of a program -/

/-- Every call that `p` can issue satisfies `P`. -/
def Only (P : S.Call → Prop) : Prog S α → Prop
  | .ret _ => True
  | .call c k => P c ∧ ∀ r, (k r).Only P
  | .spin => True

variable {P : S.Call → Prop}

@[simp] theorem only_ret (a : α) : (ret a : Prog S α).Only P := trivial
@[simp] theorem only_spin : (spin : Prog S α).Only P := trivial
@[simp] theorem only_call (c : S.Call) (k : S.Resp c → Prog S α) :
    (call c k).Only P ↔ P c ∧ ∀ r, (k r).Only P := Iff.rfl
@[simp] theorem only_ask (c : S.Call) (g : S.Resp c → α) : (ask c g).Only P ↔ P c :=
  and_iff_left fun _ => trivial

/-- Sequencing keeps `Only`. -/
theorem Only.bind {p : Prog S α} {f : α → Prog S β} (hp : p.Only P) (hf : ∀ a, (f a).Only P) :
    (p >>= f).Only P := by
  induction p with
  | ret a => exact hf a
  | call c k ih => exact ⟨hp.1, fun r => ih r (hp.2 r)⟩
  | spin => trivial

/-- The calls of a run are calls that the program can issue. -/
theorem Only.trace {p : Prog S α} (hp : p.Only P) (s : σ) : ∀ e ∈ p.trace m s, P e.1 := by
  induction p generalizing s with
  | ret a => exact nofun
  | call c k ih =>
    rw [trace_call, List.forall_mem_cons]
    exact ⟨hp.1, ih _ (hp.2 _) _⟩
  | spin => exact nofun

/-! ### Invariants of one program -/

/-- Every call of `p` issued in a state where `I` holds leads to a state where `I` holds. -/
def Inv (m : Machine S σ) (I : σ → Prop) : Prog S α → Prop
  | .ret _ => True
  | .call c k => (∀ s, I s → I (m c s).2) ∧ ∀ r, (k r).Inv m I
  | .spin => True

variable {m}

/-- Sequencing keeps `Inv`. -/
theorem Inv.bind {I : σ → Prop} {p : Prog S α} {f : α → Prog S β}
    (hp : p.Inv m I) (hf : ∀ a, (f a).Inv m I) : (p >>= f).Inv m I := by
  induction p with
  | ret a => exact hf a
  | call c k ih => exact ⟨hp.1, fun r => ih r (hp.2 r)⟩
  | spin => trivial

/-- **Run lemma.** An invariant of every call is an invariant of the run. -/
theorem Inv.run {I : σ → Prop} {p : Prog S α} (hp : p.Inv m I) {s : σ} (hs : I s) :
    I (p.run m s).2 := by
  induction p generalizing s with
  | ret a => exact hs
  | call c k ih => exact ih _ (hp.2 _) (hp.1 s hs)
  | spin => exact hs

/-! ### Programs that return -/

/-- From states where `I` holds the program returns a value that satisfies `P`, and `I` still
    holds. -/
def Yields (m : Machine S σ) (I : σ → Prop) (p : Prog S α) (P : α → Prop) : Prop :=
  ∀ s, I s → ∃ a s', p.run m s = (some a, s') ∧ I s' ∧ P a

variable {I : σ → Prop} {p : Prog S α} {Q : α → Prop}

theorem yields_ret {a : α} (h : Q a) : (ret a : Prog S α).Yields m I Q :=
  fun s hs => ⟨a, s, rfl, hs, h⟩

/-- A call whose answer is known. -/
theorem yields_ask {c : S.Call} {g : S.Resp c → α}
    (h : ∀ s, I s → I (m c s).2 ∧ Q (g (m c s).1)) : (ask c g).Yields m I Q :=
  fun s hs => ⟨g (m c s).1, (m c s).2, rfl, h s hs⟩

/-- Sequencing. -/
theorem Yields.bind {f : α → Prog S β} {R : β → Prop} (hp : p.Yields m I Q)
    (hf : ∀ a, Q a → (f a).Yields m I R) : (p >>= f).Yields m I R := by
  intro s hs
  obtain ⟨a, s', hrun, hs', ha⟩ := hp s hs
  rw [run_bind_of_some m hrun]
  exact hf a ha s' hs'

theorem Yields.mono {R : α → Prop} (hp : p.Yields m I Q) (h : ∀ a, Q a → R a) :
    p.Yields m I R := by
  intro s hs
  obtain ⟨a, s', hrun, hs', ha⟩ := hp s hs
  exact ⟨a, s', hrun, hs', h a ha⟩

/-- A run has one value, of which all that the program yields is true. -/
theorem Yields.sure (hp : p.Yields m I Q) :
    p.Yields m I fun a => Q a ∧ ∀ R : α → Prop, p.Yields m I R → R a := by
  intro s hs
  obtain ⟨a, s', hrun, hs', ha⟩ := hp s hs
  refine ⟨a, s', hrun, hs', ha, fun R hR => ?_⟩
  obtain ⟨a', s'', hrun', -, ha'⟩ := hR s hs
  rw [hrun] at hrun'
  cases hrun'
  exact ha'

end Prog

end Interaction
