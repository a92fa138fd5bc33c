import ClipShare.Interaction.Program

namespace Interaction

/-!
# Rely and guarantee

Several programs share a state `H`, and each has a state `L` of its own.  A call is one atomic
step on both.  Between two calls of a program the others may take any number of steps.

A **contract** says what a program may assume about the steps of the others (`rely`, which may
depend on the call it is about to issue) and what each of its own steps has to satisfy (`guar`).

* `Prog.Sat` — a program keeps its guarantee and ends as `Q` says, as long as the others keep to
  what it relies on; `Q` also speaks about programs that spin (`none`);
* `Sat.bind`, `Sat.mono` — the rules that proofs about programs use;
* `Sat.and_invariant` — a postcondition together with an invariant;
* `Contract.alone` — the contract of a program that runs by itself, with `Sat.run` for its run;
* `Pool` — programs that run together under a schedule, with `Pool.run_sound`: contracts whose
  guarantees imply each other's relies can be put together.
-/

/-- What a program relies on and what it guarantees. -/
structure Contract (S : Sig) (L H : Type) where
  rely : Option S.Call → L → H → H → Prop
  guar : S.Call → L × H → L × H → Prop
  refl : ∀ c l h, rely c l h h
  trans : ∀ {c l h h' h''}, rely c l h h' → rely c l h' h'' → rely c l h h''

variable {S : Sig} {L H α β : Type}

namespace Prog

/-- The call that a program is about to issue. -/
def pending : Prog S α → Option S.Call
  | .call c _ => some c
  | _ => none

/-- The value of a program that has returned. -/
def returned : Prog S α → Option α
  | .ret a => some a
  | _ => none

theorem returned_eq_some {p : Prog S α} {a : α} : p.returned = some a ↔ p = .ret a := by
  cases p <;> simp [returned]

/-- The program keeps the contract from the given states and ends as `Q` says. -/
def Sat (m : Machine S (L × H)) (K : Contract S L H) :
    Prog S α → L → H → (Option α → L → H → Prop) → Prop
  | .ret a, l, h, Q => Q (some a) l h
  | .spin, l, h, Q => Q none l h
  | .call c k, l, h, Q => ∀ h', K.rely (some c) l h h' →
      K.guar c (l, h') (m c (l, h')).2 ∧
        (k (m c (l, h')).1).Sat m K (m c (l, h')).2.1 (m c (l, h')).2.2 Q

variable {m : Machine S (L × H)} {K : Contract S L H}

@[simp] theorem sat_ret {a : α} {l : L} {h : H} {Q : Option α → L → H → Prop} :
    (ret a : Prog S α).Sat m K l h Q ↔ Q (some a) l h := Iff.rfl

@[simp] theorem sat_spin {l : L} {h : H} {Q : Option α → L → H → Prop} :
    (spin : Prog S α).Sat m K l h Q ↔ Q none l h := Iff.rfl

/-- A weaker postcondition. -/
theorem Sat.mono {p : Prog S α} {l : L} {h : H} {Q Q' : Option α → L → H → Prop}
    (hp : p.Sat m K l h Q) (hQ : ∀ a l h, Q a l h → Q' a l h) : p.Sat m K l h Q' := by
  induction p generalizing l h with
  | ret a => exact hQ _ _ _ hp
  | call c k ih => exact fun h' hr => ⟨(hp h' hr).1, ih _ (hp h' hr).2⟩
  | spin => exact hQ _ _ _ hp

/-- **Sequencing.** -/
theorem Sat.bind {p : Prog S α} {f : α → Prog S β} {l : L} {h : H}
    {P : Option α → L → H → Prop} {Q : Option β → L → H → Prop} (hp : p.Sat m K l h P)
    (hf : ∀ a l h, P (some a) l h → (f a).Sat m K l h Q) (hs : ∀ l h, P none l h → Q none l h) :
    (p >>= f).Sat m K l h Q := by
  induction p generalizing l h with
  | ret a => exact hf _ _ _ hp
  | call c k ih => exact fun h' hr => ⟨(hp h' hr).1, ih _ (hp h' hr).2⟩
  | spin => exact hs _ _ hp

/-- What the steps of the others and the guaranteed steps preserve can be added to the
    postcondition. -/
theorem Sat.and_invariant {p : Prog S α} {l : L} {h : H} {Q : Option α → L → H → Prop}
    {I : L → H → Prop} (hp : p.Sat m K l h Q)
    (hr : ∀ c l h h', K.rely c l h h' → I l h → I l h')
    (hg : ∀ c s s', K.guar c s s' → I s.1 s.2 → I s'.1 s'.2) (h0 : I l h) :
    p.Sat m K l h (fun a l' h' => Q a l' h' ∧ I l' h') := by
  induction p generalizing l h with
  | ret a => exact ⟨hp, h0⟩
  | call c k ih =>
    intro h' hh
    obtain ⟨hguar, hrest⟩ := hp h' hh
    exact ⟨hguar, ih _ hrest (hg _ _ _ hguar (hr _ _ _ _ hh h0))⟩
  | spin => exact ⟨hp, h0⟩

/-- What the machine keeps of the own state of a program can be added as well. -/
theorem Sat.and_own {p : Prog S α} {l : L} {h : H} {Q : Option α → L → H → Prop} {I : L → Prop}
    (hp : p.Sat m K l h Q) (hm : ∀ c s, I s.1 → I (m c s).2.1) (h0 : I l) :
    p.Sat m K l h (fun a l' h' => Q a l' h' ∧ I l') := by
  induction p generalizing l h with
  | ret a => exact ⟨hp, h0⟩
  | call c k ih =>
    intro h' hh
    obtain ⟨hguar, hrest⟩ := hp h' hh
    exact ⟨hguar, ih _ hrest (hm c (l, h') h0)⟩
  | spin => exact ⟨hp, h0⟩

/-- A contract with a stronger rely and a weaker guarantee is easier to keep. -/
theorem Sat.weaken {K' : Contract S L H} {p : Prog S α} {l : L} {h : H}
    {Q : Option α → L → H → Prop} (hp : p.Sat m K l h Q)
    (hr : ∀ c l h h', K'.rely c l h h' → K.rely c l h h')
    (hg : ∀ c s s', K.guar c s s' → K'.guar c s s') : p.Sat m K' l h Q := by
  induction p generalizing l h with
  | ret a => exact hp
  | call c k ih =>
    intro h' hh
    have := hp h' (hr _ _ _ _ hh)
    exact ⟨hg _ _ _ this.1, ih _ this.2⟩
  | spin => exact hp

end Prog

/-! ### A program that runs by itself -/

/-- Nobody else takes a step. -/
def Contract.alone (guar : S.Call → L × H → L × H → Prop) : Contract S L H where
  rely _ _ h h' := h = h'
  guar := guar
  refl _ _ _ := rfl
  trans := Eq.trans

namespace Prog

variable {m : Machine S (L × H)} {K : Contract S L H}

/-- The run of a program that keeps a contract ends as the postcondition says. -/
theorem Sat.run {p : Prog S α} {l : L} {h : H} {Q : Option α → L → H → Prop}
    (hp : p.Sat m K l h Q) : Q (p.run m (l, h)).1 (p.run m (l, h)).2.1 (p.run m (l, h)).2.2 := by
  induction p generalizing l h with
  | ret a => exact hp
  | call c k ih => exact ih _ (hp h (K.refl _ _ _)).2
  | spin => exact hp

end Prog

/-! ### Programs that run together -/

/-- Programs indexed by `ι`, each with a state of its own, over a shared state. -/
structure Pool (S : Sig) (ι α L H : Type) where
  prog : ι → Prog S α
  own : ι → L
  shared : H

namespace Pool

variable {ι : Type} [DecidableEq ι] {m : Machine S (L × H)} {K : ι → Contract S L H}

/-- One step of a program; a program that has returned or spins does nothing. -/
def step (m : Machine S (L × H)) (s : Pool S ι α L H) (i : ι) : Pool S ι α L H :=
  match s.prog i with
  | .call c k =>
      { prog := Function.update s.prog i (k (m c (s.own i, s.shared)).1)
        own := Function.update s.own i (m c (s.own i, s.shared)).2.1
        shared := (m c (s.own i, s.shared)).2.2 }
  | _ => s

/-- The steps of a schedule. -/
def run (m : Machine S (L × H)) (s : Pool S ι α L H) (sched : List ι) : Pool S ι α L H :=
  sched.foldl (step m) s

/-- Every step of the schedule meets the condition. -/
def Meets (m : Machine S (L × H)) (C : Pool S ι α L H → ι → Prop) :
    Pool S ι α L H → List ι → Prop
  | _, [] => True
  | s, i :: sched => C s i ∧ Meets m C (s.step m i) sched

/-- Whether all steps of a schedule meet a condition can be computed. -/
instance decidableMeets (C : Pool S ι α L H → ι → Prop) [∀ s i, Decidable (C s i)] :
    ∀ (s : Pool S ι α L H) (sched : List ι), Decidable (Meets m C s sched)
  | _, [] => isTrue trivial
  | s, i :: sched =>
      have : Decidable (Meets m C (s.step m i) sched) := decidableMeets C _ sched
      inferInstanceAs (Decidable (C s i ∧ Meets m C (s.step m i) sched))

@[simp] theorem run_nil (s : Pool S ι α L H) : s.run m [] = s := rfl
@[simp] theorem run_cons (s : Pool S ι α L H) (i : ι) (sched : List ι) :
    s.run m (i :: sched) = (s.step m i).run m sched := rfl

theorem step_of_call {s : Pool S ι α L H} {i : ι} {c : S.Call} {k : S.Resp c → Prog S α}
    (h : s.prog i = .call c k) : s.step m i =
      { prog := Function.update s.prog i (k (m c (s.own i, s.shared)).1)
        own := Function.update s.own i (m c (s.own i, s.shared)).2.1
        shared := (m c (s.own i, s.shared)).2.2 } := by
  unfold step
  rw [h]

theorem step_of_ne_call {s : Pool S ι α L H} {i : ι} (h : (s.prog i).pending = none) :
    s.step m i = s := by
  unfold step
  cases hp : s.prog i with
  | ret a => rfl
  | spin => rfl
  | call c k => simp [hp, Prog.pending] at h

@[simp] theorem run_append (s : Pool S ι α L H) (s1 s2 : List ι) :
    s.run m (s1 ++ s2) = (s.run m s1).run m s2 := List.foldl_append

/-- A condition on the steps of a longer schedule. -/
theorem meets_append {C : Pool S ι α L H → ι → Prop} {s1 s2 : List ι} {s : Pool S ι α L H} :
    Meets m C s (s1 ++ s2) ↔ Meets m C s s1 ∧ Meets m C (s.run m s1) s2 := by
  induction s1 generalizing s with
  | nil => exact ⟨fun h => ⟨trivial, h⟩, fun h => h.2⟩
  | cons i s1 ih =>
    show C s i ∧ Meets m C (s.step m i) (s1 ++ s2) ↔ _
    rw [ih, ← and_assoc]
    rfl

/-- Every program keeps a contract of its own from some earlier shared state on, and the steps taken
    since are such as it relies on. -/
def Ok (m : Machine S (L × H)) (K : ι → Contract S L H) (Q : ι → Option α → L → H → Prop)
    (s : Pool S ι α L H) : Prop :=
  ∀ i, ∃ h, (K i).rely (s.prog i).pending (s.own i) h s.shared ∧
    (s.prog i).Sat m (K i) (s.own i) h (Q i)

/-- A step of one program keeps its guarantee, and leaves every program with its contract if
    the step is such as the others rely on. -/
theorem Ok.step {Q : ι → Option α → L → H → Prop} {s : Pool S ι α L H} (hs : s.Ok m K Q) {i : ι}
    {c : S.Call} {k : S.Resp c → Prog S α} (hi : s.prog i = .call c k) :
    (K i).guar c (s.own i, s.shared) (m c (s.own i, s.shared)).2 ∧
      ((∀ j, j ≠ i → (K j).rely (s.prog j).pending (s.own j) s.shared (s.step m i).shared) →
        (s.step m i).Ok m K Q) := by
  obtain ⟨h, hr, hsat⟩ := hs i
  rw [hi] at hr hsat
  have hcall := hsat s.shared hr
  refine ⟨hcall.1, fun hrely j => ?_⟩
  rw [step_of_call hi] at hrely ⊢
  by_cases hj : j = i
  · subst hj
    refine ⟨(m c (s.own j, s.shared)).2.2, (K j).refl _ _ _, ?_⟩
    simp only [Function.update_self]
    exact hcall.2
  · obtain ⟨hj0, hrj, hsatj⟩ := hs j
    simp only [Function.update_of_ne hj]
    exact ⟨hj0, (K j).trans hrj (hrely j hj), hsatj⟩

omit [DecidableEq ι] in
/-- What is known once a program has returned. -/
theorem Ok.result {Q : ι → Option α → L → H → Prop} {s : Pool S ι α L H} (hs : s.Ok m K Q) {i : ι}
    {a : α} (hi : (s.prog i).returned = some a) :
    ∃ h, (K i).rely none (s.own i) h s.shared ∧ Q i (some a) (s.own i) h := by
  obtain ⟨h, hr, hsat⟩ := hs i
  rw [Prog.returned_eq_some.mp hi] at hr hsat
  exact ⟨h, hr, hsat⟩

/-- **Parallel composition.**  If every step that keeps its guarantee and meets the condition
    preserves the invariant `J` and is such as the others rely on, then in every run whose steps
    meet the condition the invariant holds and every program keeps its contract. -/
theorem run_sound {Q : ι → Option α → L → H → Prop} {J : Pool S ι α L H → Prop}
    {C : Pool S ι α L H → ι → Prop}
    (compat : ∀ s i c k, s.prog i = .call c k → J s → C s i →
      (K i).guar c (s.own i, s.shared) (m c (s.own i, s.shared)).2 →
        J (s.step m i) ∧
          ∀ j, j ≠ i → (K j).rely (s.prog j).pending (s.own j) s.shared (s.step m i).shared)
    {s : Pool S ι α L H} (hJ : J s) (hs : s.Ok m K Q) {sched : List ι} (hC : Meets m C s sched) :
    J (s.run m sched) ∧ (s.run m sched).Ok m K Q := by
  induction sched generalizing s with
  | nil => exact ⟨hJ, hs⟩
  | cons i sched ih =>
    rw [run_cons]
    cases hp : s.prog i with
    | call c k =>
      obtain ⟨hg, hok⟩ := hs.step hp
      obtain ⟨hJ', hrely⟩ := compat s i c k hp hJ hC.1 hg
      exact ih hJ' (hok hrely) hC.2
    | ret a =>
      have hstep : s.step m i = s := step_of_ne_call (by rw [hp]; rfl)
      have hC' := hC.2
      rw [hstep] at hC' ⊢
      exact ih hJ hs hC'
    | spin =>
      have hstep : s.step m i = s := step_of_ne_call (by rw [hp]; rfl)
      have hC' := hC.2
      rw [hstep] at hC' ⊢
      exact ih hJ hs hC'

end Pool

end Interaction
