import ClipShare.Interaction.Contract
import ClipShare.Interaction.Stopped

namespace Interaction

/-!
# Programs that issue only some calls, side by side

What a set of calls neither changes nor depends on, no run of programs that are confined to it
changes or depends on, whatever the schedule.

* `Pool.Confined` — every program issues only calls of a set;
* `Pool.Confined.keeps` — a part of the shared state that these calls keep is kept by every run;
* `Pool.Confined.blind` — if the answers to these calls are the same in two shared states, so are
  the programs and their own states after any schedule;
* `Pool.events` — the calls that one program issues under a schedule, and their answers;
* `Pool.Confined.alone` / `ends_alone` — if no call of the set changes an answer to another one,
  every program issues the calls and gets the answers that it would if it ran alone.
-/

namespace Prog

variable {S : Sig} {α L H : Type} {m : Machine S (L × H)} {P : S.Call → Prop} {R : H → H → Prop}

/-- A program that is stopped issues no other calls. -/
theorem Only.upTo {p : Prog S α} (hp : p.Only P) (n : Nat) : (p.upTo n).Only P := by
  induction p generalizing n with
  | ret a => cases n <;> trivial
  | spin => cases n <;> trivial
  | call c k ih =>
    cases n with
    | zero => trivial
    | succ n => exact ⟨hp.1, fun r => ih r (hp.2 r) n⟩

/-- The next call of a program. -/
theorem trace_upTo_one (m : Machine S (L × H)) (c : S.Call) (k : S.Resp c → Prog S α)
    (s : L × H) : ((call c k).upTo 1).trace m s = [⟨c, (m c s).1⟩] := by
  show ⟨c, (m c s).1⟩ :: ((k (m c s).1).upTo 0).trace m (m c s).2 = _
  cases k (m c s).1 <;> rfl

/-- One program does not depend on what its calls cannot see. -/
theorem Only.blind {p : Prog S α} (hp : p.Only P)
    (hR : ∀ c l h h', P c → R h h' → (m c (l, h)).1 = (m c (l, h')).1 ∧
      (m c (l, h)).2.1 = (m c (l, h')).2.1 ∧ R (m c (l, h)).2.2 (m c (l, h')).2.2)
    (l : L) {h h' : H} (h0 : R h h') :
    (p.run m (l, h)).1 = (p.run m (l, h')).1 ∧ (p.run m (l, h)).2.1 = (p.run m (l, h')).2.1 ∧
      p.trace m (l, h) = p.trace m (l, h') := by
  induction p generalizing l h h' with
  | ret a => exact ⟨rfl, rfl, rfl⟩
  | spin => exact ⟨rfl, rfl, rfl⟩
  | call c k ih =>
    obtain ⟨hresp, hown, hshared⟩ := hR c l h h' hp.1 h0
    rw [run_call, run_call, trace_call, trace_call, ← hresp]
    obtain ⟨h1, h2, h3⟩ := ih (m c (l, h)).1 (hp.2 _) (m c (l, h)).2.1 hshared
    rw [show m c (l, h') = ((m c (l, h')).1, (m c (l, h')).2.1, (m c (l, h')).2.2) from rfl, ← hown]
    exact ⟨h1, h2, congrArg _ h3⟩

end Prog

namespace Pool

variable {S : Sig} {ι α L H : Type} [DecidableEq ι] {m : Machine S (L × H)} {P : S.Call → Prop}
  {s : Pool S ι α L H}

/-- The calls that the program `i` issues under a schedule, with their answers. -/
def events (m : Machine S (L × H)) : Pool S ι α L H → List ι → ι → List (Event S)
  | _, [], _ => []
  | s, j :: sched, i =>
      (if j = i then ((s.prog i).upTo 1).trace m (s.own i, s.shared) else []) ++
        (s.step m j).events m sched i

/-- Every program issues only calls of a set. -/
def Confined (P : S.Call → Prop) (s : Pool S ι α L H) : Prop := ∀ i, (s.prog i).Only P

/-- A step of a pool: nothing, or one call of one of the programs. -/
theorem step_cases (m : Machine S (L × H)) (s : Pool S ι α L H) (i : ι) :
    ((s.prog i).pending = none ∧ s.step m i = s) ∨
      ∃ c k, s.prog i = .call c k ∧ s.step m i =
        { prog := Function.update s.prog i (k (m c (s.own i, s.shared)).1)
          own := Function.update s.own i (m c (s.own i, s.shared)).2.1
          shared := (m c (s.own i, s.shared)).2.2 } := by
  cases hp : s.prog i with
  | ret a => exact .inl ⟨rfl, step_of_ne_call (by rw [hp]; rfl)⟩
  | spin => exact .inl ⟨rfl, step_of_ne_call (by rw [hp]; rfl)⟩
  | call c k => exact .inr ⟨c, k, rfl, step_of_call hp⟩

theorem Confined.step (hs : s.Confined P) (i : ι) : (s.step m i).Confined P := by
  rcases step_cases m s i with ⟨-, hstep⟩ | ⟨c, k, hi, hstep⟩
  · rw [hstep]
    exact hs
  · rw [hstep]
    intro j
    by_cases hj : j = i
    · subst hj
      have honly := hs j
      rw [hi] at honly
      simp only [Function.update_self]
      exact honly.2 _
    · simp only [Function.update_of_ne hj]
      exact hs j

/-- **What the calls keep, every run keeps.** -/
theorem Confined.keeps {I : H → Prop} (hs : s.Confined P)
    (hI : ∀ c l h, P c → I h → I (m c (l, h)).2.2) (h0 : I s.shared) (sched : List ι) :
    I (s.run m sched).shared := by
  induction sched generalizing s with
  | nil => exact h0
  | cons i sched ih =>
    refine ih (hs.step i) ?_
    rcases step_cases m s i with ⟨-, hstep⟩ | ⟨c, k, hi, hstep⟩
    · rw [hstep]
      exact h0
    · have honly := hs i
      rw [hi] at honly
      rw [hstep]
      exact hI c _ _ honly.1 h0

/-- **What the calls cannot see, no run can see.**  `R` relates shared states in which the calls of
    the set get the same answers. -/
theorem Confined.blind {R : H → H → Prop} (hs : s.Confined P)
    (hR : ∀ c l h h', P c → R h h' → (m c (l, h)).1 = (m c (l, h')).1 ∧
      (m c (l, h)).2.1 = (m c (l, h')).2.1 ∧ R (m c (l, h)).2.2 (m c (l, h')).2.2)
    {h' : H} (h0 : R s.shared h') (sched : List ι) :
    ∃ h'', ({ s with shared := h' } : Pool S ι α L H).run m sched =
        { s.run m sched with shared := h'' } ∧ R (s.run m sched).shared h'' := by
  induction sched generalizing s h' with
  | nil => exact ⟨h', rfl, h0⟩
  | cons i sched ih =>
    rcases step_cases m s i with ⟨hnone, hstep⟩ | ⟨c, k, hi, hstep⟩
    · rw [run_cons, run_cons, hstep, step_of_ne_call (s := { s with shared := h' }) hnone]
      exact ih hs h0
    · have honly := hs i
      rw [hi] at honly
      obtain ⟨hresp, hown, hshared⟩ := hR c (s.own i) s.shared h' honly.1 h0
      have hconf := hs.step (m := m) i
      rw [run_cons, run_cons, step_of_call (s := { s with shared := h' }) hi]
      rw [hstep] at hconf ⊢
      simp only
      rw [← hresp, ← hown]
      exact ih hconf hshared

section Alone

variable {R : H → H → Prop} (hR : ∀ c l h h', P c → R h h' → (m c (l, h)).1 = (m c (l, h')).1 ∧
  (m c (l, h)).2.1 = (m c (l, h')).2.1 ∧ R (m c (l, h)).2.2 (m c (l, h')).2.2)
  (hkeep : ∀ c l h, P c → R h (m c (l, h)).2.2)
include hR hkeep

/-- **Alone.**  If the calls cannot see what the calls change, a program of the pool has come as
    far as if it had issued its calls alone, with the same answers. -/
theorem Confined.alone (hs : s.Confined P) (sched : List ι) (i : ι) :
    (s.run m sched).own i =
        (((s.prog i).upTo (sched.count i)).run m (s.own i, s.shared)).2.1 ∧
      s.events m sched i =
        ((s.prog i).upTo (sched.count i)).trace m (s.own i, s.shared) := by
  induction sched generalizing s with
  | nil =>
    rw [List.count_nil]
    cases s.prog i <;> exact ⟨rfl, rfl⟩
  | cons j sched ih =>
    obtain ⟨hown, hevents⟩ := ih (hs.step (m := m) j)
    rw [run_cons, hown, events, hevents]
    rcases step_cases m s j with ⟨hnone, hstep⟩ | ⟨c, k, hj, hstep⟩
    · rw [hstep]
      by_cases hij : j = i
      · subst hij
        cases hp : s.prog j with
        | call c k => simp [hp, Prog.pending] at hnone
        | _ => cases List.count j sched <;> simp [Prog.upTo]
      · rw [List.count_cons_of_ne hij, if_neg hij]
        exact ⟨rfl, rfl⟩
    · by_cases hij : j = i
      · subst hij
        rw [hj, if_pos rfl, Prog.trace_upTo_one, List.count_cons_self, hstep]
        simp [Prog.upTo]
      · have honly := hs j
        rw [hj] at honly
        rw [hstep, List.count_cons_of_ne hij, if_neg hij]
        simp only [Function.update_of_ne (Ne.symm hij)]
        obtain ⟨-, h1, h2⟩ := ((hs i).upTo (sched.count i)).blind hR (s.own i)
          (hkeep c (s.own j) s.shared honly.1)
        exact ⟨h1.symm, h2.symm⟩

/-- What is left of a program of the pool ends as the program would have ended alone. -/
theorem Confined.ends_alone (hs : s.Confined P) (sched : List ι) (i : ι) :
    let t := s.run m sched
    ((t.prog i).run m (t.own i, t.shared)).2.1 =
        ((s.prog i).run m (s.own i, s.shared)).2.1 ∧
      s.events m sched i ++ (t.prog i).trace m (t.own i, t.shared) =
        (s.prog i).trace m (s.own i, s.shared) := by
  induction sched generalizing s with
  | nil => exact ⟨rfl, rfl⟩
  | cons j sched ih =>
    obtain ⟨h1, h2⟩ := ih (hs.step (m := m) j)
    rw [run_cons, events]
    simp only [h1, h2, List.append_assoc]
    rcases step_cases m s j with ⟨hnone, hstep⟩ | ⟨c, k, hj, hstep⟩
    · rw [hstep]
      by_cases hij : j = i
      · subst hij
        rw [if_pos rfl]
        cases hp : s.prog j with
        | call c k => simp [hp, Prog.pending] at hnone
        | _ => simp [Prog.upTo]
      · rw [if_neg hij]
        exact ⟨rfl, rfl⟩
    · by_cases hij : j = i
      · subst hij
        rw [hj, if_pos rfl, Prog.trace_upTo_one, hstep]
        simp
      · have honly := hs j
        rw [hj] at honly
        rw [hstep, if_neg hij]
        simp only [Function.update_of_ne (Ne.symm hij)]
        obtain ⟨-, h3, h4⟩ := (hs i).blind hR (s.own i) (hkeep c (s.own j) s.shared honly.1)
        exact ⟨h3.symm, h4.symm⟩

end Alone

end Pool

end Interaction
