import ClipShare.Interaction.Program

namespace Interaction

/-!
# Programs with notes

A program may note what it does between its calls, for instance which part of a buffer it touches.
Nothing answers a note.

* `Sig.withNotes` — a signature with notes; `Prog.note` makes one, and `Prog.lift` is a program
  that makes none;
* `noting` — the machine that keeps the notes;
* `Prog.Tracks` — all notes are good, and without them the program is a given one, as long as the
  answers are the ones that calls can get;
* `Tracks.bind`, `tracks_lift`, `tracks_note` — the rules for sequencing, for a part without notes
  and for a note;
* `Tracks.run` — what is known of every run.
-/

/-- The calls of `S`, and notes. -/
@[reducible] def Sig.withNotes (S : Sig) (N : Type) : Sig where
  Call := S.Call ⊕ N
  Resp := Sum.elim S.Resp fun _ => Unit

variable {S : Sig} {N σ α β α' β' : Type}

/-- The machine that keeps the notes, in order. -/
def noting (m : Machine S σ) : Machine (S.withNotes N) (σ × List N)
  | .inl c, (s, notes) => ((m c s).1, (m c s).2, notes)
  | .inr note, (s, notes) => ((), s, notes ++ [note])

namespace Prog

/-- Make a note. -/
def note (n : N) : Prog (S.withNotes N) Unit := ask (S := S.withNotes N) (.inr n) id

/-- The same program; it makes no notes. -/
def lift : Prog S α → Prog (S.withNotes N) α
  | .ret a => .ret a
  | .call c k => .call (S := S.withNotes N) (.inl c) fun r => (k r).lift
  | .spin => .spin

/-- All notes of the program are good, and without them it is `q`, up to `E` between the values: as
    long as every answer is one that `R` allows. -/
def Tracks (good : N → Prop) (R : (c : S.Call) → S.Resp c → Prop) (E : α → β → Prop) :
    Prog (S.withNotes N) α → Prog S β → Prop
  | .ret a, q => ∃ b, q = .ret b ∧ E a b
  | .call (.inl c) k, q => ∃ k', q = .call c k' ∧ ∀ r, R c r → (k r).Tracks good R E (k' r)
  | .call (.inr n) k, q => good n ∧ (k ()).Tracks good R E q
  | .spin, q => q = .spin

variable {good : N → Prop} {R : (c : S.Call) → S.Resp c → Prop} {E : α → β → Prop}
  {E' : α' → β' → Prop} {p : Prog (S.withNotes N) α} {q : Prog S β}

theorem tracks_ret {a : α} {b : β} (h : E a b) :
    Tracks good R E (ret a : Prog (S.withNotes N) α) (ret b) := ⟨b, rfl, h⟩

theorem tracks_spin : Tracks good R E (spin : Prog (S.withNotes N) α) spin := rfl

/-- A note in front of a program. -/
theorem tracks_note {n : N} {f : Unit → Prog (S.withNotes N) α} (hn : good n)
    (h : Tracks good R E (f ()) q) : Tracks good R E (note n >>= f) q := ⟨hn, h⟩

/-- A part without notes. -/
theorem tracks_lift (q : Prog S α) : Tracks good R Eq (q.lift : Prog (S.withNotes N) α) q := by
  induction q with
  | ret a => exact tracks_ret rfl
  | call c k ih => exact ⟨k, rfl, fun r _ => ih r⟩
  | spin => exact tracks_spin

/-- Sequencing. -/
theorem Tracks.bind {f : α → Prog (S.withNotes N) α'} {g : β → Prog S β'}
    (h : Tracks good R E p q) (hf : ∀ a b, E a b → Tracks good R E' (f a) (g b)) :
    Tracks good R E' (p >>= f) (q >>= g) := by
  induction p generalizing q with
  | ret a =>
    obtain ⟨b, rfl, hab⟩ := h
    exact hf a b hab
  | call c k ih =>
    cases c with
    | inl c =>
      obtain ⟨k', rfl, hk⟩ := h
      exact ⟨fun r => k' r >>= g, rfl, fun r hr => ih r (hk r hr)⟩
    | inr n => exact ⟨h.1, ih () h.2⟩
  | spin =>
    obtain rfl : q = spin := h
    exact tracks_spin

/-- What follows only makes notes. -/
theorem Tracks.bind_left {E' : α' → β → Prop} {f : α → Prog (S.withNotes N) α'}
    (h : Tracks good R E p q) (hf : ∀ a b, E a b → Tracks good R E' (f a) (ret b)) :
    Tracks good R E' (p >>= f) q := by
  rw [← bind_ret q]
  exact h.bind hf

/-- **Runs.**  A run that keeps the notes has the value and the final state of the run without them,
    and all notes that it makes are good. -/
theorem Tracks.run {q : Prog S α} {m : Machine S σ} (h : Tracks good R Eq p q)
    (hm : ∀ c s, R c (m c s).1) (s : σ) (notes : List N) :
    ∃ made, (∀ n ∈ made, good n) ∧
      p.run (noting m) (s, notes) = ((q.run m s).1, (q.run m s).2, notes ++ made) := by
  induction p generalizing q s notes with
  | ret a =>
    obtain ⟨b, rfl, rfl⟩ := h
    exact ⟨[], nofun, by rw [List.append_nil]; rfl⟩
  | call c k ih =>
    cases c with
    | inl c =>
      obtain ⟨k', rfl, hk⟩ := h
      exact ih _ (hk _ (hm c s)) _ notes
    | inr n =>
      obtain ⟨made, hmade, hrun⟩ := ih () h.2 s (notes ++ [n])
      refine ⟨n :: made, List.forall_mem_cons.mpr ⟨h.1, hmade⟩, ?_⟩
      rw [List.append_assoc, List.singleton_append] at hrun
      exact hrun
  | spin =>
    obtain rfl : q = spin := h
    exact ⟨[], nofun, by rw [List.append_nil]; rfl⟩

end Prog

end Interaction
