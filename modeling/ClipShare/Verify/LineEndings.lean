import ClipShare.Server.InPlace
import ClipShare.Server.Windows
import ClipShare.Verify.Text

namespace ClipShare

open Interaction Posix

/-!
# Line endings in place

The conversions of line endings work on one buffer with two cursors.  They are compared with what
they are for: `lfForm` and `crlfForm` look at each byte together with its neighbour.

* `convertToLfInPlace_spec` — the conversion to LF moves bytes towards the start;
* `convertEolWindows_spec` — the conversion to CRLF moves them towards the end, in a block that
  has grown by exactly the CRs that are missing;
* `convertToLf_crlfForm` — the second conversion undoes the first.
-/

/-! ### What the conversions are for -/

/-- The bytes of `s` without each CR that an LF follows. -/
def lfForm (s : Bytes) : Bytes :=
  ((s.zip (s.tail ++ [0])).filter fun p => ¬ (p.1 = 0x0d ∧ p.2 = 0x0a)).map Prod.fst

/-- What the conversion to LF does with a byte depends on the byte after it. -/
theorem convertToLf_cons (c : UInt8) (s : Bytes) :
    convertToLf (c :: s) =
      if c = 0x0d ∧ s.head?.getD 0 = 0x0a then convertToLf s else c :: convertToLf s := by
  cases s with
  | nil =>
    have hne : ¬ (c = 0x0d ∧ (List.head? ([] : Bytes)).getD 0 = 0x0a) := fun h => by cases h.2
    rw [if_neg hne]
    rfl
  | cons d s => rw [convertToLf, List.head?_cons, Option.getD_some]

/-- **The list function is the replacement.** -/
theorem convertToLf_eq_lfForm (s : Bytes) : convertToLf s = lfForm s := by
  induction s with
  | nil => rfl
  | cons c s ih =>
    have hzip : (c :: s).zip ((c :: s).tail ++ [0])
        = (c, s.head?.getD 0) :: s.zip (s.tail ++ [0]) := by
      cases s <;> rfl
    rw [convertToLf_cons, ih]
    unfold lfForm
    rw [hzip]
    by_cases h : c = 0x0d ∧ s.head?.getD 0 = 0x0a
    · rw [if_pos h, List.filter_cons, if_neg fun e => absurd h (of_decide_eq_true e)]
    · rw [if_neg h, List.filter_cons, if_pos (decide_eq_true h), List.map_cons]

theorem crlfFrom_cons (prev c : UInt8) (s : Bytes) :
    crlfFrom prev (c :: s) =
      (if c = 0x0a ∧ prev ≠ 0x0d then [0x0d, 0x0a] else [c]) ++ crlfFrom c s := rfl

/-- The last byte of a string, or what precedes it. -/
def lastOr (prev : UInt8) (s : Bytes) : UInt8 := s.getLast?.getD prev

theorem lastOr_cons (prev c : UInt8) (s : Bytes) : lastOr prev (c :: s) = lastOr c s := by
  unfold lastOr
  rw [List.getLast?_cons]
  rfl

/-- What one more byte adds. -/
theorem crlfFrom_snoc (prev : UInt8) (s : Bytes) (c : UInt8) :
    crlfFrom prev (s ++ [c]) =
      crlfFrom prev s ++ if c = 0x0a ∧ lastOr prev s ≠ 0x0d then [0x0d, 0x0a] else [c] := by
  induction s generalizing prev with
  | nil => exact List.append_nil _
  | cons d s ih =>
    rw [List.cons_append, crlfFrom_cons, ih, crlfFrom_cons, lastOr_cons, List.append_assoc]

/-- The conversion does not make a text shorter. -/
theorem length_le_crlfFrom (prev : UInt8) (s : Bytes) : s.length ≤ (crlfFrom prev s).length := by
  induction s generalizing prev with
  | nil => exact Nat.le_refl 0
  | cons c s ih =>
    have hs := ih c
    rw [crlfFrom_cons, List.length_append, List.length_cons]
    split <;> simp only [List.length_cons, List.length_nil] <;> omega

/-- The first byte that is not a CR of its own is an LF exactly if it was one. -/
theorem head_crlfFrom (prev : UInt8) (s : Bytes) (h : prev = 0x0d) :
    (crlfFrom prev s).head?.getD 0 = s.head?.getD 0 := by
  cases s with
  | nil => rfl
  | cons c s =>
    rw [crlfFrom_cons, if_neg fun hc => hc.2 h]
    rfl

/-- **Inverse.**  The conversion to LF gives the same for a text and for its form with CRLF. -/
theorem convertToLf_crlfFrom (prev : UInt8) (s : Bytes) :
    convertToLf (crlfFrom prev s) = convertToLf s := by
  induction s generalizing prev with
  | nil => rfl
  | cons c s ih =>
    rw [crlfFrom_cons, convertToLf_cons c s, ← ih c]
    by_cases hnew : c = 0x0a ∧ prev ≠ 0x0d
    · -- the CR that was put in is taken out
      have hc : ¬ (c = 0x0d ∧ s.head?.getD 0 = 0x0a) := fun h => by
        rw [hnew.1] at h
        exact absurd h.1 (by decide)
      rw [if_pos hnew, if_neg hc, List.cons_append, List.cons_append, List.nil_append,
        convertToLf_cons, if_pos ⟨rfl, rfl⟩, convertToLf_cons,
        if_neg fun h => absurd h.1 (by decide), hnew.1]
    · rw [if_neg hnew, List.cons_append, List.nil_append, convertToLf_cons]
      by_cases hcr : c = 0x0d
      · rw [head_crlfFrom c s hcr]
      · rw [if_neg fun h => hcr h.1, if_neg fun h => hcr h.1]

/-! ### To LF -/

variable {A : Allocator} {m : Memory} {fuel : Nat}

/-- A call that stays inside the block and does not read what was overwritten. -/
def Careful (c : MemCall) (m : Memory) : Prop := c.Inside m ∧ c.Fresh m

theorem careful_load {i : Nat} (hi : i < m.size) (hnew : m.stored i = false) :
    Careful (.load i) m := ⟨hi, hnew⟩

theorem careful_store {i : Nat} {b : UInt8} (hi : i < m.size) : Careful (.store i b) m :=
  ⟨hi, trivial⟩

/-- A byte is dropped if it is a CR and the next one an LF. -/
theorem ensures_keepsByte {c : UInt8} {i : Nat} (hi : Careful (.load i) m) :
    (keepsByte c i).Ensures (memory A) Careful m fun r m' =>
      r = !decide (c = 0x0d ∧ m.byte i = 0x0a) ∧ m' = m := by
  unfold keepsByte
  by_cases hc : c = 0x0d
  · rw [if_neg (not_not.mpr hc), load_bind, ensures_load]
    refine ⟨hi, ?_, rfl⟩
    simp only [hc, true_and, ne_eq, decide_not]
  · rw [if_pos hc]
    exact ⟨by simp only [hc, false_and, decide_false, Bool.not_false], rfl⟩

/-- Between two rounds of `_convert_to_lf`: `out` has been written, `rest` is still to be read, and
    it has not been touched. -/
structure LfInv (s out rest : Bytes) (ptrs : Nat × Nat) (m : Memory) : Prop where
  shown : m.Shows 0 out
  left : m.Holds ptrs.1 rest
  nul : (0 : UInt8) ∉ rest
  total : out ++ convertToLf rest = convertToLf s
  newPtr : ptrs.2 = out.length
  oldPtr : ptrs.1 + rest.length = s.length
  le : ptrs.2 ≤ ptrs.1
  size : s.length < m.size
  fresh : ∀ i, ptrs.2 ≤ i → m.stored i = false

/-- **Step lemma.**  A round reads at most one byte ahead, and writes behind what it has read. -/
theorem convertToLfRound_step {s out rest : Bytes} {ptrs : Nat × Nat}
    (h : LfInv s out rest ptrs m) :
    (convertToLfRound ptrs).Ensures (memory A) Careful m (Prog.Next
      (fun ptrs' m' => (∃ out rest, LfInv s out rest ptrs' m') ∧
        s.length - ptrs'.1 < s.length - ptrs.1)
      (fun newPtr m' => newPtr = (convertToLf s).length ∧ m'.Shows 0 (convertToLf s) ∧
        s.length < m'.size ∧ newPtr ≤ s.length)) := by
  have hsize := h.size
  have hold := h.oldPtr
  have hle := h.le
  unfold convertToLfRound
  rw [load_bind, ensures_load]
  refine ⟨careful_load (by omega) (h.fresh _ h.le), ?_⟩
  cases rest with
  | nil =>
    -- the NUL is read
    have hout : out = convertToLf s := by
      rw [← h.total]
      exact (List.append_nil out).symm
    have hlen := h.newPtr
    rw [if_pos (Memory.holds_nil.mp h.left)]
    rw [List.length_nil] at hold
    rw [hout] at hlen
    refine ⟨hlen, ?_, hsize, by omega⟩
    rw [← hout]
    exact h.shown
  | cons c rest =>
    have hnul := h.nul
    rw [List.mem_cons, not_or] at hnul
    rw [List.length_cons] at hold
    obtain ⟨hc, hrest⟩ := Memory.holds_cons.mp h.left
    have hnext : m.byte (ptrs.1 + 1) = rest.head?.getD 0 := hrest.byte_eq
    have htotal := h.total
    rw [convertToLf_cons] at htotal
    rw [if_neg (hc ▸ fun e => hnul.1 e.symm), hc]
    have hahead : Careful (.load (ptrs.1 + 1)) m :=
      careful_load (by omega) (h.fresh _ (by omega))
    refine (ensures_keepsByte hahead).bind ?_
    rintro keep m' ⟨rfl, rfl⟩
    rw [hnext]
    by_cases hdrop : c = 0x0d ∧ rest.head?.getD 0 = 0x0a
    · rw [if_pos hdrop] at htotal
      rw [decide_eq_true hdrop]
      refine ⟨⟨out, rest, ?_⟩, by show _ - (ptrs.1 + 1) < _; omega⟩
      exact ⟨h.shown, hrest, hnul.2, htotal, h.newPtr, by show ptrs.1 + 1 + _ = _; omega,
        by show ptrs.2 ≤ ptrs.1 + 1; omega, h.size, h.fresh⟩
    · rw [if_neg hdrop] at htotal
      rw [decide_eq_false hdrop]
      show Prog.Ensures _ _ (put ptrs.2 c >>= _) _ _
      rw [put_bind, ensures_store]
      refine ⟨careful_store (by omega), ⟨out ++ [c], rest, ?_⟩,
        by show _ - (ptrs.1 + 1) < _; omega⟩
      have hnewPtr : ptrs.2 = 0 + out.length := by rw [h.newPtr, Nat.zero_add]
      refine ⟨h.shown.set_append hnewPtr, hrest.set_of_lt (by omega), hnul.2, ?_, ?_,
        by show ptrs.1 + 1 + _ = _; omega, by show ptrs.2 + 1 ≤ ptrs.1 + 1; omega, h.size, ?_⟩
      · rw [List.append_assoc]
        exact htotal
      · rw [List.length_append, ← h.newPtr]
        rfl
      · intro i hi
        have hne : i ≠ ptrs.2 := fun e => by
          rw [e] at hi
          exact absurd hi (Nat.not_succ_le_self _)
        rw [Memory.set_stored, Function.update_of_ne hne]
        exact h.fresh i (Nat.le_of_succ_le hi)

/-- **Run lemma.** -/
theorem ensures_convertToLf {s : Bytes} (hs : m.Holds 0 s) (h0 : (0 : UInt8) ∉ s)
    (hsize : s.length < m.size) (hfresh : ∀ i, m.stored i = false) (hfuel : s.length < fuel) :
    (convertToLfInPlace fuel).Ensures (memory A) Careful m fun len m' =>
      len = (convertToLf s).length ∧ m'.Holds 0 (convertToLf s) := by
  have hstart : LfInv s [] s (0, 0) m :=
    ⟨Memory.shows_nil, hs, h0, List.nil_append _, rfl, Nat.zero_add _, le_rfl, hsize,
      fun i _ => hfresh i⟩
  refine Prog.Ensures.bind
    (Q := fun newPtr m' => newPtr = (convertToLf s).length ∧ m'.Shows 0 (convertToLf s) ∧
      s.length < m'.size ∧ newPtr ≤ s.length)
    (Prog.Ensures.loop (I := fun ptrs m' => ∃ out rest, LfInv s out rest ptrs m')
      (μ := fun ptrs => s.length - ptrs.1) ?_ (Nat.lt_of_le_of_lt (Nat.sub_le _ _) hfuel)
      ⟨[], s, hstart⟩) ?_
  · rintro ptrs m' ⟨out, rest, h⟩
    exact convertToLfRound_step h
  · rintro newPtr m' ⟨rfl, hshown, hsize', hle⟩
    rw [put_bind, ensures_store]
    exact ⟨careful_store (by omega), rfl, hshown.set_nul (Nat.zero_add _).symm⟩

/-- **In-place conversion to LF.**  From a block that holds a string, `_convert_to_lf` makes one
    that holds the string without each CR that an LF follows.  It returns the length, stays
    inside the string and its NUL, and does not read a byte that it has overwritten. -/
theorem convertToLfInPlace_spec (A : Allocator) (s : Bytes) (h0 : (0 : UInt8) ∉ s) (fuel : Nat)
    (hfuel : s.length < fuel) :
    (convertToLfInPlace fuel).Ensures (memory A) (fun c m => c.Inside m ∧ c.Fresh m)
      (Memory.ofBlock (s ++ [0])) fun len m =>
        len = (lfForm s).length ∧ m.Holds 0 (lfForm s) := by
  rw [← convertToLf_eq_lfForm]
  refine ensures_convertToLf (Memory.holds_ofBlock s []) h0 ?_ (fun _ => rfl) hfuel
  show s.length < (s ++ [0]).length
  rw [List.length_append]
  exact Nat.lt_succ_self _

/-- `convertToLfInPlace_spec` for two CRs, of which one is dropped. -/
theorem convertToLfInPlace_line :
    (convertToLfInPlace 5).Ensures (memory ⟨fun _ => 0, 0⟩) (fun c m => c.Inside m ∧ c.Fresh m)
      (Memory.ofBlock (ascii "a\r\n\r" ++ [0])) fun len m => len = 3 ∧ m.Holds 0 (ascii "a\n\r") :=
  convertToLfInPlace_spec ⟨fun _ => 0, 0⟩ (ascii "a\r\n\r") (by decide) 5 (by decide)

/-! ### To CRLF: the size -/

/-- A text that does not become longer does not change. -/
theorem crlfFrom_eq_self {prev : UInt8} {s : Bytes} (h : (crlfFrom prev s).length = s.length) :
    crlfFrom prev s = s := by
  induction s generalizing prev with
  | nil => rfl
  | cons c s ih =>
    have hle := length_le_crlfFrom c s
    rw [crlfFrom_cons, List.length_append, List.length_cons] at h
    by_cases hnew : c = 0x0a ∧ prev ≠ 0x0d
    · rw [if_pos hnew, List.length_cons, List.length_cons, List.length_nil] at h
      omega
    · rw [if_neg hnew, List.length_cons, List.length_nil] at h
      rw [crlfFrom_cons, if_neg hnew, ih (by omega)]
      rfl

/-- The byte before the end of a string. -/
theorem byte_lastOr {a : Bytes} (h : m.Shows 0 a) (hne : a ≠ []) (prev : UInt8) :
    m.byte (a.length - 1) = lastOr prev a := by
  have hlast : a[a.length - 1]? = some (a.getLast hne) := by
    rw [← List.getLast?_eq_getElem?, List.getLast?_eq_some_getLast hne]
  have hbyte := h _ _ hlast
  rw [Nat.zero_add] at hbyte
  rw [hbyte, lastOr, List.getLast?_eq_some_getLast hne]
  rfl

/-- A byte needs a CR if it is an LF and the byte before it is none. -/
theorem ensures_lacksCr {a : Bytes} {c : UInt8} (ha : m.Shows 0 a)
    (hprev : a ≠ [] → Careful (.load (a.length - 1)) m) :
    (lacksCr c a.length).Ensures (memory A) Careful m fun r m' =>
      r = decide (c = 0x0a ∧ lastOr 0 a ≠ 0x0d) ∧ m' = m := by
  unfold lacksCr
  by_cases hc : c = 0x0a
  · rw [if_neg (not_not.mpr hc)]
    by_cases hnil : a = []
    · rw [hnil, hc, List.length_nil, if_pos rfl]
      exact ⟨rfl, rfl⟩
    · have hlen : a.length ≠ 0 := fun e => hnil (List.length_eq_zero_iff.mp e)
      rw [if_neg hlen, load_bind, ensures_load]
      refine ⟨hprev hnil, ?_, rfl⟩
      rw [byte_lastOr ha hnil 0]
      simp only [hc, true_and]
  · rw [if_pos hc]
    exact ⟨by simp only [hc, false_and, decide_false], rfl⟩

/-- Between two rounds of the counting loop: the length that the bytes seen so far will have. -/
structure CountInv (s a rest : Bytes) (counters : Nat × Nat) (m : Memory) : Prop where
  split : a ++ rest = s
  ind : counters.1 = a.length
  increase : counters.1 + counters.2 = (crlfFrom 0 a).length

/-- **Step lemma.**  A round counts the CR that its byte needs. -/
theorem countLfRound_step {s a rest : Bytes} {counters : Nat × Nat} (hs : m.Holds 0 s)
    (h0 : (0 : UInt8) ∉ s) (hload : ∀ i ≤ s.length, Careful (.load i) m)
    (h : CountInv s a rest counters m) :
    (countLfRound counters).Ensures (memory A) Careful m (Prog.Next
      (fun counters' m' => (m' = m ∧ ∃ a rest, CountInv s a rest counters' m) ∧
        s.length - counters'.1 < s.length - counters.1)
      (fun counters' m' => m' = m ∧ counters'.1 = s.length ∧
        counters'.1 + counters'.2 = (crlfForm s).length)) := by
  have hsplit := h.split
  have hlen : a.length + rest.length = s.length := by
    rw [← hsplit, List.length_append]
  have hholds := hs
  rw [← hsplit, Memory.holds_append, Nat.zero_add, ← h.ind] at hholds
  have hcur : Careful (.load counters.1) m := hload _ (by rw [h.ind]; omega)
  unfold countLfRound
  rw [load_bind, ensures_load]
  refine ⟨hcur, ?_⟩
  cases rest with
  | nil =>
    rw [if_pos (Memory.holds_nil.mp hholds.2)]
    rw [List.append_nil] at hsplit
    refine ⟨rfl, ?_, ?_⟩
    · rw [h.ind, hsplit]
    · rw [h.increase, hsplit]
      rfl
  | cons c rest =>
    have hc : m.byte counters.1 = c := hholds.2.1
    have hc0 : m.byte counters.1 ≠ 0 := fun e => h0 (by
      rw [← hsplit, ← e, hc]
      exact List.mem_append_right _ List.mem_cons_self)
    rw [List.length_cons] at hlen
    rw [if_neg hc0, load_bind, ensures_load, hc, h.ind]
    refine ⟨hload _ (by omega), ?_⟩
    refine (ensures_lacksCr hholds.1 fun _ => hload _ (by omega)).bind ?_
    rintro lacks m' ⟨rfl, rfl⟩
    have hsplit' : (a ++ [c]) ++ rest = s := by
      rw [List.append_assoc]
      exact hsplit
    have hsnoc := crlfFrom_snoc 0 a c
    have hinc := h.increase
    have hind := h.ind
    by_cases hnew : c = 0x0a ∧ lastOr 0 a ≠ 0x0d
    · rw [if_pos hnew] at hsnoc
      rw [decide_eq_true hnew]
      refine ⟨⟨rfl, a ++ [c], rest, hsplit', ?_, ?_⟩, by show _ - (a.length + 1) < _; omega⟩
      · rw [List.length_append, List.length_singleton]
      · rw [hsnoc, List.length_append, ← hinc]
        show a.length + 1 + (counters.2 + 1) = _
        rw [List.length_cons, List.length_cons, List.length_nil]
        omega
    · rw [if_neg hnew] at hsnoc
      rw [decide_eq_false hnew]
      refine ⟨⟨rfl, a ++ [c], rest, hsplit', ?_, ?_⟩, by show _ - (a.length + 1) < _; omega⟩
      · rw [List.length_append, List.length_singleton]
      · rw [hsnoc, List.length_append, ← hinc, List.length_singleton]
        show a.length + 1 + counters.2 = _
        omega

/-- `_realloc_for_crlf` finds the length of the converted text, and makes room for it if it is
    longer and not too long. -/
theorem ensures_reallocForCrlf {s : Bytes} (hs : m.Holds 0 s) (h0 : (0 : UInt8) ∉ s)
    (hload : ∀ i ≤ s.length, Careful (.load i) m)
    (hroom : (crlfForm s).length < 2 ^ 32 - 1 → (crlfForm s).length + 1 ≤ A.room)
    (hfuel : s.length < fuel) :
    (reallocForCrlf fuel).Ensures (memory A) Careful m fun r m' =>
      ((crlfForm s).length = s.length ∧ r = some (false, s.length) ∧ m' = m) ∨
      (s.length < (crlfForm s).length ∧ 2 ^ 32 - 1 ≤ (crlfForm s).length ∧ r = none ∧ m' = m) ∨
      (s.length < (crlfForm s).length ∧ (crlfForm s).length < 2 ^ 32 - 1 ∧
        r = some (true, (crlfForm s).length) ∧
        m' = m.grow A.junk ((crlfForm s).length + 1)) := by
  refine Prog.Ensures.bind
    (Q := fun counters m' => m' = m ∧ counters.1 = s.length ∧
      counters.1 + counters.2 = (crlfForm s).length)
    (Prog.Ensures.loop (I := fun counters m' => m' = m ∧ ∃ a rest, CountInv s a rest counters m)
      (μ := fun counters => s.length - counters.1) ?_ (Nat.lt_of_le_of_lt (Nat.sub_le _ _) hfuel)
      ⟨rfl, [], s, rfl, rfl, rfl⟩) ?_
  · rintro counters m' ⟨rfl, a, rest, h⟩
    exact countLfRound_step hs h0 hload h
  · rintro ⟨ind, increase⟩ m' ⟨rfl, hind, hlen⟩
    have hlen' : ind + increase = (crlfForm s).length := hlen
    have hind' : ind = s.length := hind
    show Prog.Ensures _ _ (if increase = 0 then _ else _) _ _
    by_cases hinc : increase = 0
    · rw [if_pos hinc]
      exact .inl ⟨by omega, by rw [← hind'], rfl⟩
    · rw [if_neg hinc]
      show Prog.Ensures _ _ (if ind + increase ≥ 0xFFFFFFFF then _ else _) _ _
      rw [hlen']
      by_cases hlong : (crlfForm s).length ≥ 0xFFFFFFFF
      · rw [if_pos hlong]
        exact .inr (.inl ⟨by omega, hlong, rfl, rfl⟩)
      · rw [if_neg hlong]
        show Prog.Ensures _ _ (resize _ >>= _) _ _
        rw [resize_bind, ensures_realloc (hroom (by omega))]
        exact ⟨⟨trivial, trivial⟩, .inr (.inr ⟨by omega, by omega, rfl, rfl⟩)⟩

/-! ### To CRLF: the bytes -/

/-- What is left to be done of `_convert_to_crlf`: the bytes of `a` still have their places, and
    behind the place where their form will end there is the form of the others. -/
structure CrlfInv (s a done : Bytes) (m : Memory) : Prop where
  shown : m.Shows 0 a
  written : m.Holds (crlfFrom 0 a).length done
  total : crlfFrom 0 a ++ done = crlfForm s
  size : (crlfForm s).length < m.size
  fresh : ∀ i < (crlfFrom 0 a).length, m.stored i = false

theorem sizePred_succ (n : Nat) : sizePred (n + 1) = n := if_neg (Nat.succ_ne_zero n)

/-- The bytes of `a` are left, and the next round begins with the last one of them. -/
def CrlfLeft (s a : Bytes) (inds : Nat × Nat) (m : Memory) : Prop :=
  ∃ a' c done, a = a' ++ [c] ∧ inds = (a'.length, sizePred (crlfFrom 0 a).length) ∧
    CrlfInv s a done m

/-- The end of a round, once the form of the last byte is in its place. -/
theorem CrlfInv.next {s : Bytes} (a done : Bytes) (h : CrlfInv s a done m) :
    (if a.length = 0 then (return .inr () : MemProg ((Nat × Nat) ⊕ Unit))
      else return .inl (sizePred a.length, sizePred (crlfFrom 0 a).length)).Ensures (memory A)
      Careful m (Prog.Next (fun inds' m' => CrlfLeft s a inds' m' ∧ inds'.1 < a.length)
        fun _ m' => m'.Holds 0 (crlfForm s)) := by
  rcases List.eq_nil_or_concat a with rfl | ⟨a', c, rfl⟩
  · -- all bytes are in their places
    have hwritten := h.written
    rw [List.length_nil, if_pos rfl, ← h.total]
    exact hwritten
  · rw [List.concat_eq_append] at h ⊢
    rw [List.length_append, List.length_singleton, if_neg (Nat.succ_ne_zero _), sizePred_succ]
    exact ⟨⟨a', c, done, rfl, rfl, h⟩, Nat.lt_succ_self _⟩

/-- **Step lemma.**  A round puts the form of the last byte where it belongs. -/
theorem convertToCrlfRound_step {s a done : Bytes} {c : UInt8}
    (h : CrlfInv s (a ++ [c]) done m) :
    (convertToCrlfRound (a.length, sizePred (crlfFrom 0 (a ++ [c])).length)).Ensures (memory A)
      Careful m (Prog.Next (fun inds' m' => CrlfLeft s a inds' m' ∧ inds'.1 < a.length)
        fun _ m' => m'.Holds 0 (crlfForm s)) := by
  have hsnoc := crlfFrom_snoc 0 a c
  have hgrow : a.length ≤ (crlfFrom 0 a).length := length_le_crlfFrom 0 a
  obtain ⟨hshown, hwritten, htotal, hsize, hfresh⟩ := h
  rw [hsnoc] at hwritten htotal hfresh ⊢
  rw [← htotal, List.length_append] at hsize
  obtain ⟨ha, hc⟩ := Memory.shows_append.mp hshown
  rw [Nat.zero_add, Memory.shows_cons] at hc
  -- the byte is in the block, and no round has stored anything at its place
  have hload : a.length < m.size ∧ m.stored a.length = false := by
    refine ⟨?_, hfresh _ ?_⟩
    · split at hsize <;> simp only [List.length_cons, List.length_append] at hsize <;> omega
    · rw [List.length_append]
      split <;> simp only [List.length_cons] <;> omega
  unfold convertToCrlfRound
  rw [load_bind, ensures_load, hc.1]
  refine ⟨hload, ?_⟩
  by_cases hnew : c = 0x0a ∧ lastOr 0 a ≠ 0x0d
  · -- the byte is an LF that needs a CR: the LF is stored first, at the last free place
    rw [if_pos hnew] at hwritten htotal hsize hfresh ⊢
    have hlen : (crlfFrom 0 a ++ [0x0d, 0x0a]).length = (crlfFrom 0 a).length + 1 + 1 :=
      List.length_append
    rw [hlen] at hwritten hsize hfresh ⊢
    rw [sizePred_succ, put_bind, ensures_store]
    refine ⟨careful_store (by omega), ?_⟩
    have ha1 : (m.set ((crlfFrom 0 a).length + 1) c).Shows 0 a := ha.set_of_le (by omega)
    have hw1 : (m.set ((crlfFrom 0 a).length + 1) c).Holds _ (c :: done) := hwritten.set_cons
    -- the byte before it, which decides about the CR, is still the one of the text
    have hprev : a ≠ [] →
        Careful (.load (a.length - 1)) (m.set ((crlfFrom 0 a).length + 1) c) := by
      intro _
      refine careful_load (by rw [Memory.set_size]; omega) ?_
      rw [Memory.set_stored, Function.update_of_ne (by omega)]
      exact hfresh _ (by omega)
    refine (ensures_lacksCr ha1 hprev).bind ?_
    rintro lacks m' ⟨rfl, rfl⟩
    rw [decide_eq_true hnew]
    show Prog.Ensures _ _ (put (sizePred ((crlfFrom 0 a).length + 1)) 0x0d >>= _) _ _
    -- the CR is stored before it, and the round ends two places further down
    rw [sizePred_succ, put_bind, ensures_store]
    refine ⟨careful_store (by rw [Memory.set_size]; omega), ?_⟩
    refine CrlfInv.next a (0x0d :: c :: done)
      ⟨ha1.set_of_le (by omega), hw1.set_cons, ?_, ?_, ?_⟩
    · rw [← htotal, hnew.1, List.append_assoc]
      rfl
    · rw [← htotal, List.length_append, hlen]
      exact hsize
    · -- both places are behind what is left
      intro i hi
      rw [Memory.set_stored, Function.update_of_ne (by omega), Memory.set_stored,
        Function.update_of_ne (by omega)]
      exact hfresh i (by omega)
  · -- the byte moves as it is, maybe to the place where it is already
    rw [if_neg hnew] at hwritten htotal hsize hfresh ⊢
    rw [List.length_append, List.length_singleton] at hwritten hsize hfresh ⊢
    rw [sizePred_succ, put_bind, ensures_store]
    refine ⟨careful_store (by omega), ?_⟩
    have ha1 : (m.set (crlfFrom 0 a).length c).Shows 0 a := ha.set_of_le (by omega)
    -- the place is not before the end of what is left, so the byte before is untouched
    have hprev : a ≠ [] → Careful (.load (a.length - 1)) (m.set (crlfFrom 0 a).length c) := by
      intro hne
      have hpos := List.length_pos_iff.mpr hne
      refine careful_load (by rw [Memory.set_size]; omega) ?_
      rw [Memory.set_stored, Function.update_of_ne (by omega)]
      exact hfresh _ (by omega)
    refine (ensures_lacksCr ha1 hprev).bind ?_
    rintro lacks m' ⟨rfl, rfl⟩
    -- no CR is stored
    rw [decide_eq_false hnew]
    refine CrlfInv.next a (c :: done) ⟨ha1, hwritten.set_cons, ?_, ?_, ?_⟩
    · rw [← htotal, List.append_assoc]
      rfl
    · rw [← htotal, List.length_append, List.length_append, List.length_singleton]
      exact hsize
    · intro i hi
      rw [Memory.set_stored, Function.update_of_ne (by omega)]
      exact hfresh i (by omega)

/-- **Run lemma.**  In a block with room for exactly the CRs that are missing, `_convert_to_crlf`
    leaves the converted text. -/
theorem ensures_convertToCrlf {s : Bytes} (hs : m.Holds 0 s) (h0 : (0 : UInt8) ∉ s)
    (hlonger : s.length < (crlfForm s).length) (hsize : m.size = (crlfForm s).length + 1)
    (hfresh : ∀ i, m.stored i = false) (hfuel : s.length < fuel) :
    (convertToCrlfInPlace fuel (crlfForm s).length).Ensures (memory A) Careful m fun _ m' =>
      m'.Holds 0 (crlfForm s) := by
  unfold convertToCrlfInPlace
  rw [put_bind, ensures_store]
  refine ⟨careful_store (by omega), ?_⟩
  have hs' : (m.set (crlfForm s).length 0).Holds 0 s :=
    hs.congr fun k _ hk => Function.update_of_ne (by omega) _ _
  have hstored : ∀ i < (crlfForm s).length, (m.set (crlfForm s).length 0).stored i = false := by
    intro i hi
    rw [Memory.set_stored, Function.update_of_ne (by omega)]
    exact hfresh i
  have hload : ∀ k, 0 ≤ k → k ≤ 0 + s.length →
      Careful (.load k) (m.set (crlfForm s).length 0) := fun k _ hk =>
    careful_load (by rw [Memory.set_size]; omega) (hstored k (by omega))
  refine (ensures_strnlenFrom hs' h0 (by omega) hload).bind ?_
  rintro len m' ⟨hlen, rfl⟩
  rw [hlen, Nat.zero_add]
  have hne : s ≠ [] := fun e => by
    rw [e] at hlonger
    exact absurd hlonger (Nat.lt_irrefl 0)
  obtain ⟨a, c, rfl⟩ : ∃ a c, s = a ++ [c] :=
    ⟨s.dropLast, s.getLast hne, (List.dropLast_append_getLast hne).symm⟩
  have hstart : CrlfInv (a ++ [c]) (a ++ [c]) [] (m.set (crlfForm (a ++ [c])).length 0) :=
    ⟨(Memory.holds_iff.mp hs').1, Function.update_self _ _ _, List.append_nil _,
      by rw [Memory.set_size, hsize]; exact Nat.lt_succ_self _, hstored⟩
  rw [List.length_append, List.length_singleton, sizePred_succ]
  refine Prog.Ensures.loop
    (I := fun inds m' => ∃ a' c' done, CrlfInv (a ++ [c]) (a' ++ [c']) done m' ∧
      inds = (a'.length, sizePred (crlfFrom 0 (a' ++ [c'])).length))
    (μ := fun inds => inds.1) ?_ ?_ ⟨a, c, [], hstart, rfl⟩
  · rintro inds m' ⟨a', c', done, h, rfl⟩
    refine (convertToCrlfRound_step h).mono ?_
    rintro (inds' | u) m'' hr
    · obtain ⟨⟨b, d, done', rfl, rfl, h'⟩, hlt⟩ := hr
      exact ⟨⟨b, d, done', h', rfl⟩, hlt⟩
    · exact hr
  · rw [List.length_append, List.length_singleton] at hfuel
    show a.length < fuel
    omega

theorem Windows.convertEol_true {s : Bytes} (h0 : (0 : UInt8) ∉ s) :
    Windows.convertEol true s = some (convertToLf s) := by
  unfold Windows.convertEol
  rw [cstr_of_not_mem h0]
  rfl

theorem Windows.convertEol_false {s : Bytes} (h0 : (0 : UInt8) ∉ s) :
    Windows.convertEol false s =
      if (crlfForm s).length = s.length then some s
      else if (crlfForm s).length ≥ 0xFFFFFFFF then none else some (crlfForm s) := by
  unfold Windows.convertEol
  rw [cstr_of_not_mem h0]
  rfl

/-- **The programs compute the list function.** -/
theorem ensures_convertEolWindows {s : Bytes} (h0 : (0 : UInt8) ∉ s) (forceLf : Bool)
    (hroom : (crlfForm s).length < 2 ^ 32 - 1 → (crlfForm s).length + 1 ≤ A.room)
    (hfuel : s.length < fuel) :
    (convertEolWindows fuel forceLf).Ensures (memory A) Careful (Memory.ofBlock (s ++ [0]))
      fun len m => match Windows.convertEol forceLf s with
        | none => len = -1
        | some t => len = t.length ∧ m.Holds 0 t := by
  have hs : (Memory.ofBlock (s ++ [0])).Holds 0 s := Memory.holds_ofBlock s []
  have hsize : (Memory.ofBlock (s ++ [0])).size = s.length + 1 := List.length_append
  have hload : ∀ i ≤ s.length, Careful (.load i) (Memory.ofBlock (s ++ [0])) := fun i hi =>
    careful_load (by omega) rfl
  cases forceLf with
  | true =>
    rw [Windows.convertEol_true h0]
    refine (ensures_convertToLf hs h0 (by omega) (fun _ => rfl) hfuel).bind ?_
    rintro len m' ⟨rfl, hm'⟩
    exact ⟨rfl, hm'⟩
  | false =>
    rw [Windows.convertEol_false h0]
    refine (ensures_reallocForCrlf hs h0 hload hroom hfuel).bind ?_
    rintro r m' (⟨hsame, rfl, rfl⟩ | ⟨hlonger, hlong, rfl, rfl⟩ | ⟨hlonger, hlimit, rfl, rfl⟩)
    · rw [if_pos hsame]
      exact ⟨rfl, hs⟩
    · have hlong' : (crlfForm s).length ≥ 0xFFFFFFFF := hlong
      rw [if_neg hlonger.ne', if_pos hlong']
      rfl
    · have hs' : ((Memory.ofBlock (s ++ [0])).grow A.junk ((crlfForm s).length + 1)).Holds 0 s :=
        hs.congr fun k _ hk => Memory.byte_grow_of_lt (by omega) _ _
      have hlimit' : ¬ (crlfForm s).length ≥ 0xFFFFFFFF := by omega
      rw [if_neg hlonger.ne', if_neg hlimit']
      refine (ensures_convertToCrlf hs' h0 hlonger rfl (fun _ => rfl) hfuel).bind ?_
      intro u m' hm'
      exact ⟨rfl, hm'⟩

/-- Without a limit in the way, the conversion yields the form with CRLF. -/
theorem Windows.convertEol_of_lt {s : Bytes} (h0 : (0 : UInt8) ∉ s)
    (hlimit : (crlfForm s).length < 2 ^ 32 - 1) :
    Windows.convertEol false s = some (crlfForm s) := by
  rw [Windows.convertEol_false h0]
  by_cases hsame : (crlfForm s).length = s.length
  · have hself : crlfForm s = s := crlfFrom_eq_self hsame
    rw [if_pos hsame, hself]
  · have hlimit' : ¬ (crlfForm s).length ≥ 0xFFFFFFFF := by omega
    rw [if_neg hsame, if_neg hlimit']

/-- **In-place conversion to CRLF.**  In the Windows build, `convert_eol` makes of a block that
    holds a string one that holds the string with a CR before each LF that lacks one.  It stays
    inside the block, which has grown by then, and does not read a byte that it has overwritten.
    The conversion to LF gives the same for the new string as for the old one. -/
theorem convertEolWindows_spec (A : Allocator) (s : Bytes) (h0 : (0 : UInt8) ∉ s)
    (hlimit : (crlfForm s).length < 2 ^ 32 - 1) (hroom : (crlfForm s).length + 1 ≤ A.room)
    (fuel : Nat) (hfuel : s.length < fuel) :
    ((convertEolWindows fuel false).Ensures (memory A) (fun c m => c.Inside m ∧ c.Fresh m)
      (Memory.ofBlock (s ++ [0])) fun len m =>
        len = (crlfForm s).length ∧ m.Holds 0 (crlfForm s)) ∧
      lfForm (crlfForm s) = lfForm s := by
  refine ⟨?_, ?_⟩
  · have hrun := ensures_convertEolWindows (A := A) h0 false (fun _ => hroom) hfuel
    rw [Windows.convertEol_of_lt h0 hlimit] at hrun
    exact hrun
  · rw [← convertToLf_eq_lfForm, ← convertToLf_eq_lfForm]
    exact convertToLf_crlfFrom 0 s

/-- `convertEolWindows_spec` for two LFs, of which one lacks its CR. -/
theorem convertEolWindows_line :
    ((convertEolWindows 5 false).Ensures (memory ⟨fun _ => 0, 64⟩)
      (fun c m => c.Inside m ∧ c.Fresh m) (Memory.ofBlock (ascii "\na\r\n" ++ [0])) fun len m =>
        len = 5 ∧ m.Holds 0 (ascii "\r\na\r\n")) ∧
      lfForm (crlfForm (ascii "\na\r\n")) = lfForm (ascii "\na\r\n") :=
  convertEolWindows_spec ⟨fun _ => 0, 64⟩ (ascii "\na\r\n") (by decide) (by decide) (by decide) 5
    (by decide)

end ClipShare
