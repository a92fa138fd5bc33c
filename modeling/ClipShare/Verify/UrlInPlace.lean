import ClipShare.Server.InPlace
import ClipShare.Verify.UrlBlocks

namespace ClipShare

open Interaction Posix

/-!
# What `url_decode` reads and writes

`url_decode` is given one line of the text of the copied files.  The next line follows right after
the NUL of this one.

* `urlDecodeRound_refines`, `urlDecodeLoop_refines` — the loop does on memory what it does on a
  block, and stays inside of it;
* `urlDecodeInPlace_refines` — so does the function;
* `urlDecodeInPlace_inside_iff` — it stays inside its line, unless the line is `file://`.
-/

section Refine

variable {A : Allocator} {P : MemCall → Memory → Prop} {m : Memory} {str : Bytes} {i : Nat}

/-- What has been decoded, with the pointer as an index into memory. -/
def atMemory (i : Nat) (r : Option (UInt8 × Nat)) : Option (UInt8 × Nat) :=
  r.map fun (c, next) => (c, i + next)

/-- The byte that is decoded. -/
theorem ensures_decodeCharAt {q : Nat} {r : Option (UInt8 × Nat)} (hm : m.Shows i str)
    (hP : ∀ k < str.length, P (.load (i + k)) m) (hr : urlDecodeChar str q = some r) :
    (decodeCharAt (i + q)).Ensures (memory A) P m fun r' m' => r' = atMemory i r ∧ m' = m := by
  have hlt : ∀ {k c}, str[k]? = some c → k < str.length := fun h =>
    (List.getElem?_eq_some_iff.mp h).1
  unfold urlDecodeChar at hr
  obtain ⟨c, hc, hr⟩ := Option.bind_eq_some_iff.mp hr
  unfold decodeCharAt
  rw [load_bind, ensures_load, hm q c hc]
  refine ⟨hP q (hlt hc), ?_⟩
  by_cases hesc : c = 0x25
  · rw [if_pos hesc] at hr ⊢
    obtain ⟨d, hd, hr⟩ := Option.bind_eq_some_iff.mp hr
    rw [load_bind, ensures_load, Nat.add_assoc, hm (q + 1) d hd]
    refine ⟨hP _ (hlt hd), ?_⟩
    cases hd1 : hex2char d with
    | none =>
      rw [hd1] at hr
      cases hr
      exact ⟨rfl, rfl⟩
    | some c1 =>
      rw [hd1] at hr
      obtain ⟨e, he, hr⟩ := Option.bind_eq_some_iff.mp hr
      show ((load (i + q + 2) >>= _ : MemProg _)).Ensures _ _ _ _
      rw [load_bind, ensures_load, Nat.add_assoc, hm (q + 2) e he]
      refine ⟨hP _ (hlt he), ?_⟩
      cases he2 : hex2char e with
      | none =>
        rw [he2] at hr
        cases hr
        exact ⟨rfl, rfl⟩
      | some c2 =>
        rw [he2] at hr
        cases hr
        exact ⟨rfl, rfl⟩
  · rw [if_neg hesc] at hr ⊢
    cases hr
    rw [load_bind, ensures_load, hm q c hc]
    exact ⟨hP q (hlt hc), rfl, rfl⟩

/-- **Step lemma.**  A round that decodes a byte: it is stored, and the loop ends before a NUL. -/
theorem urlDecodeRound_refines {p q next : Nat} {c d : UInt8} (hm : m.Shows i str)
    (hload : ∀ k < str.length, ∀ m, P (.load (i + k)) m)
    (hstore : ∀ k < str.length, ∀ b m, P (.store (i + k) b) m)
    (hc : urlDecodeChar str q = some (some (c, next))) (hp : p < str.length)
    (hd : (str.set p c)[next]? = some d) :
    (urlDecodeRound (i + p, i + q)).Ensures (memory A) P m fun r m' =>
      r = (if d = 0 then .inr (some (i + (p + 1))) else .inl (i + (p + 1), i + next)) ∧
        m' = m.set (i + p) c := by
  have hnext : next < str.length := by
    have hlt := (List.getElem?_eq_some_iff.mp hd).1
    rwa [List.length_set] at hlt
  refine (ensures_decodeCharAt hm (fun k hk => hload k hk m) hc).bind ?_
  rintro _ m' ⟨rfl, rfl⟩
  refine ⟨hstore p hp c m', hload next hnext _, ?_⟩
  show Prog.Ensures _ _ (if (m'.set (i + p) c).byte (i + next) = 0 then _ else _) _ _
  rw [hm.set_mem next d hd]
  by_cases hd0 : d = 0
  · rw [if_pos hd0, if_pos hd0]
    exact ⟨rfl, rfl⟩
  · rw [if_neg hd0, if_neg hd0]
    exact ⟨rfl, rfl⟩

/-- How the loop ends on a block of `n` bytes: with memory that holds the block, up to the NUL that
    is still to be written, or without a result. -/
def LoopEnds (i n : Nat) (str : Bytes) (ptr1 : Nat) : Status → Option Nat → Memory → Prop
  | .success, r, m => r = some (i + ptr1) ∧ ptr1 < n ∧ (m.set (i + ptr1) 0).Shows i str
  | .failure, r, m => r = none ∧ m.Shows i str

/-- **Run lemma.**  Where the loop on a block is not a fault, the loop on memory stays inside the
    block and does the same.  The induction is on the fuel. -/
theorem urlDecodeLoop_refines {n fuel p q ptr1 : Nat} {status : Status} {str' : Bytes}
    (hload : ∀ k < n, ∀ m, P (.load (i + k)) m) (hstore : ∀ k < n, ∀ b m, P (.store (i + k) b) m)
    (hm : m.Shows i str) (hn : str.length = n) (hfuel : n - q < fuel)
    (h : urlDecodeBlockLoop str p q = some (status, str', ptr1)) :
    (Prog.loop fuel urlDecodeRound (i + p, i + q)).Ensures (memory A) P m
      (LoopEnds i n str' ptr1 status) := by
  induction fuel generalizing str m p q with
  | zero => omega
  | succ fuel ih =>
    subst hn
    refine Prog.Ensures.loop_succ ?_
    rw [urlDecodeBlockLoop.eq_def] at h
    split at h
    · cases h
    · -- the URL is not valid
      rename_i hc
      cases h
      refine (ensures_decodeCharAt hm (fun k hk => hload k hk m) hc).bind ?_
      rintro _ m' ⟨rfl, rfl⟩
      exact ⟨rfl, hm⟩
    · rename_i c next hc
      split at h
      · cases h
      · rename_i str1 hs
        have hp : p + 1 ≤ str.length := by
          by_contra hge
          rw [store_eq_none_iff.mpr (not_le.mp hge)] at hs
          cases hs
        rw [store_singleton hp, Option.some.injEq] at hs
        subst hs
        split at h
        · cases h
        · rename_i d hd
          refine (urlDecodeRound_refines hm hload hstore hc hp hd).mono ?_
          rintro _ _ ⟨rfl, rfl⟩
          by_cases hd0 : d = 0
          · -- the string ends; its NUL is stored after the loop
            rw [if_neg (not_not.mpr hd0)] at h
            obtain ⟨str2, hs2, hres⟩ := Option.map_eq_some_iff.mp h
            cases hres
            have hp2 : p + 1 < (str.set p c).length := by
              by_contra hge
              rw [store_eq_none_iff.mpr (Nat.lt_succ_of_le (not_lt.mp hge))] at hs2
              cases hs2
            rw [store_singleton hp2, Option.some.injEq] at hs2
            subst hs2
            rw [if_pos hd0]
            rw [List.length_set] at hp2
            exact ⟨rfl, hp2, hm.set_mem.set_mem⟩
          · rw [if_pos hd0] at h
            rw [if_neg hd0]
            have hlt := lt_of_urlDecodeChar hc
            have hnext := (List.getElem?_eq_some_iff.mp hd).1
            rw [List.length_set] at hnext
            exact ih hm.set_mem List.length_set (by omega) h

/-- **Refinement.**  On a string and its NUL, where the block model is not a fault, `url_decode`
    stays inside of them and does what the block model says. -/
theorem urlDecodeInPlace_refines {s str' : Bytes} {fuel : Nat} {status : Status} {len : UInt32}
    (hs : m.Holds i s) (hfuel : s.length < fuel)
    (h : urlDecodeBlock (s ++ [0]) = some (status, str', len)) :
    (urlDecodeInPlace fuel i).Ensures (memory A) (fun c _ => c.Within i s.length) m fun r m' =>
      r = (if status = .success then some len else none) ∧ m'.Shows i str' := by
  have hm := hs.shows
  have hlen : (s ++ [0]).length = s.length + 1 := List.length_append
  unfold urlDecodeBlock at h
  refine (ensures_matchesAt hs (by decide) fun k hk hk' => ⟨hk, hk'⟩).bind ?_
  rintro _ m' ⟨rfl, rfl⟩
  by_cases hscheme : fileScheme <+: s ++ [0]
  · rw [if_pos hscheme] at h
    rw [if_pos (List.isPrefixOf_iff_prefix.mpr hscheme)]
    obtain ⟨⟨status, str1, ptr1⟩, hloop, hres⟩ := Option.map_eq_some_iff.mp h
    cases hres
    have hpath : 7 ≤ (s ++ [0]).length := hscheme.length_le
    refine (urlDecodeLoop_refines (fun k hk m => ⟨by omega, by omega⟩)
      (fun k hk b m => ⟨by omega, by omega⟩) hm hlen (by omega) hloop).bind fun r m' hr => ?_
    cases status with
    | success =>
      obtain ⟨rfl, hlt, hm'⟩ := hr
      refine ⟨⟨by omega, by omega⟩, ?_, hm'⟩
      rw [if_pos rfl, Nat.add_sub_cancel_left]
    | failure =>
      obtain ⟨rfl, hm'⟩ := hr
      exact ⟨rfl, hm'⟩
  · rw [if_neg hscheme] at h
    cases h
    rw [if_neg (fun h => hscheme (List.isPrefixOf_iff_prefix.mp h))]
    exact ⟨rfl, hm⟩

end Refine

/-! ### The line -/

/-- A string that is a URL with a path, or no URL, is decoded without a fault. -/
theorem urlDecodeBlock_isSome {s : Bytes} (h0 : (0 : UInt8) ∉ s) (hne : s ≠ fileScheme) :
    ∃ r, urlDecodeBlock (s ++ [0]) = some r := by
  have hnul : (0 : UInt8) ∈ s ++ [0] := by simp
  by_cases hscheme : fileScheme <+: s ++ [0]
  · have hpath : ((s ++ [0]).drop 7).head? ≠ some 0 := by
      obtain ⟨t, ht⟩ := hscheme
      rw [← ht, show (fileScheme ++ t).drop 7 = t from rfl]
      intro hhead
      obtain ⟨u, rfl⟩ := List.head?_eq_some_iff.mp hhead
      -- both sides hold one string and its NUL
      have hcstr := congrArg cstr ht
      rw [cstr_append_ended (by decide) (ended_zero u), cstr_append_ended h0 (ended_zero [])]
        at hcstr
      exact hne hcstr.symm
    cases hs : urlDecode (s ++ [0]) with
    | some path => exact ⟨_, urlDecodeBlock_of_some hnul hpath hs⟩
    | none =>
      obtain ⟨str, n, hblock⟩ := urlDecodeBlock_of_none hnul hpath hs
      exact ⟨_, hblock⟩
  · refine ⟨(.failure, s ++ [0], 0), ?_⟩
    unfold urlDecodeBlock
    rw [if_neg hscheme]

/-- After the scheme alone, the loop of `url_decode` reads the NUL as a character and goes on behind
    it. -/
theorem not_inside_fileScheme {A : Allocator} {m : Memory} {i fuel : Nat}
    {Q : Option UInt32 → Memory → Prop} (hs : m.Holds i fileScheme) (hfuel : 0 < fuel) :
    ¬ (urlDecodeInPlace fuel i).Ensures (memory A) (fun c _ => c.Within i fileScheme.length)
      m Q := by
  obtain ⟨fuel, rfl⟩ := Nat.exists_eq_succ_of_ne_zero (Nat.pos_iff_ne_zero.mp hfuel)
  intro h
  -- the scheme is there
  obtain ⟨b, m1, hrun, rfl, hm1⟩ := (ensures_matchesAt (A := A)
    (P := fun c _ => c.Within i fileScheme.length) hs
    (by decide : (0 : UInt8) ∉ fileScheme.dropLast) fun k hk hk' => ⟨hk, hk'⟩).run
  subst m1
  have hloop := h.of_bind.of_run hrun
  rw [if_pos (by decide)] at hloop
  -- the first round decodes the NUL
  have hchar : urlDecodeChar (fileScheme ++ [0]) 7 = some (some (0, 8)) := by decide
  obtain ⟨r, m2, hrun, rfl, hm2⟩ := (ensures_decodeCharAt (A := A)
    (P := fun c _ => c.Within i fileScheme.length) hs.shows
    (fun k hk => ⟨Nat.le_add_right _ _, Nat.add_le_add_left (Nat.le_of_lt_succ hk) i⟩) hchar).run
  subst m2
  -- and then looks at the byte behind it
  obtain ⟨-, ⟨-, hnext⟩, -⟩ := hloop.of_bind.of_bind.of_bind.of_run hrun
  have hlen : fileScheme.length = 7 := rfl
  omega

/-- **In bounds.**  `url_decode` stays inside its line and leaves everything else as it is, except
    if the line is `file://`. -/
theorem urlDecodeInPlace_inside_iff {A : Allocator} {m : Memory} {i fuel : Nat} {s : Bytes}
    (h0 : (0 : UInt8) ∉ s) (hs : m.Holds i s) (hfuel : s.length < fuel) :
    ((urlDecodeInPlace fuel i).Ensures (memory A) (fun c _ => c.Within i s.length) m
      fun _ m' => ∀ j, j < i ∨ i + s.length < j → m'.byte j = m.byte j) ↔ s ≠ fileScheme := by
  constructor
  · rintro h rfl
    exact not_inside_fileScheme hs (by omega) h
  · intro hne
    obtain ⟨⟨status, str', len⟩, hblock⟩ := urlDecodeBlock_isSome h0 hne
    refine ((urlDecodeInPlace_refines hs hfuel hblock).and_invariant
      (I := fun m' => ∀ j, j < i ∨ i + s.length < j → m'.byte j = m.byte j) ?_ ?_).mono ?_
    · exact fun c m' hc hm' j hj => (Memory.byte_of_within hc hj).trans (hm' j hj)
    · exact fun j hj => rfl
    · exact fun r m' h => h.2

/-- An escape that is cut short. -/
theorem urlDecodeInPlace_inside_escape :
    (urlDecodeInPlace 16 0).Ensures (memory ⟨fun _ => 0, 0⟩) (fun c _ => c.Within 0 9)
      (.ofBlock (ascii "file://%4" ++ 0 :: ascii "file:///a"))
      fun _ m' => ∀ j, j < 0 ∨ 0 + 9 < j →
        m'.byte j = (Memory.ofBlock (ascii "file://%4" ++ 0 :: ascii "file:///a")).byte j :=
  (urlDecodeInPlace_inside_iff (s := ascii "file://%4") (by decide)
    (Memory.holds_ofBlock _ _) (by decide)).mpr (by decide)

/-- A line that is the scheme alone, with another line behind it: bytes of that line are read, and
    its first byte is overwritten. -/
theorem urlDecodeInPlace_scheme_line :
    (Memory.ofBlock (fileScheme ++ 0 :: (ascii "file:///a" ++ [0]))).Holds 0 fileScheme ∧
    ¬ (urlDecodeInPlace 16 0).Ensures (memory ⟨fun _ => 0, 0⟩) (fun c _ => c.Within 0 7)
      (.ofBlock (fileScheme ++ 0 :: (ascii "file:///a" ++ [0]))) (fun _ _ => True) ∧
    (Memory.ofBlock (fileScheme ++ 0 :: (ascii "file:///a" ++ [0]))).byte 8 = 0x66 ∧
    ((urlDecodeInPlace 16 0).run (memory ⟨fun _ => 0, 0⟩)
      (.ofBlock (fileScheme ++ 0 :: (ascii "file:///a" ++ [0])))).2.byte 8 = 0x2f :=
  ⟨Memory.holds_ofBlock _ _, not_inside_fileScheme (Memory.holds_ofBlock _ _) (by decide),
    by decide, by decide⟩

end ClipShare
