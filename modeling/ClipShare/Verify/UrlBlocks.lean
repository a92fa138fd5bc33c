import ClipShare.Server.Buffers
import ClipShare.Verify.Url

namespace ClipShare

open Posix

/-!
# File URLs in memory

`url_encode` computes the size of the URL before it writes it, and `url_decode` writes the path over
the URL that it reads.  On blocks they do what `urlEncode` and `urlDecode` say, as long as the
sizes fit their types.

* `urlEncodeBlock_of_lt` / `urlEncodeBlock_of_ge` — encoding, when the size fits and when it does
  not;
* `urlDecodeBlock_of_some` / `urlDecodeBlock_of_none` — decoding in place;
* `urlRoundTrip_iff` — the round trip holds exactly for the paths whose URL has a size.
-/

/-! ### The bytes of a URL -/

theorem urlSafeChar_eq (signed : Bool) (c : UInt8) : urlSafeChar signed c = urlSafe c := by
  have hlt := c.toNat_lt
  unfold urlSafeChar urlSafe charValue
  rw [Bool.eq_iff_iff]
  cases signed <;> simp [UInt8.le_iff_toNat_le, ← UInt8.toNat_inj] <;> omega

theorem shiftRight_four (c : UInt8) : c >>> 4 = c / 16 := by
  apply UInt8.toNat_inj.mp
  rw [UInt8.toNat_shiftRight, UInt8.toNat_div]
  exact Nat.shiftRight_eq_div_pow c.toNat 4

theorem and_fifteen (c : UInt8) : c &&& 0xf = c % 16 := by
  apply UInt8.toNat_inj.mp
  rw [UInt8.toNat_and, UInt8.toNat_mod]
  exact Nat.and_two_pow_sub_one_eq_mod c.toNat 4

/-- The bytes that `url_encode` writes are the same whether `char` is signed or not. -/
theorem urlEncodeChar_eq (signed : Bool) (c : UInt8) :
    urlEncodeChar signed c = urlEncodeByte c := by
  unfold urlEncodeChar urlEncodeByte hexDigit
  rw [urlSafeChar_eq, shiftRight_four, and_fifteen]

/-- A byte of a URL is printable. -/
def Printable (c : UInt8) : Prop := 0x20 ≤ c ∧ c ≤ 0x7e

theorem all_printable {s : Bytes} (h : (s.all fun c => 0x20 ≤ c && c ≤ 0x7e) = true) :
    ∀ c ∈ s, Printable c := by
  intro c hc
  have hbyte := List.all_eq_true.mp h c hc
  simpa [Printable] using hbyte

theorem urlSafe_printable {c : UInt8} (hc : urlSafe c = true) : Printable c := by
  unfold urlSafe at hc
  unfold Printable
  simp only [Bool.or_eq_true, Bool.and_eq_true, decide_eq_true_eq, beq_iff_eq,
    UInt8.le_iff_toNat_le, ← UInt8.toNat_inj] at hc ⊢
  simp at hc ⊢
  omega

theorem hexDigit_printable {a : UInt8} (ha : a.toNat < 16) : Printable (hexDigit a) := by
  have key : ∀ n < 16,
      0x20 ≤ hexDigit (UInt8.ofNat n) ∧ hexDigit (UInt8.ofNat n) ≤ 0x7e := by decide
  have h := key a.toNat ha
  rwa [UInt8.ofNat_toNat] at h

theorem urlEncodeByte_printable (b : UInt8) : ∀ c ∈ urlEncodeByte b, Printable c := by
  unfold urlEncodeByte
  split
  · rename_i hb
    exact List.forall_mem_singleton.mpr (urlSafe_printable hb)
  · obtain ⟨hhi, hlo, -⟩ := digits_spec b
    have hpercent : Printable 0x25 := ⟨by decide, by decide⟩
    simp [hpercent, hexDigit_printable hhi, hexDigit_printable hlo]

theorem urlEncode_printable (s : Bytes) : ∀ c ∈ urlEncode s, Printable c := by
  unfold urlEncode
  intro c hc
  rcases List.mem_append.mp hc with hc | hc
  · exact all_printable (by decide : (fileScheme.all fun c => 0x20 ≤ c && c ≤ 0x7e) = true) c hc
  · obtain ⟨b, -, hcb⟩ := List.mem_flatMap.mp hc
    exact urlEncodeByte_printable b c hcb

/-! ### Encoding -/

section Encode

variable (signed : Bool) {s : Bytes}

/-- The first pass counts the bytes of the URL and its NUL, in 32 bits. -/
theorem urlSize_eq (hs : (0 : UInt8) ∉ s) :
    urlSize signed s = UInt32.ofNat ((urlEncode s).length + 1) := by
  have hfold : ∀ (s : Bytes) (n : Nat), s.foldl
      (fun urlLen c => if urlSafeChar signed c then urlLen + 1 else urlLen + 3) (UInt32.ofNat n)
        = UInt32.ofNat (n + (s.length + 2 * escapes s)) := by
    intro s
    unfold escapes
    induction s with
    | nil => exact fun n => rfl
    | cons b s ih =>
      intro n
      rw [List.foldl_cons, urlSafeChar_eq, List.countP_cons, List.length_cons]
      by_cases hb : urlSafe b
      · have hn : (UInt32.ofNat n + 1 : UInt32) = UInt32.ofNat (n + 1) := by simp
        rw [if_pos hb, hn, ih]
        congr 1
        simp [hb]
        omega
      · have hn : (UInt32.ofNat n + 3 : UInt32) = UInt32.ofNat (n + 3) := by simp
        rw [if_neg hb, hn, ih]
        congr 1
        simp [hb]
        omega
  unfold urlSize
  rw [cstr_of_not_mem hs, length_urlEncode]
  show s.foldl _ (UInt32.ofNat 8) = _
  rw [hfold]
  congr 1
  omega

/-- **Step and run.**  The second pass writes the codes one after the other, and faults if they do
    not fit the block. -/
theorem urlEncodeLoop_eq (s done free : Bytes) :
    urlEncodeLoop signed s (done ++ free) done.length =
      if (s.flatMap urlEncodeByte).length ≤ free.length then
        some (done ++ s.flatMap urlEncodeByte ++ free.drop (s.flatMap urlEncodeByte).length,
          (done ++ s.flatMap urlEncodeByte).length)
      else none := by
  induction s generalizing done free with
  | nil => simp [urlEncodeLoop]
  | cons b s ih =>
    unfold urlEncodeLoop
    rw [urlEncodeChar_eq, List.flatMap_cons, List.length_append]
    by_cases hb : (urlEncodeByte b).length ≤ free.length
    · rw [store_append done _ free hb]
      show urlEncodeLoop signed s _ _ = _
      rw [← List.length_append, ih, List.length_drop, List.drop_drop]
      simp only [List.append_assoc]
      by_cases hs : (s.flatMap urlEncodeByte).length ≤ free.length - (urlEncodeByte b).length
      · rw [if_pos hs, if_pos (by omega)]
      · rw [if_neg hs, if_neg (by omega)]
    · have hfault : store (done ++ free) done.length (urlEncodeByte b) = none := by
        rw [store_eq_none_iff, List.length_append]
        omega
      rw [hfault, if_neg (by omega)]
      rfl

/-- The name of the scheme is written first, with a NUL. -/
theorem strncpy_fileScheme (junk : Nat → UInt8) (size : Nat) :
    (size < 8 ∧ strncpy (malloc junk size) 0 fileScheme 8 = none) ∨
      ∃ free, free.length = size - 7 ∧ 8 ≤ size ∧
        strncpy (malloc junk size) 0 fileScheme 8 = some (fileScheme ++ free) := by
  have hwrite : strncpy (malloc junk size) 0 fileScheme 8
      = store (malloc junk size) 0 (fileScheme ++ [0]) :=
    strncpy_of_length _ 0 fileScheme (by decide)
  have hscheme : (fileScheme ++ [0]).length = 8 := rfl
  rw [hwrite]
  by_cases hsize : size < 8
  · refine .inl ⟨hsize, ?_⟩
    rw [store_eq_none_iff, length_malloc, hscheme]
    omega
  · refine .inr ⟨0 :: (malloc junk size).drop 8, ?_, not_lt.mp hsize, ?_⟩
    · rw [List.length_cons, List.length_drop, length_malloc]
      omega
    · rw [store_of_le (by rw [length_malloc, hscheme]; omega), List.take_zero, List.nil_append,
        hscheme, List.append_assoc]
      rfl

/-- **Encoding.**  When the size fits, the block holds the URL and its NUL. -/
theorem urlEncodeBlock_of_lt (junk : Nat → UInt8) (hs : (0 : UInt8) ∉ s)
    (hfit : (urlEncode s).length + 1 < 2 ^ 32) :
    urlEncodeBlock signed junk s =
      some (UInt32.ofNat (urlEncode s).length, urlEncode s ++ [0]) := by
  have hcodes : (urlEncode s).length = 7 + (s.flatMap urlEncodeByte).length := List.length_append
  have hsize : (urlSize signed s).toNat = (urlEncode s).length + 1 := by
    rw [urlSize_eq signed hs, UInt32.toNat_ofNat']
    exact Nat.mod_eq_of_lt hfit
  obtain ⟨hlt, -⟩ | ⟨free, hfree, -, hscheme⟩ := strncpy_fileScheme junk (urlSize signed s).toNat
  · omega
  · have hloop := urlEncodeLoop_eq signed s fileScheme free
    rw [if_pos (by omega)] at hloop
    have hlast : (free.drop (s.flatMap urlEncodeByte).length).length = 1 := by
      rw [List.length_drop]
      omega
    obtain ⟨x, hx⟩ := List.length_eq_one_iff.mp hlast
    unfold urlEncodeBlock
    dsimp only
    rw [hscheme, cstr_of_not_mem hs]
    show (urlEncodeLoop signed s (fileScheme ++ free) fileScheme.length).bind _ = _
    rw [hloop, hx]
    show (store (urlEncode s ++ [x]) (urlEncode s).length [0]).bind _ = _
    rw [store_append _ [0] [x] le_rfl]
    show some (urlSize signed s - 1, urlEncode s ++ [0] ++ []) = _
    rw [List.append_nil, urlSize_eq signed hs]
    simp

/-- When the size does not fit, the URL is written over the end of the block. -/
theorem urlEncodeBlock_of_ge (junk : Nat → UInt8) (hs : (0 : UInt8) ∉ s)
    (hlong : 2 ^ 32 ≤ (urlEncode s).length + 1) : urlEncodeBlock signed junk s = none := by
  have hcodes : (urlEncode s).length = 7 + (s.flatMap urlEncodeByte).length := List.length_append
  have hsize : (urlSize signed s).toNat = ((urlEncode s).length + 1) % 2 ^ 32 := by
    rw [urlSize_eq signed hs, UInt32.toNat_ofNat']
  unfold urlEncodeBlock
  dsimp only
  rw [cstr_of_not_mem hs]
  obtain ⟨-, hfault⟩ | ⟨free, hfree, hmin, hscheme⟩ :=
    strncpy_fileScheme junk (urlSize signed s).toNat
  · rw [hfault]
    rfl
  · rw [hscheme]
    show (urlEncodeLoop signed s (fileScheme ++ free) fileScheme.length).bind _ = _
    rw [urlEncodeLoop_eq]
    by_cases hroom : (s.flatMap urlEncodeByte).length ≤ free.length
    · -- there is room for the codes only in a block of the full size
      omega
    · rw [if_neg hroom]
      rfl

end Encode

/-! ### Decoding in place -/

/-- A hexadecimal digit has four bits. -/
theorem hex2char_lt {h a : UInt8} (ha : hex2char h = some a) : a.toNat < 16 := by
  unfold hex2char at ha
  split_ifs at ha
  all_goals
    cases ha
    simp only [UInt8.le_iff_toNat_le] at *
    simp [UInt8.toNat_sub, UInt8.toNat_add] at *
    omega

theorem shiftLeft_or {a b : UInt8} (ha : a.toNat < 16) (hb : b.toNat < 16) :
    a <<< 4 ||| b = a * 16 + b := by
  have hsum : a.toNat <<< 4 ||| b.toNat = a.toNat * 16 + b.toNat := by
    rw [← Nat.shiftLeft_add_eq_or_of_lt hb, Nat.shiftLeft_eq]
  have hmul : a.toNat <<< 4 = a.toNat * 16 := Nat.shiftLeft_eq _ _
  have hfour : (4 : UInt8).toNat % 8 = 4 := rfl
  have hsixteen : (16 : UInt8).toNat = 16 := rfl
  apply UInt8.toNat_inj.mp
  rw [UInt8.toNat_or, UInt8.toNat_shiftLeft, UInt8.toNat_add, UInt8.toNat_mul, hfour, hsixteen,
    hmul, Nat.mod_eq_of_lt (by omega), ← hmul, hsum]
  omega

/-- The digits of an escape are put together from their bits. -/
theorem shift_or {h l : UInt8} {a b : UInt8} (ha : hex2char h = some a) (hb : hex2char l = some b) :
    a <<< 4 ||| b = a * 16 + b := shiftLeft_or (hex2char_lt ha) (hex2char_lt hb)

/-- The part of a buffer from `q` on, as the loop reads it. -/
theorem getElem?_of_drop {str b : Bytes} {q : Nat} (h : str.drop q = b) (i : Nat) :
    str[q + i]? = b[i]? := by
  rw [← h, List.getElem?_drop]

/-- **Step lemma.**  An iteration of the loop of `url_decode`: what is read from `q` on is no valid
    code, or a code for one byte, after which the string ends or goes on. -/
theorem urlDecodeChar_spec {str b : Bytes} {q : Nat} (hb : str.drop q = b) (hnul : (0 : UInt8) ∈ b)
    (hhead : b.head? ≠ some 0) :
    (urlDecodeChar str q = some none ∧ urlDecodeLoop b = none) ∨
    ∃ c k, 0 < k ∧ urlDecodeChar str q = some (some (c, q + k)) ∧ (0 : UInt8) ∈ b.drop k ∧
      urlDecodeLoop b = if (b.drop k).head? = some 0 then some [c]
        else (urlDecodeLoop (b.drop k)).map (c :: ·) := by
  have hget := getElem?_of_drop hb
  clear hb
  obtain ⟨c, t, rfl⟩ := List.exists_cons_of_ne_nil (List.ne_nil_of_mem hnul)
  have hc : c ≠ 0 := fun h => hhead (by rw [h]; rfl)
  have ht : (0 : UInt8) ∈ t := (List.mem_cons.mp hnul).resolve_left hc.symm
  obtain ⟨d, t, rfl⟩ := List.exists_cons_of_ne_nil (List.ne_nil_of_mem ht)
  have h0 : str[q]? = some c := hget 0
  have h1 : str[q + 1]? = some d := hget 1
  by_cases hesc : c = 0x25
  · rw [hesc] at h0
    rw [urlDecodeLoop.eq_def]
    dsimp only
    rw [if_pos hesc]
    cases hd : hex2char d with
    | none =>
      refine .inl ⟨by simp [urlDecodeChar, h0, h1, hd], ?_⟩
      cases t <;> rfl
    | some c1 =>
      -- a digit is no NUL, so the string goes on
      have hd0 : d ≠ 0 := by
        rintro rfl
        rw [hex2char_zero] at hd
        cases hd
      have ht : (0 : UInt8) ∈ t := (List.mem_cons.mp ht).resolve_left hd0.symm
      obtain ⟨e, t, rfl⟩ := List.exists_cons_of_ne_nil (List.ne_nil_of_mem ht)
      have h2 : str[q + 2]? = some e := hget 2
      cases he : hex2char e with
      | none => exact .inl ⟨by simp [urlDecodeChar, h0, h1, hd, h2, he], by simp [he]⟩
      | some c2 =>
        have he0 : e ≠ 0 := by
          rintro rfl
          rw [hex2char_zero] at he
          cases he
        have ht : (0 : UInt8) ∈ t := (List.mem_cons.mp ht).resolve_left he0.symm
        obtain ⟨f, t, rfl⟩ := List.exists_cons_of_ne_nil (List.ne_nil_of_mem ht)
        have hstep : urlDecodeChar str q = some (some (c1 <<< 4 ||| c2, q + 3)) := by
          simp [urlDecodeChar, h0, h1, hd, h2, he]
        rw [shift_or hd he] at hstep
        exact .inr ⟨c1 * 16 + c2, 3, by omega, hstep, ht, by simp [he]⟩
  · have hstep : urlDecodeChar str q = some (some (c, q + 1)) := by
      simp [urlDecodeChar, h0, hesc]
    rw [urlDecodeLoop_plain hesc]
    exact .inr ⟨c, 1, by omega, hstep, ht, by simp⟩

theorem take_succ_set {block : Bytes} {i : Nat} (h : i < block.length) (c : UInt8) :
    (block.set i c).take (i + 1) = block.take i ++ [c] := by
  have hlen : (block.take i ++ [c]).length = i + 1 := by simp; omega
  rw [List.set_eq_take_append_cons_drop, if_pos h, List.append_cons, ← hlen, List.take_left]

/-- A write of one byte. -/
theorem store_singleton {block : Bytes} {i : Nat} (h : i < block.length) (c : UInt8) :
    store block i [c] = some (block.set i c) := by
  rw [store_of_le h, List.set_eq_take_append_cons_drop, if_pos h]
  simp

section Loop

variable {str : Bytes} {p q : Nat}

/-- An iteration of the loop where the URL is not valid. -/
theorem urlDecodeBlockLoop_of_invalid (hchar : urlDecodeChar str q = some none) :
    urlDecodeBlockLoop str p q = some (.failure, str, p) := by
  rw [urlDecodeBlockLoop.eq_def]
  split <;> simp_all

/-- An iteration of the loop where it is. -/
theorem urlDecodeBlockLoop_of_valid {c : UInt8} {next : Nat}
    (hchar : urlDecodeChar str q = some (some (c, next))) (hp : p < str.length) :
    urlDecodeBlockLoop str p q = (str.set p c)[next]?.bind fun d =>
      if d ≠ 0 then urlDecodeBlockLoop (str.set p c) (p + 1) next
      else (store (str.set p c) (p + 1) [0]).map fun str' => (.success, str', p + 1) := by
  rw [urlDecodeBlockLoop.eq_def]
  split
  · simp_all
  · simp_all
  · rename_i c' next' hc'
    obtain ⟨rfl, rfl⟩ : c' = c ∧ next' = next := by simp_all
    split
    · rename_i hs
      rw [store_singleton hp] at hs
      cases hs
    · rename_i str' hs
      obtain rfl : str.set p c' = str' := by simpa [store_singleton hp] using hs
      split
      · rename_i hn
        rw [hn]
        rfl
      · rename_i d hn
        rw [hn]
        rfl

/-- **Run lemma.**  The loop of `url_decode` writes at `p` what it reads from `q` on, as long as it
    stays behind its read position.  The induction is on what is still to be read. -/
theorem urlDecodeBlockLoop_spec {b : Bytes} (hb : str.drop q = b) (hpq : p < q)
    (hnul : (0 : UInt8) ∈ b) (hhead : b.head? ≠ some 0) :
    (∀ s, urlDecodeLoop b = some s → urlDecodeBlockLoop str p q
      = some (.success, str.take p ++ s ++ 0 :: str.drop (p + s.length + 1), p + s.length)) ∧
    (urlDecodeLoop b = none → ∃ str' n, urlDecodeBlockLoop str p q = some (.failure, str', n)) := by
  obtain ⟨n, hn⟩ : ∃ n, b.length = n := ⟨_, rfl⟩
  induction n using Nat.strongRecOn generalizing str b p q with
  | ind n ih =>
    have hq : q < str.length := by
      by_contra hge
      rw [List.drop_of_length_le (not_lt.mp hge)] at hb
      rw [← hb] at hnul
      cases hnul
    -- what comes next is no character, or the `k` bytes of a character `c`
    obtain ⟨hchar, hloop⟩ | ⟨c, k, hk, hchar, hrest, hloop⟩ := urlDecodeChar_spec hb hnul hhead
    · refine ⟨fun s hs => ?_, fun _ => ⟨str, p, urlDecodeBlockLoop_of_invalid hchar⟩⟩
      rw [hloop] at hs
      cases hs
    · have hset : (str.set p c).drop (q + k) = b.drop k := by
        rw [List.drop_set_of_lt (by omega), ← List.drop_drop, hb]
      have hstep := urlDecodeBlockLoop_of_valid hchar (by omega : p < str.length)
      obtain ⟨d, t, hd⟩ := List.exists_cons_of_ne_nil (List.ne_nil_of_mem hrest)
      have hnext : (str.set p c)[q + k]? = some d := by
        have h0 := getElem?_of_drop hset 0
        rwa [hd] at h0
      rw [hnext, Option.bind_some] at hstep
      rw [hloop, hstep, hd]
      have htake : (str.set p c).take (p + 1) = str.take p ++ [c] := take_succ_set (by omega) c
      by_cases hd0 : d = 0
      · -- the string ends here
        have hstore : store (str.set p c) (p + 1) [0]
            = some ((str.set p c).take (p + 1) ++ [0] ++ str.drop (p + 1 + 1)) := by
          rw [store_of_le (by rw [List.length_set]; simp; omega), List.length_singleton,
            List.drop_set_of_lt (by omega)]
        rw [if_pos (by rw [hd0]; rfl), if_neg (not_not.mpr hd0), hstore, htake]
        refine ⟨fun s hs => ?_, fun hs => absurd hs (Option.some_ne_none [c])⟩
        cases hs
        simp
      · -- the byte written is behind all that is still to be read
        have hlen : (b.drop k).length < n := by
          rw [List.length_drop]
          have := List.length_pos_of_mem hnul
          omega
        rw [hd] at hset hrest hlen
        have hhead' : (d :: t).head? ≠ some 0 := by simpa using hd0
        obtain ⟨hsome, hnone⟩ := ih _ hlen hset (by omega : p + 1 < q + k) hrest hhead' rfl
        rw [if_neg hhead', if_pos hd0]
        refine ⟨fun s hs => ?_, fun hs => hnone (Option.map_eq_none_iff.mp hs)⟩
        obtain ⟨s', hs', rfl⟩ := Option.map_eq_some_iff.mp hs
        rw [hsome s' hs', htake, List.drop_set_of_lt (by omega)]
        simp only [List.append_assoc, List.length_cons, List.cons_append, List.nil_append]
        have hlast : p + 1 + s'.length = p + (s'.length + 1) := by omega
        rw [hlast]

end Loop

/-- The string of a buffer goes on after the scheme. -/
theorem zero_mem_drop_scheme {str : Bytes} (hnul : (0 : UInt8) ∈ str)
    (hscheme : fileScheme <+: str) :
    (0 : UInt8) ∈ str.drop 7 := by
  obtain ⟨t, rfl⟩ := hscheme
  rcases List.mem_append.mp hnul with h | h
  · exact absurd h (by decide)
  · exact h

/-- **Decoding.**  What `url_decode` leaves in the buffer of a URL with a path. -/
theorem urlDecodeBlock_of_some {str s : Bytes} (hnul : (0 : UInt8) ∈ str)
    (hpath : (str.drop 7).head? ≠ some 0) (hs : urlDecode str = some s) :
    urlDecodeBlock str = some (.success, overwrite str s, UInt32.ofNat s.length) := by
  unfold urlDecode at hs
  split at hs
  · rename_i hscheme
    have hloop := (urlDecodeBlockLoop_spec rfl (by omega : 0 < 7)
      (zero_mem_drop_scheme hnul hscheme) hpath).1 s hs
    unfold urlDecodeBlock
    rw [if_pos hscheme, hloop]
    simp [overwrite]
  · cases hs

theorem urlDecodeBlock_of_none {str : Bytes} (hnul : (0 : UInt8) ∈ str)
    (hpath : (str.drop 7).head? ≠ some 0) (hs : urlDecode str = none) :
    ∃ str' n, urlDecodeBlock str = some (.failure, str', n) := by
  unfold urlDecode at hs
  unfold urlDecodeBlock
  split at hs
  · rename_i hscheme
    obtain ⟨str', n, hloop⟩ := (urlDecodeBlockLoop_spec rfl (by omega : 0 < 7)
      (zero_mem_drop_scheme hnul hscheme) hpath).2 hs
    rw [if_pos hscheme, hloop]
    exact ⟨str', _, rfl⟩
  · rename_i hscheme
    rw [if_neg hscheme]
    exact ⟨str, 0, rfl⟩

/-! ### The round trip -/

/-- `url_encode` returns the length of what it writes, which is a printable URL, and `url_decode`
    turns this buffer back into the path, whatever the block held before. -/
def UrlRoundTrip (signed : Bool) (s : Bytes) : Prop :=
  ∀ junk, ∃ len url, urlEncodeBlock signed junk s = some (len, url) ∧
    len.toNat = (cstr url).length ∧ fileScheme <+: cstr url ∧ (∀ c ∈ cstr url, Printable c) ∧
    ∃ str n, urlDecodeBlock url = some (.success, str, n) ∧ cstr str = s ∧ n.toNat = s.length

/-- **Round trip of a path in memory.**  It holds exactly if the size of the URL fits the type in
    which `url_encode` computes it. -/
theorem urlRoundTrip_iff (signed : Bool) {s : Bytes} (hne : s ≠ []) (hs : (0 : UInt8) ∉ s) :
    UrlRoundTrip signed s ↔ 8 + s.length + 2 * escapes s < 2 ^ 32 := by
  have hlen := length_urlEncode s
  constructor
  · intro h
    by_contra hlong
    obtain ⟨len, url, hblock, -⟩ := h fun _ => 0
    rw [urlEncodeBlock_of_ge signed _ hs (by omega)] at hblock
    cases hblock
  · intro hfit junk
    have hurl : (0 : UInt8) ∉ urlEncode s := fun h => ((urlEncode_spec s).1 0 h).1 rfl
    have hcstr : cstr (urlEncode s ++ [0]) = urlEncode s := cstr_append_ended hurl (ended_zero [])
    have hdecode : urlDecode (urlEncode s ++ [0]) = some s :=
      urlDecode_urlEncode hne (ended_zero [])
    -- the URL goes on after the scheme
    have hpath : ((urlEncode s ++ [0]).drop 7).head? ≠ some 0 := by
      obtain ⟨b, t, rfl⟩ := List.exists_cons_of_ne_nil hne
      obtain ⟨hcode, -, hbytes⟩ := urlEncodeByte_spec b
      obtain ⟨c, u, hcu⟩ := List.exists_cons_of_ne_nil hcode
      have hc : c ≠ 0 := (hbytes c (by rw [hcu]; exact List.mem_cons_self)).1
      show ((urlEncodeByte b ++ t.flatMap urlEncodeByte) ++ [0]).head? ≠ some 0
      rw [hcu]
      simpa using hc
    refine ⟨_, _, urlEncodeBlock_of_lt signed junk hs (by omega), ?_⟩
    rw [hcstr]
    refine ⟨?_, List.prefix_append .., urlEncode_printable s, _, _,
      urlDecodeBlock_of_some (by simp) hpath hdecode, ?_, ?_⟩
    · rw [UInt32.toNat_ofNat']
      exact Nat.mod_eq_of_lt (by omega)
    · exact cstr_append_ended hs (ended_zero _)
    · rw [UInt32.toNat_ofNat']
      exact Nat.mod_eq_of_lt (by omega)

theorem urlRoundTrip_name : UrlRoundTrip true (ascii "a b") :=
  (urlRoundTrip_iff true (by decide) (by decide)).mpr (by decide)

/-- Paths that need no escapes, but are too long: the URL is written over the end of its block. -/
theorem not_urlRoundTrip_replicate (signed : Bool) {n : Nat} (hn : 2 ^ 32 ≤ 8 + n) :
    ¬ UrlRoundTrip signed (List.replicate n 0x61) := by
  have hs : (0 : UInt8) ∉ List.replicate n (0x61 : UInt8) := fun h =>
    absurd (List.eq_of_mem_replicate h) (by decide)
  have hlen := length_urlEncode (List.replicate n 0x61)
  rw [List.length_replicate] at hlen
  intro h
  obtain ⟨len, url, hblock, -⟩ := h fun _ => 0
  rw [urlEncodeBlock_of_ge signed _ hs (by omega)] at hblock
  cases hblock

/-- The shortest of them, whose size comes out as 0. -/
theorem urlRoundTrip_long : List.replicate (2 ^ 32 - 8) 0x61 ≠ ([] : Bytes) ∧
    (0 : UInt8) ∉ List.replicate (2 ^ 32 - 8) (0x61 : UInt8) ∧
    ∀ signed, ¬ UrlRoundTrip signed (List.replicate (2 ^ 32 - 8) 0x61) := by
  refine ⟨?_, fun h => ?_, fun signed => not_urlRoundTrip_replicate signed (by norm_num)⟩
  · exact List.ne_nil_of_length_pos (by rw [List.length_replicate]; norm_num)
  · exact absurd (List.eq_of_mem_replicate h) (by decide)

end ClipShare
