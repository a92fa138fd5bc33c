import ClipShare.Server.Utils

namespace ClipShare

open Posix

/-!
# Lists of file URLs

`url_decode` undoes `url_encode`, also in the buffer where the lines of a list of URLs are decoded
in place one after the other.

* `Ended` — what follows a string in a buffer;
* `urlDecode_urlEncode` — the round trip of one path;
* `uriList` — the list of the URLs of some paths, as the clipboard holds it;
* `exists_uriLine` / `drop_overwrite` — the first line, and what is left when it has been decoded.
-/

/-- What follows a string in a buffer: the end of the buffer, or a NUL. -/
def Ended (t : Bytes) : Prop := ∀ c ∈ t.head?, c = 0

theorem ended_nil : Ended [] := nofun

theorem ended_zero (t : Bytes) : Ended (0 :: t) := fun _ hc => (Option.some.inj hc).symm

theorem cstr_append_ended {s t : Bytes} (hs : (0 : UInt8) ∉ s) (ht : Ended t) :
    cstr (s ++ t) = s := by
  cases t with
  | nil => rw [List.append_nil, cstr_of_not_mem hs]
  | cons c t =>
    rw [ht c rfl, cstr_append_zero, cstr_of_not_mem hs]

/-! ### One URL -/

/-- A hexadecimal digit is read back, and is neither a NUL nor a newline. -/
theorem hexDigit_spec {a : UInt8} (ha : a.toNat < 16) :
    hex2char (hexDigit a) = some a ∧ hexDigit a ≠ 0 ∧ hexDigit a ≠ 0x0a := by
  have key : ∀ n < 16, hex2char (hexDigit (UInt8.ofNat n)) = some (UInt8.ofNat n) ∧
      hexDigit (UInt8.ofNat n) ≠ 0 ∧ hexDigit (UInt8.ofNat n) ≠ 0x0a := by decide
  have h := key a.toNat ha
  rwa [UInt8.ofNat_toNat] at h

/-- A NUL is no digit. -/
theorem hex2char_zero : hex2char 0 = none := by decide

/-- The two digits of a byte. -/
theorem digits_spec (b : UInt8) :
    (b / 16).toNat < 16 ∧ (b % 16).toNat < 16 ∧ b / 16 * 16 + b % 16 = b := by
  have hlt := b.toNat_lt
  refine ⟨?_, ?_, ?_⟩
  · rw [UInt8.toNat_div]
    show b.toNat / 16 < 16
    omega
  · rw [UInt8.toNat_mod]
    show b.toNat % 16 < 16
    omega
  · apply UInt8.toNat_inj.mp
    rw [UInt8.toNat_add, UInt8.toNat_mul, UInt8.toNat_div, UInt8.toNat_mod]
    show (b.toNat / 16 * 16 % 256 + b.toNat % 16) % 256 = b.toNat
    omega

/-- The bytes that stay as they are: they do not start an escape, and they do not end a string or a
    line. -/
theorem urlSafe_spec {b : UInt8} (hb : urlSafe b = true) : b ≠ 0x25 ∧ b ≠ 0 ∧ b ≠ 0x0a := by
  refine ⟨?_, ?_, ?_⟩ <;>
  · rintro rfl
    revert hb
    decide

/-- A byte is encoded as one to three bytes, none of them a NUL or a newline. -/
theorem urlEncodeByte_spec (b : UInt8) : urlEncodeByte b ≠ [] ∧ (urlEncodeByte b).length ≤ 3 ∧
    ∀ c ∈ urlEncodeByte b, c ≠ 0 ∧ c ≠ 0x0a := by
  unfold urlEncodeByte
  split
  · rename_i hb
    refine ⟨List.cons_ne_nil _ _, by simp, fun c hc => ?_⟩
    rw [List.mem_singleton.mp hc]
    exact (urlSafe_spec hb).2
  · obtain ⟨hhi, hlo, -⟩ := digits_spec b
    refine ⟨List.cons_ne_nil _ _, by simp, fun c hc => ?_⟩
    simp only [List.mem_cons, List.not_mem_nil, or_false] at hc
    rcases hc with rfl | rfl | rfl
    · decide
    · exact (hexDigit_spec hhi).2
    · exact (hexDigit_spec hlo).2

/-- A byte that does not start an escape. -/
theorem urlDecodeLoop_plain {b : UInt8} (hb : b ≠ 0x25) (c : UInt8) (t : Bytes) :
    urlDecodeLoop (b :: c :: t) =
      if c = 0 then some [b] else (urlDecodeLoop (c :: t)).map (b :: ·) := by
  rw [urlDecodeLoop.eq_def]
  dsimp only
  rw [if_neg hb]

/-- The last byte of a URL. -/
theorem urlDecodeLoop_last (b : UInt8) {t : Bytes} (ht : Ended t) :
    urlDecodeLoop (urlEncodeByte b ++ t) = some [b] := by
  obtain ⟨hhi, hlo, hsum⟩ := digits_spec b
  unfold urlEncodeByte
  split
  · rename_i hb
    have hne := (urlSafe_spec hb).1
    cases t with
    | nil => simp [urlDecodeLoop, hne]
    | cons c t =>
      show urlDecodeLoop (b :: c :: t) = _
      rw [urlDecodeLoop_plain hne, if_pos (ht c rfl)]
  · cases t with
    | nil => simp [urlDecodeLoop, (hexDigit_spec hhi).1, (hexDigit_spec hlo).1, hsum]
    | cons c t => simp [urlDecodeLoop, (hexDigit_spec hhi).1, (hexDigit_spec hlo).1, hsum, ht c rfl]

/-- A byte of a URL that goes on. -/
theorem urlDecodeLoop_more (b : UInt8) {c : UInt8} {t : Bytes} (hc : c ≠ 0) :
    urlDecodeLoop (urlEncodeByte b ++ c :: t) = (urlDecodeLoop (c :: t)).map (b :: ·) := by
  obtain ⟨hhi, hlo, hsum⟩ := digits_spec b
  unfold urlEncodeByte
  split
  · rename_i hb
    have hne := (urlSafe_spec hb).1
    show urlDecodeLoop (b :: c :: t) = _
    rw [urlDecodeLoop_plain hne, if_neg hc]
  · show urlDecodeLoop (0x25 :: hexDigit (b / 16) :: hexDigit (b % 16) :: c :: t) = _
    rw [urlDecodeLoop.eq_def]
    dsimp only
    rw [if_pos rfl]
    simp only [(hexDigit_spec hhi).1, (hexDigit_spec hlo).1, hsum, if_neg hc]

/-- **Round trip of a path** through a URL that is followed by a NUL or nothing. -/
theorem urlDecode_urlEncode {s : Bytes} (hs : s ≠ []) {t : Bytes} (ht : Ended t) :
    urlDecode (urlEncode s ++ t) = some s := by
  have hloop : ∀ s : Bytes, s ≠ [] → urlDecodeLoop (s.flatMap urlEncodeByte ++ t) = some s := by
    intro s
    induction s with
    | nil => exact fun h => absurd rfl h
    | cons b s ih =>
      intro _
      rw [List.flatMap_cons, List.append_assoc]
      by_cases hs : s = []
      · rw [hs]
        exact urlDecodeLoop_last b ht
      · -- the URL goes on with the first byte of the next code
        obtain ⟨d, s', rfl⟩ := List.exists_cons_of_ne_nil hs
        obtain ⟨hne, -, hbytes⟩ := urlEncodeByte_spec d
        obtain ⟨c, u, hcu⟩ := List.exists_cons_of_ne_nil hne
        have hc : c ≠ 0 := (hbytes c (by rw [hcu]; exact List.mem_cons_self)).1
        have ih := ih hs
        rw [List.flatMap_cons, hcu, List.cons_append, List.cons_append] at ih ⊢
        rw [urlDecodeLoop_more b hc, ih]
        rfl
  unfold urlDecode urlEncode
  rw [List.append_assoc, if_pos (List.prefix_append ..), List.drop_left]
  exact hloop s hs

/-- A URL has no NUL and no newline, and at most three bytes for each byte of the path. -/
theorem urlEncode_spec (s : Bytes) : (∀ c ∈ urlEncode s, c ≠ 0 ∧ c ≠ 0x0a) ∧
    s.length < (urlEncode s).length ∧ (urlEncode s).length ≤ 7 + 3 * s.length := by
  have hlen : s.length ≤ (s.flatMap urlEncodeByte).length ∧
      (s.flatMap urlEncodeByte).length ≤ 3 * s.length := by
    induction s with
    | nil => exact ⟨le_refl _, le_refl _⟩
    | cons b s ih =>
      obtain ⟨hne, hle, -⟩ := urlEncodeByte_spec b
      have hpos := List.length_pos_of_ne_nil hne
      rw [List.flatMap_cons, List.length_append, List.length_cons]
      omega
  unfold urlEncode
  have hscheme : fileScheme.length = 7 := rfl
  refine ⟨fun c hc => ?_, ?_, ?_⟩
  · rcases List.mem_append.mp hc with hc | hc
    · have hall : ∀ c ∈ fileScheme, c ≠ 0 ∧ c ≠ 0x0a := by decide +kernel
      exact hall c hc
    · obtain ⟨b, -, hcb⟩ := List.mem_flatMap.mp hc
      exact (urlEncodeByte_spec b).2.2 c hcb
  · rw [List.length_append]
    omega
  · rw [List.length_append]
    omega

/-- The number of bytes that are escaped. -/
def escapes (s : Bytes) : Nat := s.countP fun c => !urlSafe c

/-- An escape takes three bytes. -/
theorem length_urlEncode (s : Bytes) : (urlEncode s).length = 7 + s.length + 2 * escapes s := by
  have hcodes : (s.flatMap urlEncodeByte).length = s.length + 2 * escapes s := by
    unfold escapes
    induction s with
    | nil => rfl
    | cons b s ih =>
      rw [List.flatMap_cons, List.length_append, ih, List.countP_cons, List.length_cons]
      unfold urlEncodeByte
      by_cases hb : urlSafe b
      · simp [hb]
        omega
      · simp [hb]
        omega
  have hscheme : fileScheme.length = 7 := rfl
  unfold urlEncode
  rw [List.length_append, hcodes, hscheme]
  omega

/-! ### Lists of URLs -/

/-- The URLs of some paths, one on each line. -/
def uriList (paths : List Bytes) : Bytes := [0x0a].intercalate (paths.map urlEncode)

theorem uriList_singleton (path : Bytes) : uriList [path] = urlEncode path := by
  simp [uriList, List.intercalate]

theorem uriList_cons_cons (path next : Bytes) (paths : List Bytes) :
    uriList (path :: next :: paths) = urlEncode path ++ 0x0a :: uriList (next :: paths) := by
  simp [uriList, List.intercalate]

theorem zero_not_mem_uriList (paths : List Bytes) : (0 : UInt8) ∉ uriList paths := by
  induction paths with
  | nil => exact List.not_mem_nil
  | cons path paths ih =>
    have hpath : (0 : UInt8) ∉ urlEncode path := fun h => ((urlEncode_spec path).1 0 h).1 rfl
    cases paths with
    | nil => rwa [uriList_singleton]
    | cons next paths =>
      rw [uriList_cons_cons, List.mem_append, List.mem_cons, not_or, not_or]
      exact ⟨hpath, by decide, ih⟩

theorem lineCount_uriList {paths : List Bytes} (hne : paths ≠ []) :
    lineCount (uriList paths) = paths.length := by
  induction paths with
  | nil => exact absurd rfl hne
  | cons path paths ih =>
    have hpath : (urlEncode path).count 0x0a = 0 :=
      List.count_eq_zero_of_not_mem fun h => ((urlEncode_spec path).1 _ h).2 rfl
    cases paths with
    | nil =>
      rw [uriList_singleton]
      unfold lineCount
      rw [hpath]
      rfl
    | cons next paths =>
      have ih := ih (List.cons_ne_nil _ _)
      unfold lineCount at ih ⊢
      rw [uriList_cons_cons, List.count_append, hpath, List.count_cons_self, List.length_cons]
      omega

/-- The first line of the buffer, and where the next one starts. -/
theorem exists_uriLine (path : Bytes) (paths : List Bytes) : ∃ t,
    lineBuffer (uriList (path :: paths)) = urlEncode path ++ t ∧ Ended t ∧
      t.drop 1 = lineBuffer (uriList paths) := by
  have hpath : lineBuffer (urlEncode path) = urlEncode path := by
    unfold lineBuffer
    conv_rhs => rw [← List.map_id (urlEncode path)]
    apply List.map_congr_left
    intro c hc
    exact if_neg ((urlEncode_spec path).1 c hc).2
  cases paths with
  | nil => exact ⟨[], by rw [uriList_singleton, hpath, List.append_nil], ended_nil, rfl⟩
  | cons next paths =>
    refine ⟨0 :: lineBuffer (uriList (next :: paths)), ?_, ended_zero _, rfl⟩
    rw [uriList_cons_cons]
    unfold lineBuffer at hpath ⊢
    rw [List.map_append, hpath, List.map_cons, if_pos rfl]

/-- **Decoding the first line in place** leaves the next one at the start of the rest. -/
theorem drop_overwrite {s t : Bytes} (hshort : 7 + 3 * s.length ≤ maxFileNameLen) (ht : Ended t) :
    (overwrite (urlEncode s ++ t) s).drop (lineOffset (urlEncode s ++ t)) = t.drop 1 := by
  obtain ⟨hbytes, hlt, hle⟩ := urlEncode_spec s
  have hoff : lineOffset (urlEncode s ++ t) = (urlEncode s).length + 1 := by
    unfold lineOffset
    rw [cstr_append_ended (fun h => (hbytes 0 h).1 rfl) ht]
    omega
  obtain ⟨k, hk⟩ : ∃ k, (urlEncode s).length = s.length + k := ⟨_, (Nat.add_sub_of_le hlt.le).symm⟩
  rw [hoff]
  unfold overwrite
  -- the NUL that ends the path was written over a byte of the URL
  rw [hk, Nat.add_assoc, ← List.drop_drop, List.drop_left, List.drop_succ_cons, List.drop_drop]
  have hstart : s.length + 1 + k = (urlEncode s).length + 1 := by omega
  rw [hstart, ← List.drop_drop, List.drop_left]

end ClipShare
