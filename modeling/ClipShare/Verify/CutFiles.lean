import ClipShare.Verify.UrlBlocks

namespace ClipShare

open Posix

/-!
# The clipboard content for cut files

`set_clipboard_cut_files` computes the size of its buffer from the lengths of the URLs, and then
copies at most 4096 bytes of each URL.

* `cutContent` — what the buffer is to hold;
* `cutUrls_eq` — the first loop: the URLs and the size;
* `copyUrls_spec` — the second loop: the URLs as far as they are copied;
* `cutFiles_complete_iff` — the buffer is complete exactly if every URL is copied as a whole.
-/

/-- The lines of the URLs, of each of which at most `max` bytes are copied. -/
def urlLines (max : Nat) (paths : List Bytes) : Bytes :=
  paths.flatMap fun path => 0x0a :: (urlEncode path).take max

/-- What the clipboard is to hold: `cut`, the URL of each path on a line, and a NUL. -/
def cutContent (paths : List Bytes) : Bytes :=
  ascii "cut" ++ (paths.flatMap fun path => 0x0a :: urlEncode path) ++ [0]

section CutFiles

variable {max : Nat} {paths : List Bytes} {path : Bytes}

theorem urlLines_cons : urlLines max (path :: paths)
    = 0x0a :: (urlEncode path).take max ++ urlLines max paths := rfl

/-- The lines have no NUL. -/
theorem zero_not_mem_uriLines :
    (0 : UInt8) ∉ paths.flatMap fun path => 0x0a :: urlEncode path := by
  intro h
  obtain ⟨path, -, h⟩ := List.mem_flatMap.mp h
  rcases List.mem_cons.mp h with h | h
  · exact absurd h (by decide)
  · exact ((urlEncode_spec path).1 0 h).1 rfl

theorem zero_not_mem_urlLines : (0 : UInt8) ∉ urlLines max paths := by
  intro h
  obtain ⟨path, hpath, h⟩ := List.mem_flatMap.mp h
  refine zero_not_mem_uriLines (List.mem_flatMap.mpr ⟨path, hpath, ?_⟩)
  rcases List.mem_cons.mp h with h | h
  · rw [h]
    exact List.mem_cons_self
  · exact List.mem_cons_of_mem _ (List.mem_of_mem_take h)

/-- Not more is copied than there is. -/
theorem length_urlLines_le : (urlLines max paths).length
    ≤ (paths.flatMap fun path => 0x0a :: urlEncode path).length := by
  induction paths with
  | nil => exact le_rfl
  | cons path paths ih =>
    rw [urlLines_cons, List.flatMap_cons, List.length_append, List.length_append,
      List.length_cons, List.length_cons, List.length_take]
    omega

/-- The lines are complete exactly if no URL is longer. -/
theorem urlLines_eq_iff : urlLines max paths = (paths.flatMap fun path => 0x0a :: urlEncode path)
    ↔ ∀ path ∈ paths, (urlEncode path).length ≤ max := by
  constructor
  · intro heq
    have hlen := congrArg List.length heq
    clear heq
    induction paths with
    | nil => simp
    | cons path paths ih =>
      have hle := @length_urlLines_le max paths
      rw [urlLines_cons, List.flatMap_cons, List.length_append, List.length_append,
        List.length_cons, List.length_cons, List.length_take] at hlen
      intro p hp
      rcases List.mem_cons.mp hp with rfl | hp
      · omega
      · exact ih (by omega) p hp
  · intro hall
    unfold urlLines
    rw [List.flatMap_congr]
    intro path hpath
    rw [List.take_of_length_le (hall path hpath)]

/-! ### The first loop -/

/-- The first loop sums the sizes of the URLs. -/
theorem cutUrls_eq (signed : Bool) (junk : Nat → Nat → UInt8) (tot : Nat)
    (hpaths : ∀ path ∈ paths, (0 : UInt8) ∉ path)
    (hfit : ∀ path ∈ paths, (urlEncode path).length + 1 < 2 ^ 32) :
    cutUrls signed junk paths (UInt64.ofNat tot) = some (paths.map (urlEncode · ++ [0]),
      UInt64.ofNat (tot + (paths.flatMap fun path => 0x0a :: urlEncode path).length)) := by
  induction paths generalizing junk tot with
  | nil => rfl
  | cons path paths ih =>
    have hurl := hfit path List.mem_cons_self
    have hpos := (urlEncode_spec path).2.1
    have hlen : UInt32.ofNat (urlEncode path).length ≠ 0 := by
      intro h
      have hzero := congrArg UInt32.toNat h
      rw [UInt32.toNat_ofNat', Nat.mod_eq_of_lt (by omega), UInt32.toNat_zero] at hzero
      omega
    have hnext : UInt64.ofNat tot + (UInt32.ofNat (urlEncode path).length + 1).toUInt64
        = UInt64.ofNat (tot + (0x0a :: urlEncode path).length) := by
      have hsucc : UInt32.ofNat (urlEncode path).length + 1
          = UInt32.ofNat ((urlEncode path).length + 1) := by simp
      rw [hsucc, List.length_cons, UInt64.ofNat_add]
      congr 1
      apply UInt64.toNat_inj.mp
      rw [UInt32.toNat_toUInt64, UInt32.toNat_ofNat', UInt64.toNat_ofNat', Nat.mod_eq_of_lt hurl,
        Nat.mod_eq_of_lt (by omega)]
    unfold cutUrls
    rw [urlEncodeBlock_of_lt signed _ (hpaths path List.mem_cons_self) hurl]
    simp only [Option.bind_eq_bind, Option.bind_some, if_neg hlen, hnext]
    rw [ih _ _ (fun p hp => hpaths p (List.mem_cons_of_mem _ hp))
      fun p hp => hfit p (List.mem_cons_of_mem _ hp)]
    simp only [Option.bind_some, List.map_cons, List.flatMap_cons, List.length_append]
    rw [Nat.add_assoc]
    rfl

/-! ### The second loop -/

/-- What `strncpy` copies of a URL: at most 4096 bytes that count, and one more. -/
theorem strncpy_url (block : Bytes) (i : Nat) (path : Bytes) :
    strnlen (urlEncode path ++ [0]) maxUrlLen = ((urlEncode path).take maxUrlLen).length ∧
    ∃ x, strncpy block i (urlEncode path ++ [0])
        (((urlEncode path).take maxUrlLen).length + 1)
      = store block i ((urlEncode path).take maxUrlLen ++ [x]) := by
  have hurl : (0 : UInt8) ∉ urlEncode path := fun h => ((urlEncode_spec path).1 0 h).1 rfl
  have hcstr : cstr (urlEncode path ++ [0]) = urlEncode path :=
    cstr_append_ended hurl (ended_zero [])
  have hpart : (0 : UInt8) ∉ (urlEncode path).take maxUrlLen := fun h =>
    hurl (List.mem_of_mem_take h)
  unfold strnlen strncpy
  rw [hcstr, List.length_take]
  by_cases hlong : (urlEncode path).length ≤ maxUrlLen
  · -- the URL is copied with its NUL
    rw [Nat.min_eq_right hlong, List.take_of_length_le (Nat.le_succ _), Nat.add_sub_cancel_left,
      List.take_of_length_le hlong]
    refine ⟨?_, 0, rfl⟩
    by_cases hmax : (urlEncode path).length = maxUrlLen
    · rw [List.take_append_of_le_length hmax.ge, ← hmax, List.take_length, cstr_of_not_mem hurl]
    · rw [List.take_of_length_le (by rw [List.length_append, List.length_singleton]; omega), hcstr]
  · have hlt : maxUrlLen < (urlEncode path).length := not_le.mp hlong
    have hnone : maxUrlLen + 1 - (urlEncode path).length = 0 := by omega
    rw [Nat.min_eq_left hlt.le, List.take_append_of_le_length hlt.le, cstr_of_not_mem hpart,
      List.length_take, Nat.min_eq_left hlt.le, hnone, List.take_succ_eq_append_getElem hlt]
    exact ⟨rfl, _, by rw [List.replicate_zero, List.append_nil]⟩

/-- **Step and run.**  The second loop writes the lines behind what is there. -/
theorem copyUrls_spec (paths : List Bytes) (done free : Bytes)
    (hroom : (paths.flatMap fun path => 0x0a :: urlEncode path).length < free.length) :
    ∃ free', copyUrls (paths.map (urlEncode · ++ [0])) (done ++ free) done.length
        = some (done ++ urlLines maxUrlLen paths ++ free',
          (done ++ urlLines maxUrlLen paths).length) ∧
      free'.length = free.length - (urlLines maxUrlLen paths).length := by
  induction paths generalizing done free with
  | nil => exact ⟨free, by simp [copyUrls, urlLines], rfl⟩
  | cons path paths ih =>
    rw [List.flatMap_cons, List.length_append, List.length_cons] at hroom
    obtain ⟨u, hu⟩ : ∃ u, (urlEncode path).take maxUrlLen = u := ⟨_, rfl⟩
    have hle : u.length ≤ (urlEncode path).length := by
      rw [← hu, List.length_take]
      omega
    have hnewline := store_append done [0x0a] free (by rw [List.length_singleton]; omega)
    rw [List.length_singleton] at hnewline
    obtain ⟨hstrnlen, x, hcopy⟩ := strncpy_url (done ++ [0x0a] ++ free.drop 1)
      (done ++ [0x0a]).length path
    rw [hu] at hstrnlen hcopy
    have hline := store_append (done ++ [0x0a]) (u ++ [x]) (free.drop 1) (by
      rw [List.length_append, List.length_singleton, List.length_drop]
      omega)
    rw [hline] at hcopy
    -- the next line starts over the last byte that was copied
    obtain ⟨rest, hrest⟩ : ∃ rest, x :: (free.drop 1).drop (u ++ [x]).length = rest := ⟨_, rfl⟩
    have hblock : done ++ [0x0a] ++ (u ++ [x]) ++ (free.drop 1).drop (u ++ [x]).length
        = done ++ 0x0a :: u ++ rest := by
      rw [← hrest]
      simp
    have hlen : rest.length = free.length - (0x0a :: u).length := by
      rw [← hrest, List.length_cons, List.length_drop, List.length_drop, List.length_append,
        List.length_singleton, List.length_cons]
      omega
    have hpos : (done ++ [0x0a]).length + u.length = (done ++ 0x0a :: u).length := by
      simp
      omega
    rw [hblock] at hcopy
    rw [List.length_cons] at hlen
    obtain ⟨free', hloop, hfree⟩ := ih (done ++ 0x0a :: u) rest (by omega)
    refine ⟨free', ?_, ?_⟩
    · rw [List.map_cons, copyUrls, hnewline, hstrnlen]
      show (strncpy (done ++ [0x0a] ++ free.drop 1) (done.length + 1) _ (u.length + 1)).bind _ = _
      have hone : done.length + 1 = (done ++ [0x0a]).length := by simp
      rw [hone, hcopy, Option.bind_some, hpos, hloop, urlLines_cons, hu]
      simp only [List.append_assoc]
    · rw [hfree, urlLines_cons, hu, List.length_append, List.length_cons]
      omega

/-! ### The buffer -/

/-- The buffer that `set_clipboard_cut_files` hands over holds the content in full, and the length
    that it declares is that of the content, whatever its blocks held before. -/
def CutFilesComplete (signed : Bool) (paths : List Bytes) : Prop :=
  ∀ junk, ∃ len buf, cutFilesBlock signed junk paths = some (some (len, buf)) ∧
    buf = cutContent paths ∧ len.toNat = buf.length

/-- What the buffer holds: the lines as far as they were copied, a NUL, and what is left of the
    block. -/
theorem cutFilesBlock_spec (signed : Bool) (junk : Nat → Nat → UInt8)
    (hpaths : ∀ path ∈ paths, (0 : UInt8) ∉ path)
    (hsize : (cutContent paths).length < 2 ^ 32 - 1) :
    ∃ rest, cutFilesBlock signed junk paths = some (some (UInt32.ofNat (cutContent paths).length,
        ascii "cut" ++ urlLines maxUrlLen paths ++ 0 :: rest)) ∧
      (ascii "cut" ++ urlLines maxUrlLen paths ++ 0 :: rest).length
        = (cutContent paths).length := by
  obtain ⟨n, hn⟩ : ∃ n, (paths.flatMap fun path => 0x0a :: urlEncode path).length = n := ⟨_, rfl⟩
  have hcut : (ascii "cut").length = 3 := rfl
  have hcontent : (cutContent paths).length = 4 + n := by
    unfold cutContent
    rw [List.length_append, List.length_append, hcut, hn, List.length_singleton]
    omega
  have hfit : ∀ path ∈ paths, (urlEncode path).length + 1 < 2 ^ 32 := by
    intro path hpath
    obtain ⟨before, after, rfl⟩ := List.append_of_mem hpath
    rw [List.flatMap_append, List.flatMap_cons, List.length_append, List.length_append,
      List.length_cons] at hn
    omega
  have hurls := cutUrls_eq signed (fun i => junk (i + 1)) 4 hpaths hfit
  rw [hn] at hurls
  have htot : (UInt64.ofNat (4 + n)).toNat = 4 + n := by
    rw [UInt64.toNat_ofNat']
    exact Nat.mod_eq_of_lt (by omega)
  have hsmall : ¬ UInt64.ofNat (4 + n) ≥ 0xFFFFFFFF := by
    rw [ge_iff_le, UInt64.le_iff_toNat_le, htot]
    show ¬ 4294967295 ≤ 4 + n
    omega
  -- the first line
  obtain ⟨free, hfree, hstart⟩ : ∃ free, free.length = n + 1 ∧
      strncpy (malloc (junk 0) (4 + n)) 0 (ascii "cut") 4 = some (ascii "cut" ++ free) := by
    have hwrite : strncpy (malloc (junk 0) (4 + n)) 0 (ascii "cut") 4
        = store (malloc (junk 0) (4 + n)) 0 (ascii "cut" ++ [0]) :=
      strncpy_of_length _ 0 (ascii "cut") (by decide)
    refine ⟨0 :: (malloc (junk 0) (4 + n)).drop 4, ?_, ?_⟩
    · rw [List.length_cons, List.length_drop, length_malloc]
      omega
    · rw [hwrite, store_of_le (by rw [length_malloc]; show 4 ≤ 4 + n; omega), List.append_assoc]
      rfl
  obtain ⟨free', hloop, hfree'⟩ := copyUrls_spec paths (ascii "cut") free (by omega)
  have hle := @length_urlLines_le maxUrlLen paths
  have hlast := store_append (ascii "cut" ++ urlLines maxUrlLen paths) [0] free' (by
    rw [List.length_singleton]
    omega)
  refine ⟨free'.drop 1, ?_, ?_⟩
  · unfold cutFilesBlock
    show (cutUrls signed _ paths (UInt64.ofNat 4)).bind _ = _
    rw [hurls, Option.bind_some]
    dsimp only
    rw [if_neg hsmall, htot, hstart, Option.bind_eq_bind, Option.bind_some]
    show (copyUrls _ _ (ascii "cut").length).bind _ = _
    rw [hloop, Option.bind_some]
    show (store _ _ _).bind _ = _
    rw [hlast, Option.bind_some, hcontent]
    have h32 : (UInt64.ofNat (4 + n)).toUInt32 = UInt32.ofNat (4 + n) := by
      apply UInt32.toNat_inj.mp
      rw [UInt64.toNat_toUInt32, htot, UInt32.toNat_ofNat']
    rw [h32, List.append_assoc _ [0]]
    rfl
  · rw [List.length_append, List.length_append, List.length_cons, List.length_drop, hcut, hcontent]
    omega

/-- The content is complete exactly if the lines are copied in full. -/
theorem cutFilesComplete_iff_lines (signed : Bool) (hpaths : ∀ path ∈ paths, (0 : UInt8) ∉ path)
    (hsize : (cutContent paths).length < 2 ^ 32 - 1) :
    CutFilesComplete signed paths ↔
      urlLines maxUrlLen paths = paths.flatMap fun path => 0x0a :: urlEncode path := by
  have hspec := fun junk => cutFilesBlock_spec signed junk hpaths hsize
  constructor
  · intro h
    obtain ⟨len, buf, hblock, hbuf, -⟩ := h fun _ _ => 0
    obtain ⟨rest, hrest, -⟩ := hspec fun _ _ => 0
    rw [hrest] at hblock
    -- the strings in the two buffers
    have hcut : (0 : UInt8) ∉ ascii "cut" := by decide
    have hcopied : (0 : UInt8) ∉ ascii "cut" ++ urlLines maxUrlLen paths := fun h =>
      (List.mem_append.mp h).elim hcut zero_not_mem_urlLines
    have hfull : (0 : UInt8) ∉ ascii "cut" ++ paths.flatMap fun path => 0x0a :: urlEncode path := by
      intro h
      rcases List.mem_append.mp h with h | h
      · exact hcut h
      · exact zero_not_mem_uriLines h
    have hsame : ascii "cut" ++ urlLines maxUrlLen paths ++ 0 :: rest = cutContent paths := by
      rw [← hbuf]
      exact congrArg Prod.snd (Option.some.inj (Option.some.inj hblock))
    have hstr := congrArg cstr hsame
    unfold cutContent at hstr
    rw [cstr_append_ended hcopied (ended_zero rest),
      cstr_append_ended hfull (ended_zero [])] at hstr
    exact List.append_cancel_left hstr
  · intro hlines junk
    obtain ⟨rest, hrest, hlength⟩ := hspec junk
    rw [hlines] at hrest hlength
    obtain rfl : rest = [] := by simpa [cutContent] using hlength
    refine ⟨_, _, hrest, rfl, ?_⟩
    show _ = (cutContent paths).length
    rw [UInt32.toNat_ofNat']
    exact Nat.mod_eq_of_lt (by omega)

/-- **The content for cut files.**  It is complete exactly if no URL is longer than the part that
    is copied. -/
theorem cutFiles_complete_iff (signed : Bool) (hpaths : ∀ path ∈ paths, (0 : UInt8) ∉ path)
    (hsize : (cutContent paths).length < 2 ^ 32 - 1) :
    CutFilesComplete signed paths ↔
      ∀ path ∈ paths, 7 + path.length + 2 * escapes path ≤ maxUrlLen := by
  rw [cutFilesComplete_iff_lines signed hpaths hsize, urlLines_eq_iff]
  simp only [length_urlEncode]

theorem cutFiles_complete_two : CutFilesComplete true [ascii "/a", ascii "/b c"] :=
  (cutFiles_complete_iff true (by decide) (by decide)).mpr (by decide)

end CutFiles

/-- A path of 1400 bytes that are all escaped: the end of its URL is missing. -/
theorem cutFiles_incomplete : (∀ path ∈ [List.replicate 1400 (0xe4 : UInt8)], (0 : UInt8) ∉ path) ∧
    (cutContent [List.replicate 1400 0xe4]).length < 2 ^ 32 - 1 ∧
    ∀ signed, ¬ CutFilesComplete signed [List.replicate 1400 0xe4] := by
  have hlen : (urlEncode (List.replicate 1400 0xe4)).length = 4207 := by
    have hsafe : urlSafe 0xe4 = false := by decide
    rw [length_urlEncode, escapes, List.countP_replicate, List.length_replicate, hsafe]
    rfl
  have hpaths : ∀ path ∈ [List.replicate 1400 (0xe4 : UInt8)], (0 : UInt8) ∉ path := by
    intro path hpath h
    rw [List.mem_singleton.mp hpath] at h
    exact absurd (List.eq_of_mem_replicate h) (by decide)
  have hsize : (cutContent [List.replicate 1400 0xe4]).length < 2 ^ 32 - 1 := by
    unfold cutContent
    rw [List.flatMap_singleton, List.length_append, List.length_append, List.length_cons, hlen]
    decide
  refine ⟨hpaths, hsize, fun signed h => ?_⟩
  have hlines := (cutFilesComplete_iff_lines signed hpaths hsize).mp h
  have hall := urlLines_eq_iff.mp hlines _ (List.mem_singleton_self _)
  rw [hlen] at hall
  exact absurd hall (by decide)

end ClipShare
