import ClipShare.Server.MacUtils

namespace ClipShare

open Posix

/-!
# The URLs on the pasteboard

`get_copied_files_as_str` of macOS writes each URL with a newline, and then replaces the last
newline.  Without a URL there is none, and the NUL goes in front of the buffer.

* `urlLinesOf` — the URLs, each with a newline;
* `copyFileUrls_spec` — the second loop fills a buffer of the right size;
* `copyFileUrls_bound` — the second loop never gets beyond its buffer;
* `Mac.getCopiedFilesAsStr_iff` — when the function is correct.
-/

/-- The URLs that are not left out, each with a newline. -/
def urlLinesOf (fileUrls : List (Option Bytes)) : Bytes :=
  (fileUrls.filterMap id).flatMap (· ++ [0x0a])

/-- The URLs are strings of at most `MAX_FILE_NAME_LEN` bytes. -/
def ShortUrls (fileUrls : List (Option Bytes)) : Prop :=
  ∀ url, some url ∈ fileUrls → (0 : UInt8) ∉ url ∧ url.length ≤ maxFileNameLen

variable {fileUrls : List (Option Bytes)} {url : Bytes}

theorem urlLinesOf_some :
    urlLinesOf (some url :: fileUrls) = url ++ [0x0a] ++ urlLinesOf fileUrls := rfl

theorem length_urlLinesOf_some : (urlLinesOf (some url :: fileUrls)).length =
    url.length + 1 + (urlLinesOf fileUrls).length := by
  rw [urlLinesOf_some, List.length_append, List.length_append, List.length_singleton]

theorem ShortUrls.tail {o : Option Bytes} (h : ShortUrls (o :: fileUrls)) : ShortUrls fileUrls :=
  fun u hu => h u (List.mem_cons_of_mem _ hu)

/-- Lines are what is between newlines, with one more newline. -/
theorem lines_eq_intercalate {urls : List Bytes} (hne : urls ≠ []) :
    urls.flatMap (· ++ [0x0a]) = [0x0a].intercalate urls ++ [0x0a] := by
  induction urls with
  | nil => exact absurd rfl hne
  | cons u urls ih =>
    cases urls with
    | nil => simp [List.intercalate]
    | cons v urls =>
      rw [List.flatMap_cons, ih (List.cons_ne_nil _ _)]
      simp [List.intercalate]

/-! ### The loops -/

/-- The first loop adds up the size, which may wrap around. -/
theorem foldl_addUrlSize (h : ShortUrls fileUrls) (totLen : UInt64) :
    fileUrls.foldl addUrlSize totLen = totLen + UInt64.ofNat (urlLinesOf fileUrls).length := by
  induction fileUrls generalizing totLen with
  | nil => exact (UInt64.add_zero totLen).symm
  | cons o fileUrls ih =>
    cases o with
    | none => exact ih h.tail totLen
    | some url =>
      obtain ⟨h0, hlen⟩ := h url List.mem_cons_self
      have hstep : addUrlSize totLen (some url) = totLen + UInt64.ofNat (url.length + 1) := by
        show totLen + UInt64.ofNat (strnlen url maxFileNameLen + 1) = _
        rw [strnlen_of_length_le h0 hlen]
      rw [List.foldl_cons, ih h.tail, hstep, length_urlLinesOf_some,
        UInt64.ofNat_add (url.length + 1), UInt64.add_assoc]

theorem toNat_urlsSize (h : ShortUrls fileUrls) :
    (urlsSize fileUrls).toNat = (urlLinesOf fileUrls).length % 2 ^ 64 := by
  unfold urlsSize
  rw [foldl_addUrlSize h, UInt64.zero_add, UInt64.toNat_ofNat']

/-- One URL and its newline; the NULs that `strncpy` adds are written over later. -/
theorem store_url (done : Bytes) {free : Bytes} {n : Nat} (h0 : (0 : UInt8) ∉ url)
    (hn : url.length ≤ n) (hfree : n ≤ free.length) (hroom : url.length < free.length) :
    ∃ mid rest, strncpy (done ++ free) done.length url n = some mid ∧
      store mid (done.length + url.length) [0x0a] = some (done ++ url ++ [0x0a] ++ rest) ∧
      rest.length + (url.length + 1) = free.length := by
  have hcopy : strncpy (done ++ free) done.length url n =
      some (done ++ url ++ (List.replicate (n - url.length) 0 ++ free.drop n)) := by
    unfold strncpy
    rw [cstr_of_not_mem h0, List.take_of_length_le hn, store_append]
    · rw [List.length_append, List.length_replicate, Nat.add_sub_cancel' hn]
      simp only [List.append_assoc]
    · rw [List.length_append, List.length_replicate]
      omega
  have hlen : (List.replicate (n - url.length) (0 : UInt8) ++ free.drop n).length =
      free.length - url.length := by
    rw [List.length_append, List.length_replicate, List.length_drop]
    omega
  refine ⟨_, (List.replicate (n - url.length) 0 ++ free.drop n).drop 1, hcopy, ?_, ?_⟩
  · rw [← List.length_append]
    exact store_append _ [0x0a] _ (by rw [hlen, List.length_singleton]; omega)
  · rw [List.length_drop, hlen]
    omega

/-- The second loop fills what is left of the buffer. -/
theorem copyFileUrls_spec (h : ShortUrls fileUrls) (done : Bytes) {free : Bytes} {totLen : UInt64}
    (htot : totLen.toNat = (urlLinesOf fileUrls).length) (hfree : free.length = totLen.toNat) :
    copyFileUrls fileUrls (done ++ free) done.length totLen =
      some (done ++ urlLinesOf fileUrls, (done ++ urlLinesOf fileUrls).length) := by
  induction fileUrls generalizing done free totLen with
  | nil =>
    have hnil : free = [] := List.length_eq_zero_iff.mp (hfree.trans htot)
    rw [hnil]
    show some (done ++ [], done.length) = some (done ++ [], (done ++ []).length)
    rw [List.append_nil]
  | cons o fileUrls ih =>
    cases o with
    | none => exact ih h.tail done htot hfree
    | some url =>
      obtain ⟨h0, hlen⟩ := h url List.mem_cons_self
      rw [length_urlLinesOf_some] at htot
      obtain ⟨mid, rest, hcopy, hstore, hrest⟩ :=
        store_url done (n := min totLen.toNat maxFileNameLen) h0 (by omega)
          (by rw [hfree]; exact Nat.min_le_left _ _) (by omega)
      have hlt := totLen.toNat_lt
      have hone : (UInt64.ofNat (url.length + 1)).toNat = url.length + 1 := by
        rw [UInt64.toNat_ofNat', Nat.mod_eq_of_lt (by omega)]
      have hleft : (totLen - UInt64.ofNat (url.length + 1)).toNat =
          totLen.toNat - (url.length + 1) := by
        rw [UInt64.toNat_sub_of_le _ _ (by rw [UInt64.le_iff_toNat_le, hone]; omega), hone]
      have hptr : done.length + url.length + 1 = (done ++ url ++ [0x0a]).length := by
        rw [List.length_append, List.length_append, List.length_singleton]
      unfold copyFileUrls
      rw [hcopy, strnlen_of_length_le h0 hlen]
      show (store mid (done.length + url.length) [0x0a]).bind _ = _
      rw [hstore]
      show copyFileUrls fileUrls _ (done.length + url.length + 1) _ = _
      rw [hptr, ih h.tail _ (by omega) (by omega), urlLinesOf_some]
      simp only [List.append_assoc]

/-- What the second loop has written lies inside the block. -/
theorem copyFileUrls_bound (h : ShortUrls fileUrls) {block block' : Bytes} {ptr ptr' : Nat}
    {totLen : UInt64} (hptr : ptr ≤ block.length)
    (hrun : copyFileUrls fileUrls block ptr totLen = some (block', ptr')) :
    ptr' = ptr + (urlLinesOf fileUrls).length ∧ ptr' ≤ block.length ∧
      block'.length = block.length := by
  induction fileUrls generalizing block ptr totLen with
  | nil =>
    cases hrun
    exact ⟨rfl, hptr, rfl⟩
  | cons o fileUrls ih =>
    cases o with
    | none => exact ih h.tail hptr hrun
    | some url =>
      obtain ⟨h0, hlen⟩ := h url List.mem_cons_self
      unfold copyFileUrls at hrun
      rw [strnlen_of_length_le h0 hlen] at hrun
      obtain ⟨mid, hcopy, hrun⟩ := Option.bind_eq_some_iff.mp hrun
      obtain ⟨mid', hstore, hrun⟩ := Option.bind_eq_some_iff.mp hrun
      have hroom : ptr + url.length + 1 ≤ mid.length := by
        by_contra hout
        have hnone : store mid (ptr + url.length) [0x0a] = none :=
          store_eq_none_iff.mpr (by rw [List.length_singleton]; omega)
        rw [hnone] at hstore
        cases hstore
      have hsame := (length_store hstore).trans (length_strncpy hcopy)
      obtain ⟨hend, hbound, hkept⟩ := ih h.tail (by rw [length_store hstore]; exact hroom) hrun
      rw [length_urlLinesOf_some]
      exact ⟨by omega, by omega, hkept.trans hsame⟩

/-! ### The function -/

/-- The URLs in order, with single newlines between them. -/
def joinedUrls (fileUrls : List (Option Bytes)) : Bytes :=
  [0x0a].intercalate (fileUrls.filterMap id)

/-- With a URL there is a newline to replace. -/
theorem urlLinesOf_eq (hne : fileUrls.filterMap id ≠ []) :
    urlLinesOf fileUrls = joinedUrls fileUrls ++ [0x0a] := lines_eq_intercalate hne

/-- With a URL, the buffer holds the URLs at the end. -/
theorem joinFileUrls_spec (h : ShortUrls fileUrls) (hne : fileUrls.filterMap id ≠ [])
    {block : Bytes} {totLen : UInt64} (htot : totLen.toNat = (urlLinesOf fileUrls).length)
    (hblock : block.length = totLen.toNat) :
    joinFileUrls fileUrls block totLen = some (joinedUrls fileUrls ++ [0]) := by
  have hcopy := copyFileUrls_spec h [] htot hblock
  have hpred : sizePred (joinedUrls fileUrls ++ [0x0a]).length = (joinedUrls fileUrls).length := by
    rw [List.length_append, List.length_singleton]
    exact if_neg (Nat.succ_ne_zero _)
  rw [List.nil_append, List.nil_append, List.length_nil, urlLinesOf_eq hne] at hcopy
  unfold joinFileUrls
  rw [hcopy]
  show store (joinedUrls fileUrls ++ [0x0a]) (sizePred (joinedUrls fileUrls ++ [0x0a]).length)
    [0] = _
  rw [hpred]
  exact (store_append (joinedUrls fileUrls) [0] [0x0a] le_rfl).trans
    (congrArg some (List.append_nil _))

/-- Without a URL the NUL goes in front of the buffer, and more URLs than `tot_len` can count go
    beyond its end. -/
theorem joinFileUrls_inside (h : ShortUrls fileUrls) {block block' : Bytes} {totLen : UInt64}
    (hblock : block.length = totLen.toNat)
    (hrun : joinFileUrls fileUrls block totLen = some block') :
    fileUrls.filterMap id ≠ [] ∧ (urlLinesOf fileUrls).length ≤ totLen.toNat := by
  have hlt := totLen.toNat_lt
  obtain ⟨⟨copied, ptr⟩, hcopy, hstore⟩ := Option.bind_eq_some_iff.mp hrun
  obtain ⟨hptr, hbound, hkept⟩ := copyFileUrls_bound h (Nat.zero_le _) hcopy
  refine ⟨?_, by omega⟩
  intro hnil
  have hempty : (urlLinesOf fileUrls).length = 0 := by
    unfold urlLinesOf
    rw [hnil]
    rfl
  have hwrap : sizePred ptr = 2 ^ 64 - 1 := if_pos (by omega)
  have hout : store copied (sizePred ptr) [0] = none :=
    store_eq_none_iff.mpr (by rw [hwrap, List.length_singleton]; omega)
  cases hout.symm.trans hstore

/-- **The URLs are joined.**  `get_copied_files_as_str` stays inside its buffer, and the string that
    it returns is that of the URLs with single newlines between them, exactly if there is a URL and
    the size of the buffer is a `size_t`. -/
theorem Mac.getCopiedFilesAsStr_iff (h : ShortUrls fileUrls) :
    (∀ junk mallocOk, ∃ str,
        Mac.getCopiedFilesAsStr junk mallocOk (some fileUrls) = some (0, str) ∧
          (str = none ∨ str = some (joinedUrls fileUrls ++ [0]))) ↔
      fileUrls.filterMap id ≠ [] ∧ (urlLinesOf fileUrls).length < 2 ^ 64 := by
  constructor
  · intro hall
    obtain ⟨str, hrun, -⟩ := hall (fun _ => 0) true
    obtain ⟨block, hjoin, -⟩ := Option.bind_eq_some_iff.mp hrun
    obtain ⟨hne, hle⟩ := joinFileUrls_inside h (length_malloc _ _) hjoin
    refine ⟨hne, ?_⟩
    exact Nat.lt_of_le_of_lt hle (urlsSize fileUrls).toNat_lt
  · rintro ⟨hne, hsize⟩ junk mallocOk
    cases mallocOk with
    | false => exact ⟨none, rfl, .inl rfl⟩
    | true =>
      have htot : (urlsSize fileUrls).toNat = (urlLinesOf fileUrls).length := by
        rw [toNat_urlsSize h, Nat.mod_eq_of_lt hsize]
      have hjoin := joinFileUrls_spec h hne htot (length_malloc junk _)
      refine ⟨some (joinedUrls fileUrls ++ [0]), ?_, .inr rfl⟩
      show (joinFileUrls fileUrls (malloc junk (urlsSize fileUrls).toNat) _).bind _ = _
      rw [hjoin]
      rfl

/-- Two URLs, and an object that is none. -/
def twoUrls : List (Option Bytes) :=
  [some (ascii "file:///a"), none, some (ascii "file:///b%20c")]

/-- `Mac.getCopiedFilesAsStr_iff` for two URLs. -/
theorem Mac.getCopiedFilesAsStr_iff_two :
    ∃ str, Mac.getCopiedFilesAsStr (fun _ => 0x78) true (some twoUrls) = some (0, str) ∧
      (str = none ∨ str = some (ascii "file:///a\nfile:///b%20c" ++ [0])) := by
  have hshort : ShortUrls twoUrls := by
    intro url hurl
    unfold twoUrls at hurl
    rcases List.mem_cons.mp hurl with h1 | hurl
    · cases h1
      exact ⟨by decide, by decide⟩
    · rcases List.mem_cons.mp hurl with h2 | hurl
      · cases h2
      · cases List.mem_singleton.mp hurl
        exact ⟨by decide, by decide⟩
  exact (Mac.getCopiedFilesAsStr_iff hshort).mpr ⟨by decide, by decide⟩ (fun _ => 0x78) true

/-- Without a URL the function writes in front of its buffer. -/
theorem Mac.getCopiedFilesAsStr_empty :
    ¬ ∃ str, Mac.getCopiedFilesAsStr (fun _ => 0x78) true (some []) = some (0, str) ∧
      (str = none ∨ str = some (joinedUrls [] ++ [0])) := by
  have hfault : Mac.getCopiedFilesAsStr (fun _ => 0x78) true (some []) = none := by decide
  rw [hfault]
  rintro ⟨str, hrun, -⟩
  cases hrun

end ClipShare
