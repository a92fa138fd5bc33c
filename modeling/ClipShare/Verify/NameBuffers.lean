import ClipShare.Server.NameBuffers
import ClipShare.Verify.Names

namespace ClipShare

open Interaction Posix

/-!
# The buffers of file names are large enough

* `Follows` — all accesses to buffers stay inside, all texts fit, and otherwise the program does
  what another one does, which has no buffers;
* one lemma for each access, and one for each function;
* `nameBuffers_suffice` — what follows for every run.
-/

/-- Reading delivers as many bytes as were asked for. -/
def Call.Answers : (c : Call) → c.Resp → Prop
  | .readSock n, r => ∀ data, r = some data → data.length = n
  | _, _ => True

/-- All notes of a program on buffers are good, and without them it is `q`. -/
abbrev Follows {α β : Type} (E : α → β → Prop) (p : BufferProc α) (q : Proc β) : Prop :=
  Prog.Tracks BufferNote.Good Call.Answers E p q

/-- The working directory as `main` stores it: its length is measured with a bound. -/
structure Env.Cwd (env : Env) : Prop where
  nul : (0 : UInt8) ∉ env.cwd
  short : env.cwd.length ≤ maxFileNameLen

namespace Buffered

variable {α β : Type} {E : α → β → Prop} {q : Proc β} {buf s : Bytes} {i n size : Nat}

/-! ### Accesses -/

theorem follows_readString {f : Bytes → BufferProc α} (hs : HoldsString buf i s)
    (h : Follows E (f s) q) : Follows E (readString buf i >>= f) q := by
  have hlt := hs.length_lt
  have hgood : (BufferNote.read buf.length i ((cstr (buf.drop i)).length + 1)).Good := by
    show i + _ ≤ buf.length
    rw [hs.cstr_drop]
    omega
  refine ⟨hgood, ?_⟩
  show Follows E (f (cstr (buf.drop i))) q
  rwa [hs.cstr_drop]

theorem follows_writeBytes {f : Bytes → BufferProc α} {b : Bytes}
    (hroom : i + b.length ≤ buf.length)
    (h : ∀ buf', store buf i b = some buf' → Follows E (f buf') q) :
    Follows E (writeBytes buf i b >>= f) q := by
  refine ⟨hroom, ?_⟩
  show Follows E (f ((store buf i b).getD buf)) q
  have hstore := store_of_le hroom
  rw [hstore]
  exact h _ hstore

theorem follows_copyString {f : Bytes → BufferProc α} {dest : Bytes} {j : Nat}
    (hs : HoldsString buf j s) (hn : s.length < n) (hroom : i + n ≤ dest.length)
    (h : ∀ dest', store dest i (s ++ List.replicate (n - s.length) 0) = some dest' →
      Follows E (f dest') q) : Follows E (copyString dest i buf j n >>= f) q := by
  have hlt := hs.length_lt
  have hgood : (BufferNote.read buf.length j (min ((cstr (buf.drop j)).length + 1) n)).Good := by
    show j + _ ≤ buf.length
    rw [hs.cstr_drop]
    omega
  have hlen : (s ++ List.replicate (n - s.length) (0 : UInt8)).length = n := by
    rw [List.length_append, List.length_replicate]
    omega
  refine ⟨hgood, hroom, ?_⟩
  show Follows E (f ((strncpy dest i (buf.drop j) n).getD dest)) q
  have hstore : store dest i (s ++ List.replicate (n - s.length) 0) = some _ :=
    store_of_le (by omega)
  rw [hs.strncpy_eq hn, hstore]
  exact h _ hstore

/-- `memmove` of a string with its NUL. -/
theorem follows_moveBytes {f : Bytes → BufferProc α} {j : Nat} (hs : HoldsString buf j s)
    (hroom : i + (s.length + 1) ≤ buf.length)
    (h : ∀ buf', buf'.length = buf.length → HoldsString buf' i s → Follows E (f buf') q) :
    Follows E (moveBytes buf i j (s.length + 1) >>= f) q := by
  have hlt := hs.length_lt
  have hgood : (BufferNote.read buf.length j (s.length + 1)).Good := by
    show j + _ ≤ buf.length
    omega
  have htake : (buf.drop j).take (s.length + 1) = s ++ [0] := by
    obtain ⟨rest, hrest⟩ := hs.drop
    rw [hrest, List.take_append, List.take_of_length_le (Nat.le_succ _), Nat.add_sub_cancel_left]
    rfl
  have hstore : store buf i (s ++ [0]) = some _ := store_of_le (by simpa using hroom)
  refine ⟨hgood, hroom, ?_⟩
  show Follows E (f ((store buf i ((buf.drop j).take (s.length + 1))).getD buf)) q
  rw [htake, hstore]
  exact h _ (length_store hstore) (.of_store hs.nul hstore)

theorem follows_format {f : Option Bytes → BufferProc α} {text : Bytes} (hfit : text.length < size)
    (hsize : size ≤ buf.length) (h0 : (0 : UInt8) ∉ text)
    (h : ∀ buf', buf'.length = buf.length → HoldsString buf' 0 text → Follows E (f (some buf')) q) :
    Follows E (format buf size text >>= f) q := by
  have hgood : (BufferNote.write buf.length 0 (min (text.length + 1) size)).Good := by
    show 0 + _ ≤ buf.length
    omega
  have hroom : 0 + (text ++ [0]).length ≤ buf.length := by
    rw [List.length_append, List.length_singleton]
    omega
  have hstore := store_of_le hroom
  have hsnprintf : snprintf buf 0 size text = store buf 0 (text ++ [0]) := by
    unfold snprintf
    rw [if_neg (by omega), List.take_of_length_le (by omega)]
  refine ⟨hfit, hgood, ?_⟩
  show Follows E ((if text.length ≥ size then return none
    else return some ((snprintf buf 0 size text).getD buf)) >>= f) q
  rw [if_neg (by omega), hsnprintf, hstore]
  exact h _ (length_store hstore) (.of_store h0 hstore)

theorem follows_strrchr {f : Option Nat → BufferProc α} {c : UInt8} (hs : HoldsString buf 0 s)
    (h : Follows E (f ((beforeLast c s).map List.length)) q) :
    Follows E (strrchr buf c >>= f) q := by
  show Follows E ((readString buf 0 >>= fun s => return (beforeLast c s).map List.length) >>= f) q
  rw [Prog.bind_assoc]
  exact follows_readString hs h

theorem follows_readInto (hn : n ≤ buf.length) :
    Follows (Option.Rel fun buf' data => data.length = n ∧ store buf 0 data = some buf')
      (readInto buf n) (readSock n) := by
  have hgood : (BufferNote.write buf.length 0 n).Good := by
    show 0 + n ≤ buf.length
    omega
  refine ⟨hgood, _, rfl, fun r hr => ?_⟩
  cases r with
  | none => exact Prog.tracks_ret .none
  | some data =>
    have hlen : data.length = n := hr data rfl
    have hstore : store buf 0 data = some _ := store_of_le (by omega)
    refine Prog.tracks_ret (.some ⟨hlen, ?_⟩)
    rw [hstore]
    rfl

/-! ### Candidates -/

/-- A buffer of `size` bytes with a name for the file `f` in the working directory. -/
structure Chosen (size : Nat) (f buf s : Bytes) : Prop where
  size : buf.length = size
  holds : HoldsString buf 0 s
  here : hereDir <+: s
  short : s.length ≤ f.length + 9

variable {env : Env} {f : Bytes}

theorem zero_not_mem_candidate (n : Nat) (h0 : (0 : UInt8) ∉ f) : (0 : UInt8) ∉ candidate n f := by
  intro h
  unfold candidate at h
  rw [List.mem_append, List.mem_append, List.mem_cons] at h
  rcases h with (h | h) | h | h
  · exact absurd h (by decide)
  · exact absurd (mem_decimal h).1 (by decide)
  · exact absurd h (by decide)
  · exact h0 h

theorem firstCandidate_spec (env : Env) (h0 : (0 : UInt8) ∉ f) :
    hereDir <+: firstCandidate env f ∧ (firstCandidate env f).length ≤ f.length + 4 ∧
      (0 : UInt8) ∉ firstCandidate env f := by
  have hdir : (0 : UInt8) ∉ hereDir := by decide
  have hlen : hereDir.length = 2 := rfl
  have hone : (ascii "1_").length = 2 := rfl
  unfold firstCandidate
  split
  · refine ⟨List.prefix_append _ _, ?_, fun h => ?_⟩
    · rw [List.length_append]
      omega
    · exact (List.mem_append.mp h).elim hdir h0
  · refine ⟨⟨_, (List.append_assoc _ _ _).symm⟩, ?_, fun h => ?_⟩
    · rw [List.length_append, List.length_append]
      omega
    · rcases List.mem_append.mp h with h | h
      · exact absurd h (by decide)
      · exact h0 h

/-- The loop over the candidates. -/
theorem freeName_follows {block tmp t : Bytes} (hf : HoldsString block 0 f)
    (hsize : f.length + 9 < n) (hn : n ≤ size) (left : Nat) (htmp : Chosen size f tmp t) :
    Follows (Option.Rel (Chosen size f)) (freeName n block left tmp)
      (ClipShare.freeName n f left t) := by
  induction left generalizing tmp t with
  | zero =>
    refine follows_readString htmp.holds ((Prog.tracks_lift _).bind ?_)
    rintro taken _ rfl
    cases taken with
    | true => exact Prog.tracks_ret .none
    | false => exact Prog.tracks_ret (.some htmp)
  | succ left ih =>
    refine follows_readString htmp.holds ((Prog.tracks_lift _).bind ?_)
    rintro taken _ rfl
    cases taken with
    | true =>
      have hlen : (candidate (1000000 - (left + 1)) f).length ≤ f.length + 9 :=
        length_candidate (by omega)
      have hfit : (candidate (1000000 - (left + 1)) f).length < n := by omega
      have h0 := zero_not_mem_candidate (1000000 - (left + 1)) hf.nul
      have hcheck := snprintfCheck_of_lt hfit
      refine follows_readString hf ?_
      refine follows_format hfit (by rw [htmp.size]; exact hn) h0 fun tmp' hsize' holds' => ?_
      rw [if_pos rfl, hcheck]
      exact ih ⟨hsize'.trans htmp.size, holds', ⟨_, (List.append_assoc _ _ _).symm⟩, hlen⟩
    | false => exact Prog.tracks_ret (.some htmp)

/-! ### The path for the clipboard -/

/-- The path is the working directory, a separator and the name in full. -/
theorem follows_clipboardPath {k : Bytes → BufferProc α} {junk : Nat → UInt8} (hcwd : Env.Cwd env)
    (hs : HoldsString buf i s) (hlen : s.length ≤ n) (h : Follows E (k (env.cwd ++ sep :: s)) q) :
    Follows E (clipboardPath junk env buf i n >>= k) q := by
  have hcwdLen : strnlen env.cwd maxFileNameLen = env.cwd.length :=
    strnlen_of_length_le hcwd.nul hcwd.short
  have hhere : HoldsString (env.cwd ++ [0]) 0 env.cwd := .of_not_mem hcwd.nul []
  unfold clipboardPath
  rw [hcwdLen]
  simp only [Prog.bind_assoc]
  refine follows_copyString hhere (by omega) (by rw [length_malloc]; omega) fun path1 h1 => ?_
  obtain ⟨free, rfl, hfree⟩ : ∃ free, path1 = env.cwd ++ 0 :: free ∧ free.length = n + 1 := by
    rw [Nat.add_sub_cancel_left] at h1
    refine ⟨(malloc junk (env.cwd.length + n + 2)).drop (env.cwd.length + 1), ?_, ?_⟩
    · have heq := store_eq_append (s := []) rfl h1
      rwa [List.nil_append, List.length_append, List.append_assoc] at heq
    · rw [List.length_drop, length_malloc]
      omega
  -- the separator takes the place of the NUL
  refine follows_writeBytes (by simp) fun path2 h2 => ?_
  obtain rfl : path2 = env.cwd ++ [sep] ++ free := store_eq_append rfl h2
  have hsepLen : (env.cwd ++ [sep]).length = env.cwd.length + 1 := List.length_append
  refine follows_copyString hs (by omega) ?_ fun path3 h3 => ?_
  · rw [List.length_append, hsepLen, hfree]
  have hpad : List.replicate (n + 1 - s.length) (0 : UInt8) =
      List.replicate (n - s.length) 0 ++ [0] := by
    rw [show n + 1 - s.length = n - s.length + 1 by omega, List.replicate_succ']
  obtain rfl : path3 = env.cwd ++ [sep] ++ (s ++ List.replicate (n - s.length) 0) ++ [0] := by
    rw [store_eq_append hsepLen h3, hpad, List.drop_of_length_le (by simp; omega)]
    simp
  -- the last NUL is there already
  refine follows_writeBytes (by simp; omega) fun path4 h4 => ?_
  have hlast : (env.cwd ++ [sep] ++ (s ++ List.replicate (n - s.length) 0)).length =
      env.cwd.length + n + 1 := by
    simp
    omega
  obtain rfl := store_eq_append hlast h4
  have h0 : (0 : UInt8) ∉ env.cwd ++ sep :: s := by
    rw [List.mem_append, List.mem_cons, not_or, not_or]
    exact ⟨hcwd.nul, by decide, hs.nul⟩
  have hpath := HoldsString.of_padded h0 (n - s.length) []
  refine follows_readString ?_ h
  simpa using hpath

/-! ### Files in version 1 -/

theorem renameIfExists_follows {junk : Nat → UInt8} (hf : HoldsString buf 0 f)
    (hsize : buf.length = n + 1) (hshort : f.length + 9 < n) :
    Follows (Option.Rel (Chosen (n + 1) f)) (renameIfExists junk env buf n)
      (ClipShare.renameIfExists env f n) := by
  obtain ⟨hhere, hlen, h0⟩ := firstCandidate_spec env hf.nul
  have hfit : (firstCandidate env f).length < n := by omega
  unfold renameIfExists ClipShare.renameIfExists
  rw [snprintfCheck_of_lt hfit]
  refine follows_readString hf ?_
  refine follows_format hfit (by rw [length_malloc]; omega) h0 fun tmp htmp holds => ?_
  have hchosen : Chosen (n + 1) f tmp (firstCandidate env f) :=
    ⟨htmp.trans (length_malloc _ _), holds, hhere, by omega⟩
  refine (freeName_follows hf hshort (Nat.le_succ n) 999999 hchosen).bind_left ?_
  rintro _ _ (⟨hnew⟩ | _)
  · rename_i tmp s
    -- the name is copied back, with NULs up to the end of the buffer
    have hs : s.length < n := by
      have := hnew.short
      omega
    refine follows_copyString hnew.holds hs (by omega) fun buf1 h1 => ?_
    have hlen1 : (s ++ List.replicate (n - s.length) (0 : UInt8)).length = n := by
      rw [List.length_append, List.length_replicate]
      omega
    obtain rfl : buf1 = s ++ List.replicate (n - s.length) 0 ++ buf.drop n := by
      have heq := store_eq_append (s := []) rfl h1
      rwa [List.nil_append, hlen1] at heq
    refine follows_writeBytes (by simp; omega) fun buf2 h2 => ?_
    have hsize2 := length_store h2
    obtain rfl := store_eq_append hlen1 h2
    refine Prog.tracks_ret (.some ⟨?_, ?_, hnew.here, hnew.short⟩)
    · rw [hsize2, List.length_append, hlen1, List.length_drop]
      omega
    · rw [List.append_assoc _ [0]]
      exact .of_padded hnew.holds.nul _ _
  · exact Prog.tracks_ret .none

/-! ### Receiving a name -/

theorem follows_isValidFname {k : Bool → BufferProc α} {data rest : Bytes} (hn : data.length = n)
    (h : Follows E (k (ClipShare.isValidFname data)) q) :
    Follows E (isValidFname (data ++ 0 :: rest) n >>= k) q := by
  have hgood : (BufferNote.read (data ++ 0 :: rest).length 0 n).Good := by
    show 0 + n ≤ _
    rw [List.length_append]
    omega
  unfold isValidFname
  rw [List.take_left' hn, Prog.bind_assoc]
  refine Prog.tracks_note hgood ?_
  rw [Prog.bind_assoc]
  exact follows_readString (.of_append data rest) h

/-- `_get_base_name` moves the base name to the front of the buffer. -/
theorem follows_getBaseName {k : Bytes → BufferProc α} (hs : HoldsString buf 0 s)
    (hn : s.length ≤ n) (h : ∀ buf', buf'.length = buf.length →
      HoldsString buf' 0 (ClipShare.getBaseName s) → Follows E (k buf') q) :
    Follows E (getBaseName buf n >>= k) q := by
  unfold getBaseName
  rw [Prog.bind_assoc]
  refine follows_strrchr hs ?_
  unfold ClipShare.getBaseName at h
  by_cases hmem : sep ∈ s
  · obtain ⟨t, u, rfl, hu⟩ := exists_last hmem
    rw [afterLast_append t u hu] at h
    have hlen : (t ++ sep :: u).length = t.length + u.length + 1 := by
      rw [List.length_append, List.length_cons]
      omega
    have hbase : HoldsString buf (t.length + 1) u := by
      have hdrop := hs.drop_add (k := t.length + 1) (by omega)
      simpa using hdrop
    have hend := hbase.length_lt
    have hgood : (BufferNote.read buf.length (t.length + 1)
        (min ((cstr (buf.drop (t.length + 1))).length + 1) n)).Good := by
      show t.length + 1 + _ ≤ buf.length
      rw [hbase.cstr_drop]
      omega
    rw [beforeLast_append t u hu]
    refine ⟨hgood, ?_⟩
    show Follows E
      (moveBytes buf 0 (t.length + 1) (strnlen (buf.drop (t.length + 1)) n + 1) >>= k) q
    rw [hbase.strnlen_eq (by omega)]
    exact follows_moveBytes hbase (by omega) h
  · have hbefore : beforeLast sep s = none := if_neg hmem
    rw [afterLast_of_not_mem hmem] at h
    rw [hbefore]
    exact h buf rfl hs

/-- The buffer after a name of `n` bytes was received: the name, a NUL, and what was there. -/
theorem follows_received {k : Bytes → BufferProc α} {block data : Bytes} (hn : data.length = n)
    (hstore : store buf 0 data = some block) (hroom : n < buf.length)
    (h : ∀ rest, data.length + 1 + rest.length = buf.length → Follows E (k (data ++ 0 :: rest)) q) :
    Follows E (writeBytes block n [0] >>= k) q := by
  have hsize := length_store hstore
  obtain rfl : block = data ++ buf.drop data.length := store_eq_append (s := []) rfl hstore
  refine follows_writeBytes (by rw [hsize]; exact hroom) fun block' hstore' => ?_
  obtain rfl : block' = data ++ [0] ++ (buf.drop data.length).drop 1 := store_eq_append hn hstore'
  rw [List.append_assoc]
  refine h ((buf.drop data.length).drop 1) ?_
  rw [List.length_drop, List.length_drop]
  omega

/-- The second half of `send_file_v1`. -/
theorem storeFile_follows (junk : Nat → Nat → UInt8) (hcwd : Env.Cwd env) (hf : HoldsString buf 0 f)
    (hsize : buf.length = n + 1) (hshort : f.length + 9 < n) :
    Follows Eq (storeFile junk env buf n) (ClipShare.storeFile env f n) := by
  refine (renameIfExists_follows hf hsize hshort).bind ?_
  rintro _ _ (⟨hnew⟩ | _)
  · rename_i buf' s
    refine follows_readString hnew.holds ((Prog.tracks_lift _).bind ?_)
    rintro status _ rfl
    cases status with
    | failure => exact Prog.tracks_ret rfl
    | success =>
      refine (Prog.tracks_lift closeSocketNoWait).bind ?_
      rintro _ _ -
      unfold cutSentFiles
      by_cases hcut : env.configuration.cutSentFiles ≠ 0
      · have hlen := hnew.short
        rw [if_pos hcut, if_pos hcut]
        refine follows_clipboardPath hcwd hnew.holds (by omega) (Prog.tracks_note rfl ?_)
        refine (Prog.tracks_lift _).bind ?_
        rintro cut _ rfl
        exact Prog.tracks_ret rfl
      · rw [if_neg hcut, if_neg hcut]
        exact Prog.tracks_ret rfl
  · exact Prog.tracks_ret rfl

/-- **`send_file_v1`** stays inside its buffers. -/
theorem sendFileV1_follows (junk : Nat → Nat → UInt8) (hcwd : Env.Cwd env) :
    Follows Eq (sendFileV1 junk env) (ClipShare.sendFileV1 env) := by
  refine (Prog.tracks_lift _).bind ?_
  rintro ok _ rfl
  cases ok with
  | false => exact Prog.tracks_ret rfl
  | true =>
    refine (Prog.tracks_lift readSize).bind ?_
    rintro nameLength _ rfl
    cases nameLength with
    | none => exact Prog.tracks_ret rfl
    | some nameLength =>
      show Follows Eq (if nameLength ≤ 0 ∨ nameLength > maxFileNameLen then _ else _)
        (if nameLength ≤ 0 ∨ nameLength > maxFileNameLen then _ else _)
      by_cases hrange : nameLength ≤ 0 ∨ nameLength > maxFileNameLen
      · rw [if_pos hrange, if_pos hrange]
        exact Prog.tracks_ret rfl
      rw [if_neg hrange, if_neg hrange]
      obtain ⟨n, hn⟩ : ∃ n, nameLength.toNat = n := ⟨_, rfl⟩
      rw [hn]
      by_cases hmax : n + 16 > maxFileNameLen
      · rw [if_pos hmax, if_pos hmax]
        refine (Prog.tracks_lift _).bind ?_
        rintro _ _ -
        exact Prog.tracks_ret rfl
      rw [if_neg hmax, if_neg hmax]
      refine (follows_readInto (by rw [length_malloc]; omega)).bind ?_
      rintro _ _ (⟨hlen, hstore⟩ | _)
      · rename_i block data
        show Follows Eq _ (if !ClipShare.isValidFname data then return .failure
          else if sep ∈ ClipShare.getBaseName (cstr data) then return .failure
          else ClipShare.storeFile env (ClipShare.getBaseName (cstr data)) (n + 16))
        refine follows_received hlen hstore (by rw [length_malloc]; omega) fun rest hrest => ?_
        rw [length_malloc] at hrest
        refine follows_isValidFname hlen ?_
        cases ClipShare.isValidFname data with
        | false => exact Prog.tracks_ret rfl
        | true =>
          have hs := HoldsString.of_append data rest
          have hle := cstr_length_le data
          refine follows_getBaseName hs (by omega) fun buf hsize hbase => ?_
          refine follows_readString hbase ?_
          rw [if_neg (show ¬ (!true) = true by decide)]
          by_cases hsep : sep ∈ ClipShare.getBaseName (cstr data)
          · rw [if_pos hsep, if_pos hsep]
            exact Prog.tracks_ret rfl
          · rw [if_neg hsep, if_neg hsep]
            refine storeFile_follows junk hcwd hbase ?_ ?_
            · rw [hsize, List.length_append, List.length_cons]
              omega
            · have hbaseLe : (ClipShare.getBaseName (cstr data)).length ≤ (cstr data).length :=
                (List.rtakeWhile_suffix _ _).length_le
              omega
      · exact Prog.tracks_ret rfl

/-! ### Directories of files -/

/-- `_make_directories` cuts the path and mends it. -/
theorem makeDirectories_follows (hs : HoldsString buf 0 s) :
    Follows (fun r status => r.1 = status ∧ HoldsString r.2 0 s) (makeDirectories buf)
      (ClipShare.makeDirectories s) := by
  unfold makeDirectories ClipShare.makeDirectories
  refine follows_strrchr hs ?_
  by_cases hmem : sep ∈ s
  · obtain ⟨t, u, rfl, hu⟩ := exists_last hmem
    rw [beforeLast_append t u hu]
    obtain ⟨rest, hrest⟩ := hs.drop
    obtain rfl : buf = t ++ sep :: (u ++ 0 :: rest) := by simpa using hrest
    have ht : (0 : UInt8) ∉ t := fun h0 => hs.nul (List.mem_append_left _ h0)
    refine follows_writeBytes (by simp) fun buf1 h1 => ?_
    obtain rfl : buf1 = t ++ [0] ++ (u ++ 0 :: rest) := store_eq_append rfl h1
    have hcut := HoldsString.of_not_mem ht (u ++ 0 :: rest)
    refine follows_readString (s := t) (by simpa using hcut) ?_
    refine (Prog.tracks_lift (mkdirs t)).bind_left ?_
    rintro status _ rfl
    refine follows_writeBytes (by simp) fun buf2 h2 => ?_
    rw [List.append_assoc] at h2
    obtain rfl : buf2 = t ++ [sep] ++ (u ++ 0 :: rest) := store_eq_append rfl h2
    exact Prog.tracks_ret ⟨rfl, hs.nul, rest, by simp⟩
  · rw [show beforeLast sep s = none from if_neg hmem]
    exact Prog.tracks_ret ⟨rfl, hs⟩

/-- The name without the separator at its end. -/
def trimmedName (fileName : Bytes) : Bytes :=
  cstr (if fileName.getLast? = some sep then fileName.dropLast else fileName)

theorem follows_dropSeparator {k : Bytes → BufferProc α} {data rest : Bytes} (hne : data ≠ [])
    (h : ∀ buf', buf'.length = (data ++ 0 :: rest).length → HoldsString buf' 0 (trimmedName data) →
      Follows E (k buf') q) :
    Follows E (dropSeparator (data ++ 0 :: rest) data.length >>= k) q := by
  obtain ⟨u, c, rfl⟩ := (List.eq_nil_or_concat data).resolve_left hne
  rw [List.concat_eq_append] at h ⊢
  have hlast : (u ++ [c]).length - 1 = u.length := by simp
  have hgood : (BufferNote.read (u ++ [c] ++ 0 :: rest).length u.length 1).Good := by
    show u.length + 1 ≤ _
    simp
  have hbyte : (u ++ [c] ++ 0 :: rest).getD u.length 0 = c := by simp
  unfold trimmedName at h
  rw [List.getLast?_concat, List.dropLast_concat] at h
  unfold dropSeparator
  rw [hlast, hbyte]
  refine ⟨hgood, ?_⟩
  by_cases hc : c = sep
  · rw [if_pos (congrArg some hc)] at h
    show Follows E ((if c = sep then _ else _) >>= k) q
    rw [if_pos hc]
    refine follows_writeBytes (by simp) fun buf' hstore => ?_
    have hsize := length_store hstore
    rw [List.append_assoc] at hstore
    obtain rfl : buf' = u ++ [0] ++ (0 :: rest) := store_eq_append rfl hstore
    refine h _ hsize ?_
    rw [List.append_assoc]
    exact .of_append u (0 :: rest)
  · rw [if_neg fun h0 => hc (Option.some.inj h0)] at h
    show Follows E ((if c = sep then _ else _) >>= k) q
    rw [if_neg hc]
    exact h _ rfl (.of_append (u ++ [c]) rest)

/-- The directory of an upload. -/
theorem tempName_spec (id : UInt32) : (tempName id).length ≤ 10 ∧ (0 : UInt8) ∉ tempName id := by
  have hdir : hereDir.length = 2 := rfl
  have hlen := length_hex_le id
  unfold tempName
  rw [List.length_append]
  refine ⟨by omega, fun h0 => ?_⟩
  rcases List.mem_append.mp h0 with h0 | h0
  · exact absurd h0 (by decide)
  · rcases mem_hex h0 with ⟨h1, -⟩ | ⟨h1, -⟩ <;> exact absurd h1 (by decide)

/-- The first byte of a buffer is the first one of its string, or the NUL. -/
theorem getD_zero_eq_sep_iff (hs : HoldsString buf 0 s) :
    buf.getD 0 0 = sep ↔ s.head? = some sep := by
  obtain ⟨rest, hrest⟩ := hs.drop
  rw [List.drop_zero] at hrest
  rw [hrest]
  cases s with
  | nil => simp [sep]
  | cons c s => simp

/-- The path of an upload fits, whatever the name and the number of the directory. -/
theorem follows_uploadPath {k : Option Bytes → BufferProc α} {junk : Nat → UInt8} (id : UInt32)
    {data : Bytes} (hs : HoldsString buf 0 (trimmedName data)) (hn : data.length = n)
    (h : ∀ buf' path, ClipShare.uploadPath (tempName id) data = some path →
      HoldsString buf' 0 path → Follows E (k (some buf')) q) :
    Follows E (uploadPath junk (tempName id) buf n >>= k) q := by
  obtain ⟨hdirLen, hdir0⟩ := tempName_spec id
  have hlt := hs.length_lt
  have hgood : (BufferNote.read buf.length 0 1).Good := by
    show 0 + 1 ≤ buf.length
    omega
  have hname : (trimmedName data).length ≤ n := by
    refine (cstr_length_le _).trans ?_
    split
    · rw [List.length_dropLast]
      omega
    · omega
  obtain ⟨text, htext⟩ : ∃ text, (if buf.getD 0 0 = sep then tempName id ++ trimmedName data
      else tempName id ++ sep :: trimmedName data) = text := ⟨_, rfl⟩
  have hfit : text.length < n + 20 := by
    rw [← htext]
    split
    · rw [List.length_append]
      omega
    · rw [List.length_append, List.length_cons]
      omega
  have h0 : (0 : UInt8) ∉ text := by
    rw [← htext]
    split
    · exact fun h0 => (List.mem_append.mp h0).elim hdir0 hs.nul
    · rw [List.mem_append, List.mem_cons, not_or, not_or]
      exact ⟨hdir0, by decide, hs.nul⟩
  have hpath : ClipShare.uploadPath (tempName id) data = some text := by
    simp only [getD_zero_eq_sep_iff hs] at htext
    rw [← snprintfCheck_of_lt hfit, ← htext, ← hn]
    rfl
  unfold uploadPath
  rw [Prog.bind_assoc]
  refine Prog.tracks_note hgood ?_
  rw [Prog.bind_assoc]
  refine follows_readString hs ?_
  rw [htext]
  exact follows_format hfit (by rw [length_malloc]) h0 fun buf' _ holds => h buf' text hpath holds

/-- The end of `save_file`. -/
theorem saveNewFile_follows (version : Nat) (hs : HoldsString buf 0 s) :
    Follows Eq (saveNewFile env version buf) (ClipShare.saveNewFile env version s) := by
  refine (makeDirectories_follows hs).bind ?_
  rintro ⟨status, path⟩ _ ⟨rfl, hpath⟩
  cases status with
  | failure => exact Prog.tracks_ret rfl
  | success =>
    refine follows_readString hpath ((Prog.tracks_lift _).bind ?_)
    rintro taken _ rfl
    cases taken with
    | true => exact Prog.tracks_ret rfl
    | false => exact Prog.tracks_lift _

/-- **`save_file`** stays inside its buffers. -/
theorem saveFile_follows (junk : Nat → Nat → UInt8) (version : Nat) (id : UInt32) :
    Follows Eq (saveFile junk env version (tempName id))
      (ClipShare.saveFile env version (tempName id)) := by
  refine (Prog.tracks_lift readSize).bind ?_
  rintro fnameSize _ rfl
  cases fnameSize with
  | none => exact Prog.tracks_ret rfl
  | some fnameSize =>
    show Follows Eq (if fnameSize ≤ 0 ∨ fnameSize > maxFileNameLen then _ else _)
      (if fnameSize ≤ 0 ∨ fnameSize > maxFileNameLen then _ else _)
    by_cases hrange : fnameSize ≤ 0 ∨ fnameSize > maxFileNameLen
    · rw [if_pos hrange, if_pos hrange]
      exact Prog.tracks_ret rfl
    rw [if_neg hrange, if_neg hrange]
    obtain ⟨n, hn⟩ : ∃ n, fnameSize.toNat = n := ⟨_, rfl⟩
    rw [hn]
    refine (follows_readInto (by rw [length_malloc]; omega)).bind ?_
    rintro _ _ (⟨hlen, hstore⟩ | _)
    · rename_i block data
      have hne : data ≠ [] := by
        rintro rfl
        rw [List.length_nil] at hlen
        omega
      dsimp only
      refine follows_received hlen hstore (by rw [length_malloc]; omega) fun rest _ => ?_
      refine follows_isValidFname hlen ?_
      cases ClipShare.isValidFname data with
      | false => exact Prog.tracks_ret rfl
      | true =>
        rw [← hlen]
        refine follows_dropSeparator hne fun buf' _ hname => ?_
        refine follows_uploadPath id hname rfl fun path s hpath hs => ?_
        rw [hpath]
        refine follows_readString hs ?_
        show Follows Eq _ (if badPath <:+: s then _ else _)
        by_cases hbad : badPath <:+: s
        · rw [if_pos hbad, if_pos hbad]
          exact Prog.tracks_ret rfl
        · rw [if_neg hbad, if_neg hbad]
          exact saveNewFile_follows version hs
    · exact Prog.tracks_ret rfl

/-- The length that `_check_and_rename` measures, and whether it is too large. -/
theorem strnlen_filename {filename : Bytes} (h0 : (0 : UInt8) ∉ filename) (n : Nat) :
    (n < strnlen (filename ++ [0]) (n + 1) ↔ n < filename.length) ∧
      (filename.length ≤ n → strnlen (filename ++ [0]) (n + 1) = filename.length) := by
  have hs : HoldsString (filename ++ [0]) 0 filename := .of_not_mem h0 []
  by_cases hlen : filename.length ≤ n
  · have heq : strnlen (filename ++ [0]) (n + 1) = filename.length := hs.strnlen_eq (by omega)
    exact ⟨by rw [heq], fun _ => heq⟩
  · have htake : (filename ++ [0]).take (n + 1) = filename.take (n + 1) :=
      List.take_append_of_le_length (by omega)
    have heq : strnlen (filename ++ [0]) (n + 1) = n + 1 := by
      unfold strnlen
      rw [htake, cstr_of_not_mem fun h => h0 (List.mem_of_mem_take h), List.length_take]
      omega
    exact ⟨iff_of_true (by omega) (by omega), fun h => absurd h hlen⟩

/-- **`_check_and_rename`** stays inside its buffers. -/
theorem checkAndRename_follows (junk : Nat → Nat → UInt8) (hcwd : Env.Cwd env) {filename : Bytes}
    (h0 : (0 : UInt8) ∉ filename) (id : UInt32) :
    Follows Eq (checkAndRename junk env filename (tempName id))
      (ClipShare.checkAndRename env filename (tempName id)) := by
  have hs : HoldsString (filename ++ [0]) 0 filename := .of_not_mem h0 []
  have hcstr : cstr (filename ++ [0]) = filename := hs.cstr_drop
  have hgood : (BufferNote.read (filename ++ [0]).length 0
      (min ((cstr (filename ++ [0])).length + 1) (maxFileNameLen + 1))).Good := by
    show 0 + _ ≤ (filename ++ [0]).length
    rw [hcstr, List.length_append, List.length_singleton]
    omega
  obtain ⟨hlong, hshort⟩ := strnlen_filename h0 maxFileNameLen
  obtain ⟨hdirLen, hdir0⟩ := tempName_spec id
  refine Prog.tracks_note hgood ?_
  unfold ClipShare.checkAndRename
  by_cases hmax : filename.length > maxFileNameLen
  · rw [if_pos (hlong.mpr hmax), if_pos hmax]
    refine (Prog.tracks_lift _).bind ?_
    rintro _ _ -
    exact Prog.tracks_ret rfl
  rw [if_neg (hlong.not.mpr hmax), if_neg hmax, hshort (not_lt.mp hmax)]
  have hfitOld : (tempName id ++ sep :: filename).length < filename.length + 20 := by
    rw [List.length_append, List.length_cons]
    omega
  have hnulOld : (0 : UInt8) ∉ tempName id ++ sep :: filename := by
    rw [List.mem_append, List.mem_cons, not_or, not_or]
    exact ⟨hdir0, by decide, h0⟩
  obtain ⟨hhere, hlen, hnul⟩ := firstCandidate_spec env h0
  have hfit : (firstCandidate env filename).length < filename.length + 20 := by omega
  dsimp only
  rw [snprintfCheck_of_lt hfitOld, snprintfCheck_of_lt hfit]
  refine follows_readString hs ?_
  refine follows_format hfitOld (by rw [length_malloc]) hnulOld fun oldPath _ hold => ?_
  refine follows_format hfit (by rw [length_malloc]) hnul fun newPath hsize hnew => ?_
  have hchosen : Chosen (filename.length + 20) filename newPath (firstCandidate env filename) :=
    ⟨hsize.trans (length_malloc _ _), hnew, hhere, by omega⟩
  refine (freeName_follows hs (by omega) le_rfl 999999 hchosen).bind ?_
  rintro _ _ (⟨hnew⟩ | _)
  · rename_i newPath s
    refine follows_readString hold (follows_readString hnew.holds ((Prog.tracks_lift _).bind ?_))
    rintro moved _ rfl
    cases moved with
    | false => exact Prog.tracks_ret rfl
    | true =>
      have htwo : 2 ≤ s.length := hnew.here.length_le
      have hname := hnew.holds.drop_add htwo
      have hlen := hnew.short
      refine follows_clipboardPath hcwd hname ?_ (Prog.tracks_note rfl (Prog.tracks_ret rfl))
      rw [List.length_drop]
      omega
  · exact Prog.tracks_ret rfl

end Buffered

/-! ### Every run -/

/-- A program on buffers runs like `q`, on every machine that answers like a session's
    surroundings, and all notes that it makes are good. -/
def Suffices {α : Type} (p : BufferProc α) (q : Proc α) : Prop :=
  ∀ (σ : Type) (m : Machine Calls σ), (∀ (c : Call) s, c.Answers (m c s).1) → ∀ s,
    ∃ made, (∀ n ∈ made, BufferNote.Good n) ∧
      p.run (noting m) (s, []) = ((q.run m s).1, (q.run m s).2, made)

theorem Follows.suffices {α : Type} {p : BufferProc α} {q : Proc α} (h : Follows Eq p q) :
    Suffices p q := fun _ _ hm s => h.run hm s []

/-- The surroundings of a session answer so. -/
theorem respond_answers (c : Call) (s : Session × Host) : c.Answers (respond c s).1 := by
  cases c with
  | readSock n =>
    obtain ⟨l, h⟩ := s
    intro data hdata
    rw [respond_readSock] at hdata
    unfold Session.readSock at hdata
    split_ifs at hdata with h0 hfail hshort
    · cases hdata
      exact h0.symm
    · cases hdata
      exact List.length_take_of_le (not_lt.mp hshort)
  | _ => trivial

/-- **The buffers are large enough.**  In every run of `send_file_v1`, of `save_file` and of
    `_check_and_rename` the reads and writes stay inside the buffers, no text is cut, and the path
    for the clipboard is the working directory, a separator and the name in full; otherwise the run
    is that of the program without buffers. -/
theorem nameBuffers_suffice {env : Env} (hcwd : Env.Cwd env) (junk : Nat → Nat → UInt8) :
    Suffices (Buffered.sendFileV1 junk env) (sendFileV1 env) ∧
    (∀ (version : Nat) (id : UInt32), Suffices (Buffered.saveFile junk env version (tempName id))
      (saveFile env version (tempName id))) ∧
    ∀ (filename : Bytes) (id : UInt32), (0 : UInt8) ∉ filename →
      Suffices (Buffered.checkAndRename junk env filename (tempName id))
        (checkAndRename env filename (tempName id)) :=
  ⟨(Buffered.sendFileV1_follows junk hcwd).suffices,
    fun version id => (Buffered.saveFile_follows junk version id).suffices,
    fun _ id h0 => (Buffered.checkAndRename_follows junk hcwd h0 id).suffices⟩

/-- What a client of version 1 sends to upload `a.txt` with one byte in it. -/
def sentText : Session :=
  .fresh (sizeBytes 8 5 ++ ascii "a.txt" ++ sizeBytes 8 1 ++ ascii "x") .calm

/-- The host after the first upload. -/
def withText : Host := ((sendFileV1 .default).run respond (sentText, .empty)).2.2

/-- `nameBuffers_suffice` for a name that is taken: the file becomes `1_a.txt`. -/
theorem nameBuffers_suffice_taken :
    (((sendFileV1 .default).run respond (sentText, withText)).2.2.fs.node
      [ascii "1_a.txt"]).isSome = true ∧
    ∃ made, (∀ n ∈ made, BufferNote.Good n) ∧
      (Buffered.sendFileV1 (fun _ _ => 0xaa) .default).run (noting respond)
          ((sentText, withText), []) =
        (((sendFileV1 .default).run respond (sentText, withText)).1,
          ((sendFileV1 .default).run respond (sentText, withText)).2, made) :=
  ⟨by decide +kernel, (nameBuffers_suffice ⟨by decide, by decide⟩ fun _ _ => 0xaa).1 _ respond
    respond_answers _⟩

end ClipShare
