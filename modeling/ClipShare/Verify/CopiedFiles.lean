import ClipShare.Verify.Url
import ClipShare.Verify.Walk

namespace ClipShare

open Interaction Posix Prog

/-!
# The lines of the copied files

`get_copied_files` decodes the lines of its text in place, and goes on by at most 2049 bytes for
each.  A longer line makes it go on inside of that line.

* `urlPaths` — the paths in the lines up to the first one that is no URL of a path;
* `urlDecode_ended` / `drop_overwrite_of_lt` — a line is decoded on its own;
* `walkedPaths` — the paths that the loop comes to;
* `GoesOn` — where the loop goes on after it has left the lines, there is no URL;
* `copiedFilesLoop_yields` — the loop lists the regular files among them;
* `copiedFiles_honoured` — when every line is honoured.
-/

/-- The path in a line: the line is a file URL that goes on after the scheme. -/
def urlPath (line : Bytes) : Option Bytes :=
  if line = fileScheme then none else (urlDecode line).map cstr

/-- The paths in the lines, up to the first line that has none. -/
def urlPaths : List Bytes → List Bytes
  | [] => []
  | line :: lines => match urlPath line with
    | none => []
    | some path => path :: urlPaths lines

/-- The regular files among some paths. -/
def regularFiles (h : Host) (paths : List Bytes) : List Bytes :=
  paths.filter fun path => statAt h path = some .regular

/-! ### Decoding one line -/

section Line

variable {line s t : Bytes}

/-- What a string without NULs begins with, if a NUL or nothing follows it. -/
theorem prefix_append_ended {p : Bytes} (hp : (0 : UInt8) ∉ p) (ht : Ended t) :
    p <+: s ++ t ↔ p <+: s := by
  refine ⟨fun h => ?_, fun h => h.trans (List.prefix_append ..)⟩
  rcases List.prefix_or_prefix_of_prefix h (List.prefix_append s t) with h' | ⟨q, rfl⟩
  · exact h'
  · -- the prefix goes on into what follows
    have hq : q <+: t := (List.prefix_append_right_inj s).mp h
    cases q with
    | nil => simp
    | cons c q =>
      obtain ⟨r, rfl⟩ := hq
      have hc : c = 0 := ht c rfl
      exact absurd (by rw [hc]; simp) hp

theorem zero_not_mem_fileScheme : (0 : UInt8) ∉ fileScheme := by decide

/-- **Step lemma.**  The first code of a string is not valid, or it stands for one byte; what
    follows the string does not matter for it. -/
theorem urlDecodeLoop_step (hne : line ≠ []) (hnul : (0 : UInt8) ∉ line) :
    (∀ t, Ended t → urlDecodeLoop (line ++ t) = none) ∨
    ∃ c k, 0 < k ∧ k ≤ line.length ∧ ∀ t, Ended t → urlDecodeLoop (line ++ t) =
      if line.drop k = [] then some [c] else (urlDecodeLoop (line.drop k ++ t)).map (c :: ·) := by
  obtain ⟨b, line, rfl⟩ := List.exists_cons_of_ne_nil hne
  -- a code is `%` and two digits, and may come to the end of the string before them
  by_cases hb : b = 0x25
  · subst hb
    cases line with
    | nil =>
      refine .inl fun t ht => ?_
      cases t with
      | nil => rfl
      | cons c t =>
        obtain rfl := ht c rfl
        cases t <;> rfl
    | cons d line =>
      cases line with
      | nil =>
        refine .inl fun t ht => ?_
        cases t with
        | nil => rfl
        | cons c t =>
          obtain rfl := ht c rfl
          cases hd : hex2char d <;> simp [urlDecodeLoop, hd, hex2char_zero]
      | cons e line =>
        cases hd : hex2char d with
        | none => exact .inl fun t _ => by simp [urlDecodeLoop, hd]
        | some c1 =>
          cases he : hex2char e with
          | none => exact .inl fun t _ => by simp [urlDecodeLoop, hd, he]
          | some c2 =>
            refine .inr ⟨c1 * 16 + c2, 3, by omega, by simp, fun t ht => ?_⟩
            cases line with
            | nil =>
              cases t with
              | nil => simp [urlDecodeLoop, hd, he]
              | cons c t => simp [urlDecodeLoop, hd, he, ht c rfl]
            | cons f line =>
              have hf : f ≠ 0 := fun h => hnul (by rw [h]; simp)
              simp [urlDecodeLoop, hd, he, hf]
  · -- every other byte stands for itself
    refine .inr ⟨b, 1, by omega, by simp, fun t ht => ?_⟩
    cases line with
    | nil =>
      cases t with
      | nil => simp [urlDecodeLoop, hb]
      | cons c t => simp [urlDecodeLoop_plain hb, ht c rfl]
    | cons d line =>
      have hd : d ≠ 0 := fun h => hnul (by rw [h]; simp)
      simp [urlDecodeLoop_plain hb, hd]

/-- What follows the string does not change what is decoded, and that is not more than the
    string. -/
theorem urlDecodeLoop_ended (hne : line ≠ []) (hnul : (0 : UInt8) ∉ line) (ht : Ended t) :
    urlDecodeLoop (line ++ t) = urlDecodeLoop line ∧
      ∀ d ∈ urlDecodeLoop line, d.length ≤ line.length := by
  obtain ⟨n, hn⟩ : ∃ n, line.length = n := ⟨_, rfl⟩
  induction n using Nat.strongRecOn generalizing line with
  | ind n ih =>
    rcases urlDecodeLoop_step hne hnul with hnone | ⟨c, k, hk, hle, hstep⟩
    · have hself := hnone [] ended_nil
      rw [List.append_nil] at hself
      rw [hnone t ht, hself]
      exact ⟨rfl, fun d hd => absurd hd (Option.not_mem_none d)⟩
    · have hself := hstep [] ended_nil
      rw [List.append_nil, List.append_nil] at hself
      rw [hstep t ht, hself]
      by_cases hend : line.drop k = []
      · rw [if_pos hend, if_pos hend]
        refine ⟨rfl, fun d hd => ?_⟩
        rw [← Option.some.inj (Option.mem_def.mp hd), List.length_singleton]
        omega
      · have hdrop : (line.drop k).length = line.length - k := List.length_drop
        obtain ⟨hsame, hlen⟩ := ih _ (by omega) hend (fun h => hnul (List.mem_of_mem_drop h)) hdrop
        rw [if_neg hend, if_neg hend, hsame]
        refine ⟨rfl, fun d hd => ?_⟩
        obtain ⟨d', hd', rfl⟩ := Option.map_eq_some_iff.mp (Option.mem_def.mp hd)
        have := hlen d' hd'
        rw [List.length_cons]
        omega

/-- Bytes that are no escapes are all decoded. -/
theorem length_le_of_urlDecodeLoop {p r d : Bytes} (hp : ∀ c ∈ p, c ≠ 0x25 ∧ c ≠ 0)
    (h : urlDecodeLoop (p ++ r) = some d) : p.length ≤ d.length := by
  induction p generalizing d with
  | nil => exact Nat.zero_le _
  | cons c p ih =>
    have hc := (hp c List.mem_cons_self).1
    cases hpr : p ++ r with
    | nil =>
      rw [List.cons_append, hpr, urlDecodeLoop, if_neg hc] at h
      obtain ⟨rfl, -⟩ := List.append_eq_nil_iff.mp hpr
      rw [← Option.some.inj h]
    | cons e t =>
      rw [List.cons_append, hpr, urlDecodeLoop_plain hc] at h
      by_cases he : e = 0
      · rw [if_pos he] at h
        -- the string can only end behind `p`
        cases p with
        | nil => rw [← Option.some.inj h]
        | cons e' p =>
          obtain rfl := (List.cons.inj hpr).1
          exact absurd he (hp e' (by simp)).2
      · rw [if_neg he] at h
        obtain ⟨d', hd', rfl⟩ := Option.map_eq_some_iff.mp h
        rw [List.length_cons, List.length_cons]
        have := ih (fun c hc => hp c (List.mem_cons_of_mem _ hc)) (hpr ▸ hd')
        omega

/-- A line that goes on after the scheme is decoded on its own, and gets shorter. -/
theorem urlDecode_ended (hline : line ≠ fileScheme) (hnul : (0 : UInt8) ∉ line) (ht : Ended t) :
    urlDecode (line ++ t) = urlDecode line ∧ ∀ s ∈ urlDecode line, s.length + 7 ≤ line.length := by
  unfold urlDecode
  by_cases hscheme : fileScheme <+: line
  · rw [if_pos hscheme, if_pos (hscheme.trans (List.prefix_append ..))]
    obtain ⟨rest, rfl⟩ := hscheme
    have hrest : rest ≠ [] := fun h => hline (by rw [h, List.append_nil])
    have hseven : fileScheme.length = 7 := rfl
    rw [List.append_assoc, List.drop_left, List.drop_left]
    obtain ⟨hsame, hlen⟩ := urlDecodeLoop_ended hrest
      (fun h => hnul (List.mem_append_right _ h)) ht
    refine ⟨hsame, fun s hs => ?_⟩
    have := hlen s hs
    rw [List.length_append]
    omega
  · rw [if_neg hscheme, if_neg (mt (prefix_append_ended zero_not_mem_fileScheme ht).mp hscheme)]
    exact ⟨rfl, fun s hs => absurd hs (Option.not_mem_none s)⟩

/-- Decoding a line in place leaves what comes after it. -/
theorem drop_overwrite_of_lt (h : s.length < line.length) :
    (overwrite (line ++ t) s).drop (line.length + 1) = t.drop 1 := by
  obtain ⟨k, hk⟩ : ∃ k, line.length = s.length + 1 + k := ⟨_, (Nat.add_sub_of_le h).symm⟩
  unfold overwrite
  have hstart : line.length + 1 = s.length + (1 + k + 1) := by omega
  rw [hstart, ← List.drop_drop, List.drop_left, Nat.add_assoc, Nat.add_comm 1, List.drop_succ_cons,
    List.drop_drop]
  have hend : s.length + 1 + (k + 1) = line.length + 1 := by omega
  rw [hend, ← List.drop_drop, List.drop_left]

/-- What the loop sees after a long line: the rest of the decoded path, or the rest of the line. -/
def tailOf (line s : Bytes) : Bytes :=
  if s.length > maxFileNameLen then s.drop (maxFileNameLen + 1) else line.drop (maxFileNameLen + 1)

theorem prefix_tailOf (hlong : maxFileNameLen < line.length) (ht : Ended t)
    (h : fileScheme <+: (overwrite (line ++ t) s).drop (maxFileNameLen + 1)) :
    fileScheme <+: tailOf line s := by
  unfold tailOf
  unfold overwrite at h
  by_cases hs : s.length > maxFileNameLen
  · rw [List.drop_append_of_le_length (by omega)] at h
    rw [if_pos hs]
    exact (prefix_append_ended zero_not_mem_fileScheme (ended_zero _)).mp h
  · obtain ⟨k, hk⟩ : ∃ k, maxFileNameLen = s.length + k := ⟨_, (Nat.add_sub_of_le (by omega)).symm⟩
    have hpos : maxFileNameLen + 1 = s.length + (k + 1) := by omega
    have hend : s.length + 1 + k = maxFileNameLen + 1 := by omega
    rw [hpos, ← List.drop_drop, List.drop_left, List.drop_succ_cons, List.drop_drop, hend,
      List.drop_append_of_le_length (by omega)] at h
    rw [if_neg hs]
    exact (prefix_append_ended zero_not_mem_fileScheme ht).mp h

end Line

/-! ### The walk -/

/-- The paths that the loop comes to: it does not find the next line after a long one. -/
def walkedPaths : List Bytes → List Bytes
  | [] => []
  | line :: lines => match urlPath line with
    | none => []
    | some path => if line.length ≤ maxFileNameLen then path :: walkedPaths lines else [path]

/-- Where the loop goes on after it has left the lines there is no URL: not after a scheme without a
    path, from which the decoding runs into the next line, and not in the rest of a long line.  It
    does not go on after the last line. -/
def GoesOn : List Bytes → Prop
  | [] => True
  | line :: lines =>
      if line = fileScheme then
        ∀ d ∈ urlDecodeLoop (lines.headD []), ¬ fileScheme <+: d.drop fileScheme.length
      else match urlDecode line with
        | none => True
        | some s =>
          if line.length ≤ maxFileNameLen then GoesOn lines
          else lines ≠ [] → ¬ fileScheme <+: tailOf line s

/-- The buffer of the lines. -/
def nulJoin (lines : List Bytes) : Bytes := [0].intercalate lines

theorem nulJoin_cons (line : Bytes) (lines : List Bytes) : ∃ t,
    nulJoin (line :: lines) = line ++ t ∧ Ended t ∧ t.drop 1 = nulJoin lines ∧
      (lines ≠ [] → t = 0 :: nulJoin lines) := by
  cases lines with
  | nil => exact ⟨[], by simp [nulJoin, List.intercalate], ended_nil, rfl, fun h => absurd rfl h⟩
  | cons next lines =>
    refine ⟨0 :: nulJoin (next :: lines), ?_, ended_zero _, rfl, fun _ => rfl⟩
    simp [nulJoin, List.intercalate]

section Walk

variable {A : Oracle → Prop} {h : Host}

/-- The loop stops where there is no URL. -/
theorem copiedFilesLoop_stops {buf : Bytes} (hbuf : urlDecode buf = none) (cnt : Nat) :
    (copiedFilesLoop cnt buf).Yields respond (Reading A h) (· = []) := by
  cases cnt with
  | zero => exact yields_ret rfl
  | succ cnt =>
    unfold copiedFilesLoop
    rw [hbuf]
    exact yields_ret rfl

/-- A step of the loop: the path is listed if it names a regular file. -/
theorem copiedFilesLoop_step {buf s : Bytes} {cnt : Nat} {paths : List Bytes}
    (hbuf : urlDecode buf = some s)
    (hrest : (copiedFilesLoop cnt ((overwrite buf s).drop (lineOffset buf))).Yields respond
      (Reading A h) (· = regularFiles h paths)) :
    (copiedFilesLoop (cnt + 1) buf).Yields respond (Reading A h)
      (· = regularFiles h (cstr s :: paths)) := by
  unfold copiedFilesLoop
  rw [hbuf]
  apply (stat_yields (cstr s)).bind
  rintro _ rfl
  by_cases hfile : statAt h (cstr s) = some .regular
  · rw [hfile]
    apply hrest.bind
    rintro _ rfl
    refine yields_ret ?_
    unfold regularFiles
    rw [List.filter_cons_of_pos (by simpa using hfile)]
  · have hskip : regularFiles h (cstr s :: paths) = regularFiles h paths := by
      unfold regularFiles
      rw [List.filter_cons_of_neg (by simpa using hfile)]
    rw [hskip]
    split
    · rename_i heq
      exact absurd heq hfile
    · exact hrest

/-- No file has an empty path. -/
theorem regularFiles_nil_cons (paths : List Bytes) :
    regularFiles h ([] :: paths) = regularFiles h paths := by
  have hnone : statAt h [] = none := rfl
  unfold regularFiles
  rw [List.filter_cons_of_neg (by rw [hnone]; simp)]

/-- What is decoded of a scheme without a path, in front of the next lines. -/
theorem urlDecode_bare {lines : List Bytes} (hnul : ∀ line ∈ lines, (0 : UInt8) ∉ line)
    (hgo : ∀ d ∈ urlDecodeLoop (lines.headD []), ¬ fileScheme <+: d.drop fileScheme.length)
    {s : Bytes} (hs : urlDecode (nulJoin (fileScheme :: lines)) = some s) :
    cstr s = [] ∧
      urlDecode ((overwrite (nulJoin (fileScheme :: lines)) s).drop (fileScheme.length + 1)) =
        none := by
  obtain ⟨t, hjoin, ht, hnext, hcons⟩ := nulJoin_cons fileScheme lines
  rw [hjoin] at hs ⊢
  unfold urlDecode at hs
  rw [if_pos (List.prefix_append ..), List.drop_left] at hs
  have hscheme : ∀ c ∈ fileScheme, c ≠ 0x25 ∧ c ≠ 0 := by decide +kernel
  -- one NUL was written, and the next line is as it was
  have hone : s = [0] → (∀ line ∈ lines.head?, line = []) →
      cstr s = [] ∧
        urlDecode ((overwrite (fileScheme ++ t) s).drop (fileScheme.length + 1)) = none := by
    rintro rfl hfirst
    refine ⟨rfl, if_neg fun hprefix => ?_⟩
    rw [drop_overwrite_of_lt (by decide), hnext] at hprefix
    cases lines with
    | nil => exact absurd hprefix (by decide)
    | cons line lines =>
      obtain rfl := hfirst line rfl
      obtain ⟨t', hjoin', ht', -⟩ := nulJoin_cons [] lines
      rw [hjoin', prefix_append_ended zero_not_mem_fileScheme ht'] at hprefix
      exact absurd hprefix (by decide)
  cases lines with
  | nil =>
    obtain rfl : t = [] := by
      have := congrArg List.length hjoin
      simpa [nulJoin, List.intercalate] using this
    exact hone (Option.some.inj hs).symm (by simp)
  | cons line lines =>
    obtain rfl := hcons (List.cons_ne_nil _ _)
    obtain ⟨t', hjoin', ht', -⟩ := nulJoin_cons line lines
    have hline := hnul line List.mem_cons_self
    rw [hjoin'] at hs
    cases line with
    | nil =>
      have hzero : urlDecodeLoop (0 :: t') = some [0] := by
        cases t' with
        | nil => rfl
        | cons c t' => rw [urlDecodeLoop_plain (by decide), if_pos (ht' c rfl)]
      exact hone (Option.some.inj (hs.symm.trans hzero)) (by simp)
    | cons c line =>
      have hc : c ≠ 0 := fun h => hline (by rw [h]; simp)
      obtain ⟨hsame, -⟩ := urlDecodeLoop_ended (List.cons_ne_nil c line) hline ht'
      rw [List.cons_append, urlDecodeLoop_plain (by decide), if_neg hc] at hs
      obtain ⟨d, hd, rfl⟩ := Option.map_eq_some_iff.mp hs
      rw [← List.cons_append, hsame] at hd
      refine ⟨rfl, if_neg fun hprefix => ?_⟩
      unfold overwrite at hprefix
      rw [List.cons_append, List.drop_succ_cons] at hprefix
      by_cases hlen : fileScheme.length ≤ d.length
      · rw [List.drop_append_of_le_length hlen,
          prefix_append_ended zero_not_mem_fileScheme (ended_zero _)] at hprefix
        exact hgo d hd hprefix
      · -- the next line is as it was, but then more would have been decoded
        have hseven : fileScheme.length = 7 := rfl
        obtain ⟨k, hk⟩ : ∃ k, fileScheme.length = d.length + (k + 1) := ⟨6 - d.length, by omega⟩
        have hend : (d.length + 1) + 1 + k = fileScheme.length + 1 := by omega
        rw [List.length_cons, hk, ← List.drop_drop, List.drop_left, List.drop_succ_cons,
          List.drop_drop, hend, ← List.drop_drop, List.drop_left, List.drop_succ_cons,
          List.drop_zero, hjoin', prefix_append_ended zero_not_mem_fileScheme ht'] at hprefix
        obtain ⟨r, hr⟩ := hprefix
        rw [← hr] at hd
        exact hlen (length_le_of_urlDecodeLoop hscheme hd)

/-- After a scheme without a path nothing is listed. -/
theorem copiedFilesLoop_bare {lines : List Bytes} (hnul : ∀ line ∈ lines, (0 : UInt8) ∉ line)
    (hgo : ∀ d ∈ urlDecodeLoop (lines.headD []), ¬ fileScheme <+: d.drop fileScheme.length)
    (cnt : Nat) :
    (copiedFilesLoop (cnt + 1) (nulJoin (fileScheme :: lines))).Yields respond (Reading A h)
      (· = []) := by
  cases hdec : urlDecode (nulJoin (fileScheme :: lines)) with
  | none => exact copiedFilesLoop_stops hdec _
  | some s =>
    obtain ⟨hempty, hrest⟩ := urlDecode_bare hnul hgo hdec
    obtain ⟨t, hjoin, ht, -⟩ := nulJoin_cons fileScheme lines
    have hoff : lineOffset (nulJoin (fileScheme :: lines)) = fileScheme.length + 1 := by
      unfold lineOffset
      rw [hjoin, cstr_append_ended zero_not_mem_fileScheme ht]
      rfl
    have hnone : regularFiles h (cstr s :: []) = [] := by
      rw [hempty, regularFiles_nil_cons]
      rfl
    rw [← hnone]
    apply copiedFilesLoop_step hdec
    rw [hoff]
    exact copiedFilesLoop_stops hrest _

/-- **Loop lemma.**  The loop lists the regular files among the paths that it comes to. -/
theorem copiedFilesLoop_yields {lines : List Bytes} (hnul : ∀ line ∈ lines, (0 : UInt8) ∉ line)
    (hgo : GoesOn lines) :
    (copiedFilesLoop lines.length (nulJoin lines)).Yields respond (Reading A h)
      (· = regularFiles h (walkedPaths lines)) := by
  induction lines with
  | nil => exact yields_ret rfl
  | cons line lines ih =>
    have hline := hnul line List.mem_cons_self
    have hlines := fun l hl => hnul l (List.mem_cons_of_mem line hl)
    unfold GoesOn at hgo
    -- what is decoded of a bare `file://` is not the line's own
    by_cases hbare : line = fileScheme
    · subst hbare
      rw [if_pos rfl] at hgo
      have hnone : walkedPaths (fileScheme :: lines) = [] := rfl
      rw [hnone]
      exact copiedFilesLoop_bare hlines hgo _
    · rw [if_neg hbare] at hgo
      obtain ⟨t, hjoin, ht, hnext, -⟩ := nulJoin_cons line lines
      obtain ⟨hsame, hlen⟩ := urlDecode_ended hbare hline ht
      have hoff : lineOffset (line ++ t) = min line.length maxFileNameLen + 1 := by
        unfold lineOffset
        rw [cstr_append_ended hline ht]
      rw [hjoin]
      unfold walkedPaths urlPath
      rw [if_neg hbare]
      cases hdec : urlDecode line with
      | none => exact copiedFilesLoop_stops (hsame.trans hdec) _
      | some s =>
        rw [hdec] at hgo hsame
        have hshort := hlen s (Option.mem_def.mpr hdec)
        dsimp only [Option.map_some] at hgo ⊢
        by_cases hlong : line.length ≤ maxFileNameLen
        · rw [if_pos hlong] at hgo ⊢
          -- the decoded path is shorter than the line, so the next line is still there
          apply copiedFilesLoop_step hsame
          rw [hoff, Nat.min_eq_left hlong, drop_overwrite_of_lt (by omega), hnext]
          exact ih hlines hgo
        · -- the loop goes on inside of the line
          rw [if_neg hlong] at hgo ⊢
          apply copiedFilesLoop_step hsame
          cases lines with
          | nil => exact yields_ret rfl
          | cons next lines =>
            have hstop :
                urlDecode ((overwrite (line ++ t) s).drop (lineOffset (line ++ t))) = none := by
              rw [hoff, Nat.min_eq_right (by omega)]
              exact if_neg fun h => hgo (List.cons_ne_nil _ _) (prefix_tailOf (by omega) ht h)
            exact copiedFilesLoop_stops hstop _

/-! ### The lines of a text -/

/-- The buffer of the lines of a text, and how many there are. -/
theorem lineBuffer_eq (uris : Bytes) : lineBuffer uris = nulJoin (fileLines uris) ∧
    lineCount uris = (fileLines uris).length := by
  have hsame : ∀ line : Bytes, (0x0a : UInt8) ∉ line →
      line.map (fun b => if b = 0x0a then 0 else b) = line ∧ line.count 0x0a = 0 := by
    intro line hline
    refine ⟨?_, List.count_eq_zero_of_not_mem hline⟩
    conv_rhs => rw [← List.map_id line]
    exact List.map_congr_left fun c hc => if_neg fun e : c = 0x0a => hline (e ▸ hc)
  unfold lineBuffer lineCount
  induction uris using lines_induction with
  | last line hline =>
    rw [fileLines_of_not_mem hline, (hsame line hline).1, (hsame line hline).2]
    exact ⟨by simp [nulJoin, List.intercalate], rfl⟩
  | more line rest hline ih =>
    obtain ⟨hbuf, hcount⟩ := ih
    obtain ⟨t, hjoin, -, -, hcons⟩ := nulJoin_cons line (fileLines rest)
    rw [fileLines_append hline, hjoin, hcons (fileLines_ne_nil rest), List.map_append,
      List.map_cons, if_pos rfl, hbuf, (hsame line hline).1, List.count_append,
      (hsame line hline).2, List.count_cons_self, List.length_cons, ← hcount]
    exact ⟨rfl, by omega⟩

/-- `get_copied_files` returns the regular files among the paths of the lines. -/
def Honoured (l : Session) (h : Host) (uris : Bytes) : Prop :=
  (getCopiedFiles.run respond (l, h)).1
    = some (some (regularFiles h (urlPaths (fileLines uris))))

/-- A line that is too long for the step of the loop comes before a line that names a regular
    file. -/
def Followed (h : Host) (lines : List Bytes) : Prop :=
  ∃ before line after, lines = before ++ line :: after ∧
    (∀ x ∈ before ++ [line], (urlPath x).isSome) ∧ maxFileNameLen < line.length ∧
    regularFiles h (urlPaths after) ≠ []

/-- Lines that all have a path come before the others. -/
theorem regularFiles_append {before : List Bytes} (hall : ∀ x ∈ before, (urlPath x).isSome)
    (after : List Bytes) : regularFiles h (urlPaths (before ++ after))
      = regularFiles h (urlPaths before) ++ regularFiles h (urlPaths after) := by
  induction before with
  | nil => rfl
  | cons line before ih =>
    obtain ⟨path, hpath⟩ := Option.isSome_iff_exists.mp (hall line List.mem_cons_self)
    have hrest := ih fun x hx => hall x (List.mem_cons_of_mem _ hx)
    unfold regularFiles at hrest ⊢
    rw [List.cons_append, urlPaths, urlPaths, hpath]
    dsimp only
    rw [List.filter_cons, List.filter_cons, hrest]
    split <;> rfl

theorem regularFiles_cons_cancel {path : Bytes} {xs ys : List Bytes} :
    regularFiles h (path :: xs) = regularFiles h (path :: ys)
      ↔ regularFiles h xs = regularFiles h ys := by
  unfold regularFiles
  rw [List.filter_cons, List.filter_cons]
  split
  · simp
  · rfl

/-- A line that names a path is not too long itself: only the lines after it matter. -/
theorem followed_cons {line : Bytes} (hpath : (urlPath line).isSome) (lines : List Bytes) :
    Followed h (line :: lines) ↔
      (maxFileNameLen < line.length ∧ regularFiles h (urlPaths lines) ≠ []) ∨ Followed h lines := by
  constructor
  · rintro ⟨before, long, after, heq, hall, hlong, hfile⟩
    cases before with
    | nil =>
      obtain ⟨rfl, rfl⟩ := List.cons.inj heq
      exact .inl ⟨hlong, hfile⟩
    | cons x before =>
      obtain ⟨rfl, rfl⟩ := List.cons.inj heq
      exact .inr ⟨before, long, after, rfl, fun x hx => hall x (List.mem_cons_of_mem _ hx), hlong,
        hfile⟩
  · rintro (⟨hlong, hfile⟩ | ⟨before, long, after, rfl, hall, hlong, hfile⟩)
    · exact ⟨[], line, lines, rfl, fun x hx => List.mem_singleton.mp hx ▸ hpath, hlong, hfile⟩
    · refine ⟨line :: before, long, after, rfl, fun x hx => ?_, hlong, hfile⟩
      rcases List.mem_cons.mp hx with rfl | hx
      · exact hpath
      · exact hall x hx

/-- What follows a long line is among the regular files of the lines. -/
theorem Followed.regularFiles_ne_nil {lines : List Bytes} (hf : Followed h lines) :
    regularFiles h (urlPaths lines) ≠ [] := by
  obtain ⟨before, line, after, rfl, hall, -, hfile⟩ := hf
  rw [List.append_cons, regularFiles_append hall]
  exact fun hnil => hfile (List.append_eq_nil_iff.mp hnil).2

/-- The paths that the loop comes to are those of the lines exactly if no regular file follows a
    line that is too long. -/
theorem regularFiles_walked_iff (lines : List Bytes) :
    regularFiles h (walkedPaths lines) = regularFiles h (urlPaths lines) ↔ ¬ Followed h lines := by
  induction lines with
  | nil =>
    refine iff_of_true rfl ?_
    rintro ⟨before, line, after, heq, -⟩
    exact absurd heq (by simp)
  | cons line lines ih =>
    unfold walkedPaths urlPaths
    cases hpath : urlPath line with
    | none =>
      refine iff_of_true rfl ?_
      rintro ⟨before, long, after, heq, hall, -⟩
      -- the first line is one of those that name a path
      have hfirst : line ∈ before ++ [long] := by
        cases before with
        | nil =>
          rw [(List.cons.inj heq).1]
          exact List.mem_singleton_self _
        | cons x before =>
          rw [(List.cons.inj heq).1]
          exact List.mem_cons_self
      have := hall line hfirst
      rw [hpath] at this
      cases this
    | some path =>
      rw [followed_cons (by rw [hpath]; rfl)]
      dsimp only
      by_cases hlong : line.length ≤ maxFileNameLen
      · rw [if_pos hlong, regularFiles_cons_cancel, ih, or_iff_right (by omega)]
      · rw [if_neg hlong, regularFiles_cons_cancel]
        have hnil : regularFiles h [] = [] := rfl
        rw [hnil]
        constructor
        · rintro heq (⟨-, hne⟩ | hf)
          · exact hne heq.symm
          · exact hf.regularFiles_ne_nil heq.symm
        · intro hno
          by_contra hne
          exact hno (.inl ⟨not_le.mp hlong, Ne.symm hne⟩)

/-! ### The result -/

variable {l : Session} {uris : Bytes}

/-- What `get_copied_files` returns. -/
theorem getCopiedFiles_run (hl : l.Sturdy) (hclip : OnClipboard uris h)
    (hnul : (0 : UInt8) ∉ uris) (hlen : uris.length < 2 ^ 31 - 1) (hgo : GoesOn (fileLines uris)) :
    (getCopiedFiles.run respond (l, h)).1
      = some (some (regularFiles h (walkedPaths (fileLines uris)))) := by
  have hcount : lineCount uris < 0xFFFFFFFF := by
    have := List.count_le_length (a := (0x0a : UInt8)) (l := uris)
    unfold lineCount
    omega
  have hlines : ∀ line ∈ fileLines uris, (0 : UInt8) ∉ line := fun line hline h =>
    hnul (mem_of_mem_fileLines hline h)
  obtain ⟨hbuf, hcnt⟩ := lineBuffer_eq uris
  obtain ⟨a, s', hrun, -, rfl⟩ := copiedFilesLoop_yields (A := fun _ => True) hlines hgo
    (l.tick.tick, h) ⟨trivial, rfl⟩
  unfold getCopiedFiles
  rw [run_bind_of_some respond (getCopiedFilesAsStr_run hl hclip hnul)]
  dsimp only
  rw [if_neg (by omega), hbuf, hcnt, run_bind_of_some respond hrun]
  rfl

/-- Where the loop does not come to a URL outside of the lines, it honours them exactly if no
    regular file follows a line that is too long. -/
theorem honoured_iff (hl : l.Sturdy) (hclip : OnClipboard uris h) (hnul : (0 : UInt8) ∉ uris)
    (hlen : uris.length < 2 ^ 31 - 1) (hgo : GoesOn (fileLines uris)) :
    Honoured l h uris ↔ ¬ Followed h (fileLines uris) := by
  unfold Honoured
  rw [getCopiedFiles_run hl hclip hnul hlen hgo, Option.some_inj, Option.some_inj]
  exact regularFiles_walked_iff _

/-- **The lines of the copied files.**  All of them are honoured if no line that is too long comes
    before one that names a regular file, and the loop does not come to a URL where it has left the
    lines; and where it does not, only then. -/
theorem copiedFiles_honoured (hl : l.Sturdy) (hclip : OnClipboard uris h)
    (hnul : (0 : UInt8) ∉ uris) (hlen : uris.length < 2 ^ 31 - 1) :
    (GoesOn (fileLines uris) ∧ ¬ Followed h (fileLines uris) → Honoured l h uris) ∧
    (GoesOn (fileLines uris) → Honoured l h uris → ¬ Followed h (fileLines uris)) :=
  ⟨fun ⟨hgo, hno⟩ => (honoured_iff hl hclip hnul hlen hgo).mpr hno,
    fun hgo => (honoured_iff hl hclip hnul hlen hgo).mp⟩

/-- Lines that fit the step of the loop, and go on after the scheme. -/
theorem short_lines {lines : List Bytes} (hshort : ∀ line ∈ lines, line.length ≤ maxFileNameLen)
    (hbare : fileScheme ∉ lines) : GoesOn lines ∧ ¬ Followed h lines := by
  constructor
  · induction lines with
    | nil => trivial
    | cons line lines ih =>
      unfold GoesOn
      rw [if_neg fun e : line = fileScheme => hbare (e ▸ List.mem_cons_self)]
      split
      · trivial
      · rw [if_pos (hshort line List.mem_cons_self)]
        exact ih (fun x hx => hshort x (List.mem_cons_of_mem _ hx)) fun h =>
          hbare (List.mem_cons_of_mem _ h)
  · rintro ⟨before, line, after, rfl, -, hlong, -⟩
    exact absurd (hshort line (by simp)) (not_le.mpr hlong)

end Walk

/-! ### A file behind a long line -/

/-- A regular file in the root directory. -/
def oneFile : FileSystem :=
  FileSystem.bare.add [] (ascii "g") (.file 2 (ascii "y")) 3 FileSystem.bare.root rfl (by decide)
    (by simp) (by simp [FileSystem.bare])

/-- A host with this file, and a list of URIs on its clipboard. -/
def oneFileHost (uris : Bytes) : Host where
  fs := oneFile
  cwd := []
  desktop := { Desktop.empty with clipboard := uriClipboard uris }

theorem regularFiles_oneFile (uris : Bytes) :
    regularFiles (oneFileHost uris) (urlPaths [ascii "file:///g"]) = [ascii "/g"] := by
  have hpath : urlPaths [ascii "file:///g"] = [ascii "/g"] := by decide +kernel
  have hfile : statAt (oneFileHost uris) (ascii "/g") = some .regular := rfl
  unfold regularFiles
  rw [hpath, List.filter_cons_of_pos (by simpa using hfile)]
  rfl

/-- The URL of no file, and an escaped one of the file. -/
def twoLines : Bytes := ascii "file:///no%20file\nfile:///%67"

/-- `copiedFiles_honoured` for two lines. -/
theorem copiedFiles_honoured_two : Honoured (.fresh [] .calm) (oneFileHost twoLines) twoLines :=
  (copiedFiles_honoured (fun _ => rfl) (uriClipboard_on rfl rfl) (by decide) (by decide)).1
    (short_lines (by decide +kernel) (by decide +kernel))

/-- The URL of a path, and then the file. -/
def withFile (path : Bytes) : Bytes := urlEncode path ++ 0x0a :: ascii "file:///g"

/-- A URL with less than the length of a scheme behind the step of the loop hides the file. -/
theorem not_honoured_withFile {path : Bytes} (hne : path ≠ [])
    (hshort : path.length ≤ maxFileNameLen)
    (hlong : maxFileNameLen < (urlEncode path).length)
    (htail : (urlEncode path).length ≤ maxFileNameLen + fileScheme.length) :
    (0 : UInt8) ∉ withFile path ∧ (withFile path).length < 2 ^ 31 - 1 ∧
      ¬ Honoured (.fresh [] .calm) (oneFileHost (withFile path)) (withFile path) := by
  have hbytes := (urlEncode_spec path).1
  have hseven : fileScheme.length = 7 := rfl
  have hmax : maxFileNameLen = 2048 := rfl
  have hnul : (0 : UInt8) ∉ withFile path := by
    unfold withFile
    rw [List.mem_append, List.mem_cons, not_or, not_or]
    exact ⟨fun h => (hbytes 0 h).1 rfl, by decide, by decide⟩
  have hsmall : (withFile path).length < 2 ^ 31 - 1 := by
    have hlast : (0x0a :: ascii "file:///g").length = 10 := rfl
    unfold withFile
    rw [List.length_append, hlast]
    omega
  have hlines : fileLines (withFile path) = [urlEncode path, ascii "file:///g"] := by
    unfold withFile
    rw [fileLines_append fun h => (hbytes _ h).2 rfl, fileLines_of_not_mem (by decide)]
  have hbare : urlEncode path ≠ fileScheme := by
    intro h
    rw [h] at hlong
    omega
  have hdec : urlDecode (urlEncode path) = some path := by
    have hround := urlDecode_urlEncode hne ended_nil
    rwa [List.append_nil] at hround
  have hgo : GoesOn (fileLines (withFile path)) := by
    rw [hlines]
    unfold GoesOn
    rw [if_neg hbare, hdec]
    dsimp only
    rw [if_neg (by omega)]
    unfold tailOf
    rw [if_neg (by omega)]
    -- what is left of the line is shorter than the scheme
    intro _ hprefix
    have hle := hprefix.length_le
    rw [List.length_drop] at hle
    omega
  refine ⟨hnul, hsmall, fun hh => ?_⟩
  apply (honoured_iff (fun _ => rfl) (uriClipboard_on rfl rfl) hnul hsmall hgo).mp hh
  rw [hlines]
  refine ⟨[], _, [ascii "file:///g"], rfl, fun x hx => ?_, hlong, ?_⟩
  · rw [List.mem_singleton.mp hx]
    unfold urlPath
    rw [if_neg hbare, hdec]
    rfl
  · rw [regularFiles_oneFile]
    exact List.cons_ne_nil _ _

/-- A path of 681 bytes that are all escaped makes a line of 2050 bytes. -/
theorem copiedFiles_lost :
    (0 : UInt8) ∉ withFile (List.replicate 681 0xe4) ∧
      (withFile (List.replicate 681 0xe4)).length < 2 ^ 31 - 1 ∧
      ¬ Honoured (.fresh [] .calm) (oneFileHost (withFile (List.replicate 681 0xe4)))
        (withFile (List.replicate 681 0xe4)) := by
  have hlen : (urlEncode (List.replicate 681 0xe4)).length = 2050 := by
    have hsafe : urlSafe 0xe4 = false := by decide
    rw [length_urlEncode, escapes, List.countP_replicate, List.length_replicate, hsafe]
    rfl
  apply not_honoured_withFile
  · exact List.ne_nil_of_length_pos (by rw [List.length_replicate]; decide)
  · rw [List.length_replicate]
    decide
  · rw [hlen]
    decide
  · rw [hlen]
    decide

end ClipShare
