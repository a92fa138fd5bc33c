import ClipShare.Server.Web

namespace ClipShare

open Posix

/-!
# The two loops of a POST request

The header always stays inside its block, and the body exactly as long as no read delivers more
than what is missing.  The loop that reads the header counts idle turns only once the counter is
not zero, which it never is; so it ends only by what it has read.

* `Headers.Holds` / `Body.Holds` — the invariants of the two loops;
* `receive_fits` / `receive_overrun` — what a result of `read_sock_no_wait` does;
* `post_inside_iff` — when every write stays inside its block;
* `inHeaders_iff` — how long the function reads the header;
* `headers_end_iff` — when that ends.
-/

variable {junk : Nat → UInt8}

/-! ### The loop that reads the header -/

/-- The block holds `text`, of which the function looks at what comes after `seen` bytes. -/
structure Headers.Holds (text : Bytes) (seen : Nat) (s : Headers) : Prop where
  ptr : s.ptr = text.length
  check : s.check = seen
  seen_le : seen ≤ text.length
  cnt : s.cnt = 0
  small : text.length < headersSize - 256
  size : s.headers.length = headersSize
  block : ∃ free, s.headers = text ++ 0 :: free

/-- After the loops no write goes wrong, and the loop of the body is entered only with room. -/
structure Body.Holds (s : Body) : Prop where
  size : s.headers.length = s.headerLen + s.dataLen + 1
  le : s.headerLen ≤ s.dataEndPtr
  lt : s.received < s.dataLen

/-- The block of the function is as its loop expects it; no write was outside of a block. -/
def Post.Sound : Post → Prop
  | .headers s => ∃ text seen, s.Holds text seen
  | .body s => s.Holds
  | .overrun => False
  | .returned => True
  | .accepted _ => True

/-- Is the function still reading the header? -/
def Post.InHeaders : Post → Prop
  | .headers _ => True
  | _ => False

/-- The function has left the header behind, without a write outside of a block. -/
def Post.Left : Post → Prop
  | .headers _ => False
  | .body s => s.Holds
  | .overrun => False
  | .returned => True
  | .accepted _ => True

theorem Post.Left.sound {p : Post} (h : p.Left) : p.Sound := by
  cases p with
  | headers s => exact h.elim
  | body s => exact h
  | overrun => exact h
  | returned => trivial
  | accepted text => trivial

theorem Post.Left.not_inHeaders {p : Post} (h : p.Left) : ¬ p.InHeaders := by
  cases p with
  | headers s => exact fun _ => h
  | body s => exact id
  | overrun => exact id
  | returned => exact id
  | accepted text => exact id

/-- The body is read on only while something is missing. -/
theorem Body.enter_left {s : Body} (hsize : s.headers.length = s.headerLen + s.dataLen + 1)
    (hle : s.headerLen ≤ s.dataEndPtr) : s.enter.Left := by
  unfold Body.enter
  by_cases hlt : s.received < s.dataLen
  · rw [if_pos hlt]
    exact ⟨hsize, hle, hlt⟩
  · rw [if_neg hlt]
    trivial

/-- Between the loops nothing is written outside of a block. -/
theorem endOfHeaders_left (headers : Bytes) : (endOfHeaders junk headers).Left := by
  unfold endOfHeaders
  split
  · trivial
  · dsimp only
    split
    · trivial
    · split
      · trivial
      · rename_i data hdata
        split
        · -- the blank line is inside the block
          rename_i hstore
          have hblank : data + 4 ≤ (cstr headers).length := strstr_bound hdata
          have hblock := cstr_length_le headers
          have hout : headers.length < data + 4 - 1 + 1 := store_eq_none_iff.mp hstore
          omega
        · exact Body.enter_left (length_realloc ..) (Nat.le_add_right ..)

/-- A turn with data: it is put behind the text that is there. -/
theorem Headers.Holds.read_some (junk : Nat → UInt8) {text : Bytes} {seen : Nat} {s : Headers}
    (h : s.Holds text seen) (buf : Data) :
    if (text ++ buf.bytes).length < headersSize - 256 then
      ∃ s', s.read junk (some buf) = .headers s' ∧ s'.Holds (text ++ buf.bytes) seen
    else (s.read junk (some buf)).Left := by
  obtain ⟨free, hblock⟩ := h.block
  have hle := buf.le
  have hsmall := h.small
  have hsize : headersSize = 2048 := rfl
  have hlen : text.length + (free.length + 1) = headersSize := by
    rw [← h.size, hblock, List.length_append, List.length_cons]
  -- the bytes, and the NUL behind them
  have hfirst : store s.headers s.ptr buf.bytes
      = some (text ++ buf.bytes ++ (0 :: free).drop buf.bytes.length) := by
    rw [hblock, h.ptr]
    apply store_append
    rw [List.length_cons]
    omega
  have hend : s.ptr + buf.bytes.length = (text ++ buf.bytes).length := by
    rw [h.ptr, List.length_append]
  have hrest : 1 ≤ ((0 :: free).drop buf.bytes.length).length := by
    rw [List.length_drop, List.length_cons]
    omega
  have hsecond : store (text ++ buf.bytes ++ (0 :: free).drop buf.bytes.length)
      (text ++ buf.bytes).length [0]
        = some (text ++ buf.bytes ++ [0] ++ ((0 :: free).drop buf.bytes.length).drop 1) :=
    store_append _ [0] _ hrest
  have hsizes := (length_store hsecond).trans (length_store hfirst)
  simp only [Headers.read, hfirst, hend, hsecond]
  split
  · rename_i hroom
    rw [if_neg (by omega)]
    refine ⟨_, rfl, ?_⟩
    exact
      { ptr := rfl
        check := h.check
        seen_le := by
          show seen ≤ (text ++ buf.bytes).length
          have := h.seen_le
          rw [List.length_append]
          omega
        cnt := rfl
        small := hroom
        size := hsizes.trans h.size
        block := ⟨_, List.append_assoc ..⟩ }
  · rw [if_pos (by omega)]
    exact endOfHeaders_left _

/-- A turn without data: the function looks for a blank line in the text it has not seen. -/
theorem Headers.Holds.read_none (junk : Nat → UInt8) {text : Bytes} {seen : Nat} {s : Headers}
    (h : s.Holds text seen) :
    if blankLine <:+: cstr (text.drop seen) then (s.read junk none).Left
    else ∃ s', s.read junk none = .headers s' ∧ s'.Holds text (text.length - 3) := by
  obtain ⟨free, hblock⟩ := h.block
  have hcstr : cstr (s.headers.drop s.check) = cstr (text.drop seen) := by
    rw [hblock, h.check, List.drop_append_of_le_length h.seen_le, cstr_append_zero]
  have hfound : (strstr (s.headers.drop s.check) blankLine).isSome
      ↔ blankLine <:+: cstr (text.drop seen) := by
    rw [strstr_isSome_iff, hcstr]
  simp only [Headers.read, h.cnt, if_true]
  split
  · rename_i hblank
    rw [if_pos (hfound.mpr hblank)]
    exact endOfHeaders_left _
  · rename_i hblank
    rw [if_neg fun hsome => hblank (hfound.mp hsome)]
    refine ⟨_, rfl, ?_⟩
    exact
      { ptr := h.ptr
        check := by
          show s.ptr - 3 = text.length - 3
          rw [h.ptr]
        seen_le := Nat.sub_le ..
        cnt := rfl
        small := h.small
        size := h.size
        block := h.block }

/-! ### The loop that reads the body -/

/-- A turn without data. -/
theorem Body.Holds.read_none {s : Body} (h : s.Holds) : (s.read none).Left := by
  show (if s.cnt > 50 then Post.returned else Body.enter { s with cnt := s.cnt + 1 }).Left
  split
  · trivial
  · exact Body.enter_left h.size h.le

/-- A turn with data that is not more than what is missing. -/
theorem Body.Holds.read_fits {s : Body} (h : s.Holds) {buf : Data}
    (hfits : s.received + buf.bytes.length ≤ s.dataLen) : (s.read (some buf)).Left := by
  have hle := h.le
  have hsize := h.size
  have hreceived : s.received = s.dataEndPtr - s.headerLen := rfl
  have hroom : s.dataEndPtr + buf.bytes.length + 1 ≤ s.headers.length := by omega
  unfold Body.read
  dsimp only
  split
  · rename_i hstore
    have hout := store_eq_none_iff.mp hstore
    omega
  · rename_i headers hfirst
    have hlen := length_store hfirst
    split
    · rename_i hstore
      have hout : headers.length < s.dataEndPtr + buf.bytes.length + 1 :=
        store_eq_none_iff.mp hstore
      omega
    · rename_i headers' hsecond
      apply Body.enter_left
      · show headers'.length = _
        rw [length_store hsecond, hlen]
        exact hsize
      · show s.headerLen ≤ s.dataEndPtr + buf.bytes.length
        omega

/-- A turn with more data than what is missing: at the latest the NUL is outside of the block. -/
theorem Body.Holds.read_overrun {s : Body} (h : s.Holds) {buf : Data}
    (hmore : s.dataLen < s.received + buf.bytes.length) : s.read (some buf) = .overrun := by
  have hle := h.le
  have hsize := h.size
  have hreceived : s.received = s.dataEndPtr - s.headerLen := rfl
  have hroom : s.headers.length < s.dataEndPtr + buf.bytes.length + 1 := by omega
  unfold Body.read
  dsimp only
  split
  · rfl
  · rename_i headers hfirst
    have hlen := length_store hfirst
    have hnul : store headers (s.dataEndPtr + buf.bytes.length) [0] = none := by
      apply store_eq_none_iff.mpr
      show headers.length < s.dataEndPtr + buf.bytes.length + 1
      omega
    rw [hnul]

/-! ### Writes -/

/-- In the loop of the body, the data is not more than what is missing. -/
def Post.Fits : Post → ReadResult → Prop
  | .body s, some buf => s.received + buf.bytes.length ≤ s.dataLen
  | _, _ => True

/-- **Step lemma.**  A result that fits leaves the function in a sound state. -/
theorem Post.Sound.receive {p : Post} (h : p.Sound) {r : ReadResult} (hfits : p.Fits r) :
    (p.receive junk r).Sound := by
  cases p with
  | headers s =>
    obtain ⟨text, seen, h⟩ := h
    cases r with
    | none =>
      have hread := h.read_none junk
      split at hread
      · exact hread.sound
      · obtain ⟨s', hs', h'⟩ := hread
        show (s.read junk none).Sound
        rw [hs']
        exact ⟨_, _, h'⟩
    | some buf =>
      have hread := h.read_some junk buf
      split at hread
      · obtain ⟨s', hs', h'⟩ := hread
        show (s.read junk (some buf)).Sound
        rw [hs']
        exact ⟨_, _, h'⟩
      · exact hread.sound
  | body s =>
    have h : s.Holds := h
    cases r with
    | none => exact h.read_none.sound
    | some buf => exact (h.read_fits hfits).sound
  | overrun => exact h
  | returned => trivial
  | accepted text => trivial

/-- A result that does not fit makes the function write outside of its block. -/
theorem Post.Sound.receive_overrun {p : Post} (h : p.Sound) {r : ReadResult} (hfits : ¬ p.Fits r) :
    p.receive junk r = .overrun := by
  cases p with
  | body s =>
    have h : s.Holds := h
    cases r with
    | none => exact absurd trivial hfits
    | some buf => exact h.read_overrun (Nat.lt_of_not_le hfits)
  | headers s => exact absurd trivial hfits
  | overrun => exact absurd trivial hfits
  | returned => exact absurd trivial hfits
  | accepted text => exact absurd trivial hfits

/-- A fresh block holds the empty text, once it begins with a NUL. -/
theorem Headers.holds_fresh {block : Bytes} (h : block.length = headersSize) :
    ({ headers := block.set 0 0, ptr := 0, check := 0, cnt := 0 } : Headers).Holds [] 0 := by
  have hpos : 0 < block.length := by
    rw [h]
    decide
  obtain ⟨x, free, rfl⟩ := List.exists_cons_of_length_pos hpos
  exact
    { ptr := rfl
      check := rfl
      seen_le := Nat.le_refl _
      cnt := rfl
      small := by decide
      size := h
      block := ⟨free, rfl⟩ }

theorem Post.start_sound : (Post.start junk).Sound :=
  ⟨[], 0, Headers.holds_fresh (length_malloc ..)⟩

theorem Post.after_append (rs : List ReadResult) (r : ReadResult) :
    Post.after junk (rs ++ [r]) = (Post.after junk rs).receive junk r := by
  unfold Post.after
  rw [List.foldl_append]
  rfl

/-- A write outside of a block is not undone. -/
theorem foldl_overrun (rs : List ReadResult) :
    rs.foldl (Post.receive junk) .overrun = .overrun := by
  induction rs with
  | nil => rfl
  | cons r rs ih => exact ih

/-- **Run lemma.**  As long as every result fits, the function is in a sound state. -/
theorem after_sound {rs : List ReadResult}
    (h : ∀ rs₁ r rs₂, rs = rs₁ ++ r :: rs₂ → (Post.after junk rs₁).Fits r) :
    (Post.after junk rs).Sound := by
  induction rs using List.reverseRecOn with
  | nil => exact Post.start_sound
  | append_singleton rs r ih =>
    have hbefore : (Post.after junk rs).Sound := by
      apply ih
      intro rs₁ r' rs₂ hrs
      apply h rs₁ r' (rs₂ ++ [r])
      rw [hrs, List.append_assoc, List.cons_append]
    rw [Post.after_append]
    exact hbefore.receive (h rs r [] rfl)

/-- A result that does not fit is the end of every run that is sound before it. -/
theorem after_overrun {rs₁ rs₂ : List ReadResult} {r : ReadResult}
    (h : (Post.after junk rs₁).Sound) (hfits : ¬ (Post.after junk rs₁).Fits r) :
    Post.after junk (rs₁ ++ r :: rs₂) = .overrun := by
  show (rs₁ ++ r :: rs₂).foldl (Post.receive junk) (Post.start junk) = .overrun
  rw [List.foldl_append, List.foldl_cons]
  show rs₂.foldl (Post.receive junk) ((Post.after junk rs₁).receive junk r) = .overrun
  rw [h.receive_overrun hfits, foldl_overrun]

/-- A run that never writes outside of a block is sound. -/
theorem sound_of_ne_overrun {rs : List ReadResult} (h : Post.after junk rs ≠ .overrun) :
    (Post.after junk rs).Sound := by
  induction rs using List.reverseRecOn with
  | nil => exact Post.start_sound
  | append_singleton rs r ih =>
    rw [Post.after_append] at h ⊢
    have hbefore : (Post.after junk rs).Sound := by
      apply ih
      intro hover
      apply h
      rw [hover]
      rfl
    apply hbefore.receive
    by_contra hfits
    exact h (hbefore.receive_overrun hfits)

/-- **The blocks of a POST request.**  Every write stays inside its block exactly if every read of
    the body delivers at most as many bytes as are missing. -/
theorem post_inside_iff (junk : Nat → UInt8) (rs : List ReadResult) :
    Post.after junk rs ≠ .overrun ↔
      ∀ rs₁ buf rs₂ s, rs = rs₁ ++ some buf :: rs₂ → Post.after junk rs₁ = .body s →
        s.received + buf.bytes.length ≤ s.dataLen := by
  constructor
  · intro hne rs₁ buf rs₂ s hrs hbody
    by_contra hmore
    apply hne
    rw [hrs]
    have hbefore : Post.after junk rs₁ ≠ .overrun := by
      rw [hbody]
      intro hover
      cases hover
    apply after_overrun (sound_of_ne_overrun hbefore)
    rw [hbody]
    exact hmore
  · intro h hover
    have hsound : (Post.after junk rs).Sound := by
      apply after_sound
      intro rs₁ r rs₂ hrs
      cases hp : Post.after junk rs₁ with
      | body s =>
        cases r with
        | none => trivial
        | some buf => exact h rs₁ buf rs₂ s hrs hp
      | headers s => trivial
      | overrun => trivial
      | returned => trivial
      | accepted text => trivial
    rw [hover] at hsound
    exact hsound

/-- A body of one byte is announced, but two bytes arrive. -/
theorem post_overrun : Post.after (fun _ => 0)
    [some ⟨ascii "HTTP/1.1\r\nContent-Length: 1\r\n\r\n", by decide, by decide⟩, none,
      some ⟨ascii "ab", by decide, by decide⟩] = .overrun := by
  decide +kernel

/-! ### The end of the header -/

/-- The results of `read_sock_no_wait`, without end. -/
abbrev ReadResults := Nat → ReadResult

/-- The first `n` results. -/
def ReadResults.first (reads : ReadResults) (n : Nat) : List ReadResult := (List.range n).map reads

/-- The bytes of a result. -/
def ReadResult.data : ReadResult → Bytes
  | none => []
  | some buf => buf.bytes

/-- All that has arrived with the first `n` results. -/
def ReadResults.heard (reads : ReadResults) : Nat → Bytes
  | 0 => []
  | n + 1 => reads.heard n ++ (reads n).data

/-- How much of it was there, but for three bytes, at the last result without data. -/
def ReadResults.seen (reads : ReadResults) : Nat → Nat
  | 0 => 0
  | n + 1 => if reads n = none then (reads.heard n).length - 3 else reads.seen n

/-- The result `n` is without data, and a blank line is in the string of what has arrived since
    three bytes before the last result without data. -/
def ReadResults.ShowsBlank (reads : ReadResults) (n : Nat) : Prop :=
  reads n = none ∧ blankLine <:+: cstr ((reads.heard n).drop (reads.seen n))

/-- The result `n` ends the loop that reads the header. -/
def ReadResults.EndsHeader (reads : ReadResults) (n : Nat) : Prop :=
  headersSize - 256 ≤ (reads.heard (n + 1)).length ∨ reads.ShowsBlank n

theorem ReadResults.first_succ (reads : ReadResults) (n : Nat) :
    reads.first (n + 1) = reads.first n ++ [reads n] := by
  unfold ReadResults.first
  rw [List.range_succ, List.map_append]
  rfl

/-- **Step lemma.**  A function that reads the header goes on to do so, with what has arrived in
    its block, unless the result ends the loop. -/
theorem Headers.Holds.next (junk : Nat → UInt8) {reads : ReadResults} {n : Nat} {s : Headers}
    (h : s.Holds (reads.heard n) (reads.seen n)) :
    (¬ reads.EndsHeader n → ∃ s', s.read junk (reads n) = .headers s' ∧
      s'.Holds (reads.heard (n + 1)) (reads.seen (n + 1))) ∧
    (reads.EndsHeader n → (s.read junk (reads n)).Left) := by
  have hheard : reads.heard (n + 1) = reads.heard n ++ (reads n).data := rfl
  have hseen : reads.seen (n + 1)
      = if reads n = none then (reads.heard n).length - 3 else reads.seen n := rfl
  cases hr : reads n with
  | none =>
    -- a turn without data: the function looks for the blank line in what it has
    have hread := h.read_none junk
    have hsame : reads.heard (n + 1) = reads.heard n := by
      rw [hheard, hr]
      exact List.append_nil _
    have hsmall := h.small
    rw [hr, if_pos rfl] at hseen
    constructor
    · intro hend
      rw [if_neg fun hblank => hend (.inr ⟨hr, hblank⟩)] at hread
      rw [hsame, hseen]
      exact hread
    · rintro (hlong | hshows)
      · rw [hsame] at hlong
        omega
      · rw [if_pos hshows.2] at hread
        exact hread
  | some buf =>
    -- a turn with data: it is appended, and not looked at yet
    have hread := h.read_some junk buf
    have hmore : reads.heard (n + 1) = reads.heard n ++ buf.bytes := by
      rw [hheard, hr]
      rfl
    rw [hr, if_neg (Option.some_ne_none buf)] at hseen
    rw [← hmore] at hread
    constructor
    · intro hend
      rw [if_pos (Nat.lt_of_not_le fun hlong => hend (.inl hlong))] at hread
      rw [hseen]
      exact hread
    · rintro (hlong | hshows)
      · rw [if_neg (by omega)] at hread
        exact hread
      · obtain ⟨hnone, -⟩ := hshows
        rw [hr] at hnone
        cases hnone

/-- Once the header is left behind, it is not read again. -/
theorem Post.not_inHeaders_receive {p : Post} (h : ¬ p.InHeaders) (r : ReadResult) :
    ¬ (p.receive junk r).InHeaders := by
  have henter : ∀ s : Body, ¬ s.enter.InHeaders := by
    intro s
    unfold Body.enter
    split <;> exact id
  cases p with
  | headers s => exact absurd trivial h
  | overrun => exact id
  | returned => exact id
  | accepted text => exact id
  | body s =>
    show ¬ (s.read r).InHeaders
    unfold Body.read
    split
    · split
      · exact id
      · dsimp only
        split
        · exact id
        · exact henter _
    · split
      · exact id
      · exact henter _

/-- **Run lemma.**  The function reads the header until some result ends that, and holds what has
    arrived in its block. -/
theorem after_inHeaders (junk : Nat → UInt8) (reads : ReadResults) (n : Nat) :
    ((∀ m < n, ¬ reads.EndsHeader m) ∧ ∃ s, Post.after junk (reads.first n) = .headers s ∧
      s.Holds (reads.heard n) (reads.seen n)) ∨
    ((∃ m < n, reads.EndsHeader m) ∧ ¬ (Post.after junk (reads.first n)).InHeaders) := by
  induction n with
  | zero => exact .inl ⟨nofun, _, rfl, Headers.holds_fresh (length_malloc ..)⟩
  | succ n ih =>
    rw [ReadResults.first_succ, Post.after_append]
    rcases ih with ⟨hnot, s, hs, hholds⟩ | ⟨⟨m, hm, hend⟩, hleft⟩
    · have hnext := hholds.next junk
      rw [hs]
      show (_ ∧ ∃ s', s.read junk (reads n) = .headers s' ∧ _) ∨
        _ ∧ ¬ (s.read junk (reads n)).InHeaders
      by_cases hend : reads.EndsHeader n
      · exact .inr ⟨⟨n, Nat.lt_succ_self n, hend⟩, (hnext.2 hend).not_inHeaders⟩
      · refine .inl ⟨fun m hm => ?_, hnext.1 hend⟩
        rcases Nat.lt_succ_iff_lt_or_eq.mp hm with hlt | rfl
        · exact hnot m hlt
        · exact hend
    · exact .inr ⟨⟨m, Nat.lt_succ_of_lt hm, hend⟩, Post.not_inHeaders_receive hleft _⟩

/-- How long the function reads the header. -/
theorem inHeaders_iff (reads : ReadResults) (n : Nat) :
    (Post.after junk (reads.first n)).InHeaders ↔ ∀ m < n, ¬ reads.EndsHeader m := by
  rcases after_inHeaders junk reads n with ⟨hnot, s, hs, -⟩ | ⟨⟨m, hm, hend⟩, hleft⟩
  · rw [hs]
    exact iff_of_true trivial hnot
  · exact iff_of_false hleft fun hnot => hnot m hm hend

/-- **The end of the header.**  The function stops reading the header exactly if at some point
    1792 bytes have arrived, or a result without data shows a blank line. -/
theorem headers_end_iff (junk : Nat → UInt8) (reads : ReadResults) :
    (∃ n, ¬ (Post.after junk (reads.first n)).InHeaders) ↔
      ∃ n, headersSize - 256 ≤ (reads.heard (n + 1)).length ∨ reads.ShowsBlank n := by
  constructor
  · rintro ⟨n, hleft⟩
    rw [inHeaders_iff] at hleft
    push Not at hleft
    obtain ⟨m, -, hend⟩ := hleft
    exact ⟨m, hend⟩
  · rintro ⟨n, hend⟩
    refine ⟨n + 1, fun hin => ?_⟩
    exact (inHeaders_iff reads (n + 1)).mp hin n (Nat.lt_succ_self n) hend

/-- The client sends some lines of the header and closes the connection. -/
theorem headers_never_end : ∃ reads : ReadResults, (∀ n, 1 ≤ n → reads n = none) ∧
    ∀ n, (Post.after (fun _ => 0) (reads.first n)).InHeaders := by
  let lines : Data := ⟨ascii "HTTP/1.1\r\nContent-Length: 1\r\n", by decide, by decide⟩
  let reads : ReadResults := fun n => if n = 0 then some lines else none
  have hnone : ∀ n, 1 ≤ n → reads n = none := fun n hn => if_neg (by omega)
  have hheard : ∀ n, reads.heard (n + 1) = lines.bytes := by
    intro n
    induction n with
    | zero => rfl
    | succ n ih =>
      show reads.heard (n + 1) ++ (reads (n + 1)).data = lines.bytes
      rw [ih, hnone (n + 1) (by omega)]
      exact List.append_nil _
  have hblank : ¬ blankLine <:+: lines.bytes := by decide
  refine ⟨reads, hnone, fun n => (inHeaders_iff reads n).mpr fun m _ hend => ?_⟩
  rcases hend with hlong | ⟨hidle, hshows⟩
  · rw [hheard] at hlong
    revert hlong
    decide
  · cases m with
    | zero => cases hidle
    | succ m =>
      rw [hheard] at hshows
      apply hblank
      exact hshows.trans ((List.takeWhile_prefix _).isInfix.trans (List.drop_suffix ..).isInfix)

/-! ### Headers without NUL -/

/-- A blank line has four bytes. -/
theorem not_blank_of_short {s : Bytes} (h : s.length < 4) : ¬ blankLine <:+: s := by
  intro hblank
  have hlen : blankLine.length ≤ s.length := hblank.length_le
  have hfour : blankLine.length = 4 := rfl
  omega

/-- A text that shows no blank line, neither in its first `k + 3` bytes nor after `k` bytes, has
    none. -/
theorem not_blank_of_parts {s : Bytes} {k : Nat} (hfirst : ¬ blankLine <:+: s.take (k + 3))
    (hrest : ¬ blankLine <:+: s.drop k) : ¬ blankLine <:+: s := by
  rintro ⟨before, behind, rfl⟩
  by_cases hk : before.length < k
  · -- it ends among the first bytes
    apply hfirst
    have hcut : (before ++ blankLine).length ≤ k + 3 := by
      rw [List.length_append]
      show before.length + 4 ≤ k + 3
      omega
    rw [List.take_append, List.take_of_length_le hcut]
    exact ⟨before, _, rfl⟩
  · apply hrest
    have hcut : k ≤ before.length := by omega
    rw [List.append_assoc, List.drop_append_of_le_length hcut]
    exact ⟨before.drop k, behind, List.append_assoc ..⟩

end ClipShare
