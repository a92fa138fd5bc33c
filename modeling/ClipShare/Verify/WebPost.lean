import ClipShare.Verify.Numbers
import ClipShare.Verify.Web
import ClipShare.Verify.WebReceiver

namespace ClipShare

open Interaction Posix

/-!
# Texts through the web server

A text that is posted arrives whole, however the request is cut up on its way, and is what the next
GET request for the clipboard is answered with.

* `PostRequest` — what a client sends to post a text;
* `endOfHeaders_post` — what the function finds in such a header;
* `PostAt` — where the function stands after a part of such a request;
* `PostAt.receive` — what it does with the next part;
* `web_post`, `web_get` — whole connections;
* `web_round_trip` — a text that was posted is the text that is got.
-/

/-! ### Requests -/

/-- `Content-Length: `. -/
def lengthName : Bytes := ascii "Content-Length: "

/-- The rest of the request line and the lines of the header. -/
def postLines (before after body : Bytes) : Bytes :=
  before ++ (lengthName ++ (decimal body.length ++ after))

/-- What a client sends after the path to post a text: lines with one `Content-Length`, a blank
    line, and the text.  The header is small, and there is no NUL. -/
structure PostRequest where
  before : Bytes
  after : Bytes
  body : Bytes
  nul : (0 : UInt8) ∉ postLines before after body ++ body
  first_length : ¬ lengthName <:+: before ++ lengthName.dropLast
  after_number : ∀ c ∈ after.head?, isDigit c = false
  first_blank : ¬ blankLine <:+: postLines before after body ++ blankLine.dropLast
  small : (postLines before after body).length + 4 ≤ headersSize - 256
  pos : 0 < body.length
  le : body.length ≤ 1048576

namespace PostRequest

variable (r : PostRequest)

def lines : Bytes := postLines r.before r.after r.body

def header : Bytes := r.lines ++ blankLine

/-- All bytes after the path. -/
def wire : Bytes := r.header ++ r.body

theorem zero_not_mem_header : (0 : UInt8) ∉ r.header := by
  have hblank : (0 : UInt8) ∉ blankLine := by decide
  have hlines : (0 : UInt8) ∉ r.lines := fun h => r.nul (List.mem_append_left _ h)
  simp [header, hlines, hblank]

theorem zero_not_mem_body : (0 : UInt8) ∉ r.body := fun h => r.nul (List.mem_append_right _ h)

theorem zero_not_mem_wire : (0 : UInt8) ∉ r.wire := by
  simp [wire, r.zero_not_mem_header, r.zero_not_mem_body]

/-- The text, as the clipboard holds it. -/
def text : Blob := ⟨r.body, by have := r.le; omega⟩

theorem length_header : r.header.length = r.lines.length + 4 := by simp [header, blankLine]

theorem header_le : r.header.length ≤ headersSize - 256 := by
  rw [length_header]
  exact r.small

/-- A text that has a blank line has the whole header. -/
theorem header_prefix {text : Bytes} (htext : text <+: r.wire) (h : blankLine <:+: text) :
    r.header <+: text := by
  rcases List.prefix_or_prefix_of_prefix htext (List.prefix_append r.header r.body) with hle | hle
  · by_contra hne
    -- it would be in what precedes the last byte of the header
    have hlt : text.length < r.header.length :=
      lt_of_le_of_ne hle.length_le fun he => hne (hle.eq_of_length he ▸ List.prefix_rfl)
    have hshort : text <+: r.lines ++ blankLine.dropLast := by
      refine List.prefix_of_prefix_length_le hle ⟨[0x0a], by simp [header, blankLine]⟩ ?_
      rw [length_header] at hlt
      simp only [List.length_append, blankLine, List.length_dropLast, List.length_cons,
        List.length_nil]
      omega
    exact r.first_blank (h.trans hshort.isInfix)
  · exact hle

end PostRequest

/-- What is written as a number is read as this number. -/
theorem decimalValue_decimal (n : Nat) : decimalValue (decimal n) = n := by
  rw [← digitsValue_eq]
  have hread := Http.readNumber_decimal n
  unfold Http.readNumber at hread
  simpa only [digitsValue, Nat.mul_comm] using hread

theorem isDigit_of_mem_decimal {n : Nat} : ∀ b ∈ decimal n, isDigit b = true := by
  intro b hb
  obtain ⟨h1, h2⟩ := mem_decimal hb
  simp [isDigit, h1, h2]

/-- `strtoul` of a number, whatever follows it. -/
theorem strtoul_decimal {n : Nat} {rest : Bytes} (hn : n < 2 ^ 64)
    (hrest : ∀ c ∈ rest.head?, isDigit c = false) : strtoul (decimal n ++ rest) = n := by
  unfold strtoul
  rw [scanNumber_digits (decimal_ne_nil n) isDigit_of_mem_decimal hrest]
  simp only [decimalValue_decimal, Bool.false_eq_true, if_false]
  exact if_neg (by omega)

/-! ### The body -/

variable {r : PostRequest} (junk : Nat → UInt8)

/-- The block holds a part of the text behind the header. -/
structure Body.Carries (r : PostRequest) (part : Bytes) (s : Body) : Prop where
  block : ∃ front free, s.headers = front ++ (part ++ 0 :: free) ∧ front.length = s.headerLen
  dataLen : s.dataLen = r.body.length
  dataEndPtr : s.dataEndPtr = s.headerLen + part.length
  size : s.headers.length = s.headerLen + s.dataLen + 1
  part : part <+: r.body

/-- Only the whole text is accepted. -/
theorem Body.Carries.enter {s : Body} {part : Bytes} (h : s.Carries r part) :
    s.enter = if part.length < r.body.length then .body s else .accepted r.body := by
  obtain ⟨front, free, hblock, hfront⟩ := h.block
  have hreceived : s.received = part.length := by
    unfold Body.received
    rw [h.dataEndPtr, Nat.add_sub_cancel_left]
  unfold Body.enter
  rw [hreceived, h.dataLen]
  split
  · rfl
  · rename_i hlt
    have hwhole : part = r.body := h.part.eq_of_length_le (not_lt.mp hlt)
    rw [hblock, List.drop_left' hfront, hwhole, List.take_left]

/-- More of the text arrives. -/
theorem Body.Carries.read_some {s : Body} {part : Bytes} (h : s.Carries r part) (buf : Data)
    (hpart : part ++ buf.bytes <+: r.body) :
    ∃ s' : Body, s.read (some buf) = s'.enter ∧ s'.Carries r (part ++ buf.bytes) ∧
      s'.cnt = 0 := by
  obtain ⟨front, free, hblock, hfront⟩ := h.block
  have hsize := h.size
  have hle := hpart.length_le
  have hlen := h.dataLen
  rw [hblock] at hsize
  simp only [List.length_append, List.length_cons] at hsize hle
  have hfirst : store s.headers s.dataEndPtr buf.bytes =
      some (front ++ part ++ buf.bytes ++ (0 :: free).drop buf.bytes.length) := by
    have hend : s.dataEndPtr = (front ++ part).length := by
      rw [h.dataEndPtr, List.length_append, hfront]
    rw [hblock, ← List.append_assoc, hend]
    apply store_append
    rw [List.length_cons]
    omega
  have hsecond : store (front ++ part ++ buf.bytes ++ (0 :: free).drop buf.bytes.length)
      (s.dataEndPtr + buf.bytes.length) [0] =
      some (front ++ part ++ buf.bytes ++ [0] ++ ((0 :: free).drop buf.bytes.length).drop 1) := by
    have hend : s.dataEndPtr + buf.bytes.length = (front ++ part ++ buf.bytes).length := by
      rw [h.dataEndPtr, List.length_append, List.length_append, hfront]
    rw [hend]
    apply store_append
    simp only [List.length_drop, List.length_cons, List.length_nil]
    omega
  have hsizes := (length_store hsecond).trans (length_store hfirst)
  refine ⟨_, by simp only [Body.read, hfirst, hsecond]; rfl, ?_, rfl⟩
  exact
    { block := ⟨front, ((0 :: free).drop buf.bytes.length).drop 1, by simp, hfront⟩
      dataLen := hlen
      dataEndPtr := by
        show s.dataEndPtr + buf.bytes.length = s.headerLen + (part ++ buf.bytes).length
        rw [h.dataEndPtr, List.length_append, Nat.add_assoc]
      size := hsizes.trans h.size
      part := hpart }

section endOfHeaders

variable (r : PostRequest) {part : Bytes} (free : Bytes)

/-- The header, with a part of the text behind it, is one string. -/
theorem PostRequest.cstr_block (hpart : part <+: r.body) :
    cstr (r.header ++ part ++ 0 :: free) = r.header ++ part ∧
      (0 : UInt8) ∉ r.header ++ part := by
  have hpart0 : (0 : UInt8) ∉ part := fun h => r.zero_not_mem_body (hpart.subset h)
  have htext0 : (0 : UInt8) ∉ r.header ++ part := by simp [r.zero_not_mem_header, hpart0]
  rw [cstr_append_zero, cstr_of_not_mem htext0]
  exact ⟨rfl, htext0⟩

/-- The line with the length is found. -/
theorem PostRequest.length_found (hpart : part <+: r.body) :
    strstr (r.header ++ part ++ 0 :: free) (ascii "Content-Length: ") = some r.before.length := by
  refine strstr_eq (t := decimal r.body.length ++ (r.after ++ (blankLine ++ part))) (by decide) ?_
    r.first_length
  rw [(r.cstr_block free hpart).1]
  simp [PostRequest.header, PostRequest.lines, postLines, lengthName]

/-- What follows the number in the header does not go on with it. -/
theorem PostRequest.after_digits : ∀ c ∈ (r.after ++ (blankLine ++ part)).head?,
    isDigit c = false := by
  intro c hc
  cases hafter : r.after with
  | nil =>
    rw [hafter] at hc
    obtain rfl : (0x0d : UInt8) = c := by simpa [blankLine] using hc
    decide
  | cons b t =>
    rw [hafter] at hc
    exact r.after_number c (by rw [hafter]; simpa using hc)

/-- The number in it is the length of the text. -/
theorem PostRequest.number_read (hpart : part <+: r.body) :
    strtoul (cstr ((r.header ++ part ++ 0 :: free).drop (r.before.length + 16))) =
      r.body.length := by
  have hdrop : (r.header ++ part ++ 0 :: free).drop (r.before.length + 16) =
      decimal r.body.length ++ (r.after ++ (blankLine ++ part)) ++ 0 :: free := by
    have hsplit : r.header ++ part ++ 0 :: free = (r.before ++ lengthName) ++
        (decimal r.body.length ++ (r.after ++ (blankLine ++ part)) ++ 0 :: free) := by
      simp [PostRequest.header, PostRequest.lines, postLines]
    rw [hsplit]
    exact List.drop_left' (by rw [List.length_append]; rfl)
  have hnul : (0 : UInt8) ∉ decimal r.body.length ++ (r.after ++ (blankLine ++ part)) := by
    intro h0
    refine (r.cstr_block free hpart).2 ?_
    simp only [PostRequest.header, PostRequest.lines, postLines, List.append_assoc]
    exact List.mem_append_right _ (List.mem_append_right _ h0)
  rw [hdrop, cstr_append_zero, cstr_of_not_mem hnul]
  exact strtoul_decimal (by have := r.le; omega) r.after_digits

/-- The end of the header is found. -/
theorem PostRequest.blank_found (hpart : part <+: r.body) :
    strstr (r.header ++ part ++ 0 :: free) blankLine = some r.lines.length := by
  refine strstr_eq (t := part) (by decide) ?_ r.first_blank
  rw [(r.cstr_block free hpart).1]
  simp [PostRequest.header]

/-- The header up to its last byte, which the code turns into a NUL. -/
def PostRequest.front : Bytes := r.lines ++ [0x0d, 0x0a, 0x0d] ++ [0]

theorem PostRequest.length_front : r.front.length = r.lines.length + 4 := by
  simp [PostRequest.front]

/-- The end of the header is marked. -/
theorem PostRequest.end_marked :
    store (r.header ++ part ++ 0 :: free) (r.lines.length + 4 - 1) [0] =
      some (r.front ++ (part ++ 0 :: free)) := by
  have hi : r.lines.length + 4 - 1 = (r.lines ++ [0x0d, 0x0a, 0x0d]).length := by simp
  have hsplit : r.header ++ part ++ 0 :: free =
      (r.lines ++ [0x0d, 0x0a, 0x0d]) ++ (0x0a :: (part ++ 0 :: free)) := by
    simp [PostRequest.header, blankLine]
  rw [hi, hsplit, store_append _ [0] _ (by simp)]
  rfl

/-- The block is made as large as the text needs, and keeps the part of it that is there. -/
theorem PostRequest.enlarged (hpart : part <+: r.body) :
    ∃ free', realloc junk (r.front ++ (part ++ 0 :: free))
      (r.lines.length + 4 + r.body.length + 1) = r.front ++ (part ++ 0 :: free') := by
  have hle := hpart.length_le
  have hfront := r.length_front
  obtain ⟨k, hk⟩ : ∃ k, r.body.length + 1 - part.length = k + 1 :=
    ⟨r.body.length - part.length, by omega⟩
  have hrest : r.lines.length + 4 + r.body.length + 1 - (r.lines.length + 4) =
      r.body.length + 1 := by omega
  unfold realloc
  rw [List.take_append, List.take_of_length_le (by omega), hfront, hrest, List.take_append,
    List.take_of_length_le (by omega), hk, List.take_succ_cons]
  simp only [List.append_assoc, List.cons_append]
  exact ⟨_, rfl⟩

/-- What the function makes of the header, with a part of the text behind it. -/
theorem endOfHeaders_post (hpart : part <+: r.body) :
    ∃ s : Body, endOfHeaders junk (r.header ++ part ++ 0 :: free) = s.enter ∧ s.Carries r part ∧
      s.cnt = 0 := by
  have hpart0 : (0 : UInt8) ∉ part := fun h => r.zero_not_mem_body (hpart.subset h)
  have hle := hpart.length_le
  have hpos := r.pos
  have hmax := r.le
  have hheader := r.length_header
  have hlen : (r.header ++ part ++ 0 :: free).length =
      r.header.length + part.length + (free.length + 1) := by
    simp only [List.length_append, List.length_cons]
  unfold endOfHeaders
  simp only [r.length_found free hpart, r.number_read free hpart, r.blank_found free hpart,
    r.end_marked free]
  rw [if_neg (by omega)]
  refine ⟨_, rfl, ?_, rfl⟩
  -- the text that is there ends at its NUL
  obtain ⟨free', hrealloc⟩ := @PostRequest.enlarged junk r part free hpart
  have hstrnlen : strnlen ((realloc junk (r.front ++ (part ++ 0 :: free))
      (r.lines.length + 4 + r.body.length + 1)).drop (r.lines.length + 4))
      (r.body.length + 1) = part.length := by
    rw [hrealloc, List.drop_left' r.length_front]
    exact (HoldsString.of_not_mem hpart0 _).strnlen_eq (i := 0) (by omega)
  exact
    { block := ⟨_, _, hrealloc, r.length_front⟩
      dataLen := rfl
      dataEndPtr := by rw [hstrnlen]
      size := length_realloc ..
      part := hpart }

end endOfHeaders

/-! ### The header -/

/-- A turn of the loop that reads the header, with data. -/
theorem Headers.Holds.read_some_eq {text : Bytes} {seen : Nat} {s : Headers} (h : s.Holds text seen)
    (buf : Data) :
    ∃ free, (text ++ buf.bytes ++ 0 :: free).length = headersSize ∧
      s.read junk (some buf) =
        if headersSize - 256 ≤ (text ++ buf.bytes).length then
          endOfHeaders junk (text ++ buf.bytes ++ 0 :: free)
        else .headers
          { s with
            headers := text ++ buf.bytes ++ 0 :: free
            ptr := (text ++ buf.bytes).length
            cnt := 0 } := by
  obtain ⟨free, hblock⟩ := h.block
  have hle := buf.le
  have hsmall := h.small
  have hsize : headersSize = 2048 := rfl
  have hlen : text.length + (free.length + 1) = headersSize := by
    rw [← h.size, hblock, List.length_append, List.length_cons]
  have hfirst : store s.headers s.ptr buf.bytes
      = some (text ++ buf.bytes ++ (0 :: free).drop buf.bytes.length) := by
    rw [hblock, h.ptr]
    apply store_append
    rw [List.length_cons]
    omega
  have hend : s.ptr + buf.bytes.length = (text ++ buf.bytes).length := by
    rw [h.ptr, List.length_append]
  have hsecond : store (text ++ buf.bytes ++ (0 :: free).drop buf.bytes.length)
      (text ++ buf.bytes).length [0]
        = some (text ++ buf.bytes ++ [0] ++ ((0 :: free).drop buf.bytes.length).drop 1) := by
    refine store_append _ [0] _ ?_
    simp only [List.length_drop, List.length_cons, List.length_nil]
    omega
  have hsizes := (length_store hsecond).trans (length_store hfirst)
  rw [List.append_assoc (text ++ buf.bytes) [0]] at hsecond hsizes
  refine ⟨_, hsizes.trans h.size, ?_⟩
  simp only [Headers.read, hfirst, hend, hsecond]
  rfl

/-- A turn without data. -/
theorem Headers.Holds.read_none_eq {text : Bytes} {seen : Nat} {s : Headers} (h : s.Holds text seen)
    (h0 : (0 : UInt8) ∉ text) :
    ∃ free, s.headers = text ++ 0 :: free ∧ s.read junk none =
      if blankLine <:+: text.drop seen then endOfHeaders junk (text ++ 0 :: free)
      else .headers { s with check := text.length - 3 } := by
  obtain ⟨free, hblock⟩ := h.block
  refine ⟨free, hblock, ?_⟩
  have hcstr : cstr (s.headers.drop s.check) = text.drop seen := by
    rw [hblock, h.check, List.drop_append_of_le_length h.seen_le, cstr_append_zero,
      cstr_of_not_mem fun hmem => h0 (List.mem_of_mem_drop hmem)]
  simp only [Headers.read, h.cnt, if_true, strstr_isSome_iff, hcstr, h.ptr]
  rw [hblock]

/-! ### The request, part by part -/

/-- The next results without data, after `cnt` of them, are not too many for the server. -/
def Patient (cnt : Nat) (arrivals : List Nat) : Prop :=
  ¬ List.replicate 52 0 <:+: List.replicate cnt 0 ++ arrivals

theorem Patient.cnt_le {cnt : Nat} {arrivals : List Nat} (h : Patient cnt (0 :: arrivals)) :
    cnt ≤ 50 := by
  by_contra hlt
  apply h
  have hsplit : List.replicate cnt 0 ++ 0 :: arrivals =
      List.replicate (cnt - 51) 0 ++ List.replicate 52 0 ++ arrivals := by
    rw [← List.replicate_add, show cnt - 51 + 52 = cnt + 1 by omega, List.replicate_succ']
    simp
  rw [hsplit]
  exact List.infix_append ..

theorem Patient.idle {cnt : Nat} {arrivals : List Nat} (h : Patient cnt (0 :: arrivals)) :
    Patient (cnt + 1) arrivals := by
  have hsucc : List.replicate (cnt + 1) 0 ++ arrivals = List.replicate cnt 0 ++ 0 :: arrivals := by
    rw [List.replicate_succ', List.append_assoc, List.singleton_append]
  unfold Patient at h ⊢
  rwa [hsucc]

theorem Patient.tail {cnt : Nat} {arrivals : List Nat} (h : Patient cnt arrivals) :
    Patient 0 arrivals.tail := fun hzeros =>
  h (hzeros.trans ((List.tail_suffix _).isInfix.trans (List.suffix_append _ _).isInfix))

/-- Where the function stands when a part of the request has arrived. -/
inductive PostAt (r : PostRequest) : Post → WebHost → Prop
  | headers {s : Headers} {h : WebHost} {text : Bytes} {seen : Nat} (holds : s.Holds text seen)
      (unseen : ¬ blankLine <:+: text.take (seen + 3)) (le : seen = 0 ∨ seen + 3 ≤ text.length)
      (wire : text ++ h.input = r.wire) (patient : Patient 0 h.arrivals) : PostAt r (.headers s) h
  | body {s : Body} {h : WebHost} {part : Bytes} (carries : s.Carries r part)
      (lt : part.length < r.body.length) (rest : part ++ h.input = r.body)
      (patient : Patient s.cnt h.arrivals) : PostAt r (.body s) h
  | accepted {h : WebHost} (rest : h.input = []) : PostAt r (.accepted r.body) h

/-- The loop of the body is entered only if a part of the text is missing. -/
theorem Body.Carries.at_enter {s : Body} {part : Bytes} {h : WebHost} (hs : s.Carries r part)
    (hrest : part ++ h.input = r.body) (hp : Patient s.cnt h.arrivals) : PostAt r s.enter h := by
  rw [hs.enter]
  split
  · rename_i hlt
    exact .body hs hlt hrest hp
  · rename_i hlt
    refine .accepted ?_
    have hlen := congrArg List.length hrest
    rw [List.length_append] at hlen
    exact List.length_eq_zero_iff.mp (by omega)

/-- What follows the header, once all of it has arrived. -/
theorem at_endOfHeaders {text : Bytes} (free : Bytes) {h : WebHost}
    (htext : text ++ h.input = r.wire)
    (hheader : r.header <+: text) (hp : Patient 0 h.arrivals) :
    PostAt r (endOfHeaders junk (text ++ 0 :: free)) h := by
  obtain ⟨part, rfl⟩ := hheader
  have hrest : part ++ h.input = r.body := by
    rw [PostRequest.wire, List.append_assoc] at htext
    exact List.append_cancel_left htext
  obtain ⟨s, hs, hcarries, hcnt⟩ := endOfHeaders_post junk r free ⟨_, hrest⟩
  rw [hs]
  exact hcarries.at_enter hrest (hcnt.symm ▸ hp)

/-- How much there is to do. -/
def WebHost.todo (h : WebHost) : Nat := h.input.length + h.arrivals.length

/-- What `read_sock_no_wait` finds. -/
theorem WebHost.readSockNoWait_cases (h : WebHost) (size : Nat) (hsize : 0 < size) :
    (∃ data hd rest, h.input = data ++ rest ∧ h.readSockNoWait size =
      (some ⟨data, hd⟩, { h with input := rest, arrivals := h.arrivals.tail })) ∨
    (h.readSockNoWait size = (none, { h with arrivals := h.arrivals.tail }) ∧
      (h.input = [] ∨ ∃ rest, h.arrivals = 0 :: rest)) := by
  unfold WebHost.readSockNoWait
  dsimp only
  split
  · rename_i hpos
    have hle := (List.length_take_le (min size h.arrived) h.input).trans (Nat.min_le_left ..)
    exact .inl ⟨_, ⟨hpos, hle⟩, _, (List.take_append_drop _ _).symm, rfl⟩
  · rename_i hnone
    have hzero : (h.input.take (min size h.arrived)).length = 0 := by omega
    rw [List.length_take] at hzero
    right
    by_cases hinput : h.input = []
    · simp [hinput]
    · have hpos := List.length_pos_iff.mpr hinput
      have harrived : h.arrived = 0 := by omega
      unfold WebHost.arrived at harrived
      cases harr : h.arrivals with
      | nil =>
        rw [harr] at harrived
        exact absurd harrived hpos.ne'
      | cons n rest =>
        rw [harr] at harrived
        obtain rfl : n = 0 := harrived
        simp [WebHost.arrived, harr]

/-- The function is not at its end. -/
def Post.Reads : Post → Prop
  | .headers _ => True
  | .body _ => True
  | _ => False

/-- In the loop of the body, something is missing. -/
theorem PostAt.not_body {s : Body} {h : WebHost} (hat : PostAt r (.body s) h) : h.input ≠ [] := by
  cases hat with
  | body carries lt rest patient =>
    intro hinput
    rw [hinput, List.append_nil] at rest
    rw [rest] at lt
    exact lt_irrefl _ lt

/-- When all has arrived and the header is left behind, the text is accepted. -/
theorem PostAt.accepted_of_left {p : Post} {h : WebHost} (hat : PostAt r p h)
    (hleft : ¬ p.InHeaders) (hinput : h.input = []) : p = .accepted r.body := by
  cases hat with
  | headers => exact absurd trivial hleft
  | body carries lt rest patient =>
    exact absurd hinput (PostAt.not_body (.body carries lt rest patient))
  | accepted => rfl

/-- **Step lemma, with data.** -/
theorem PostAt.receive_some {p : Post} {h : WebHost} (hat : PostAt r p h) (hreads : p.Reads)
    (buf : Data) {rest : Bytes} (hinput : h.input = buf.bytes ++ rest) :
    PostAt r (p.receive junk (some buf))
      { h with input := rest, arrivals := h.arrivals.tail } := by
  cases hat with
  | @headers s _ text seen holds unseen le wire patient =>
    obtain ⟨free, hsize, hread⟩ := holds.read_some_eq junk buf
    have hwire : (text ++ buf.bytes) ++ rest = r.wire := by
      rw [← wire, hinput, List.append_assoc]
    show PostAt r (s.read junk (some buf)) _
    rw [hread]
    split
    · -- there is no room for another read
      rename_i hlong
      refine at_endOfHeaders junk _ hwire ?_ patient.tail
      exact List.prefix_of_prefix_length_le (List.prefix_append _ _) ⟨_, hwire⟩
        (r.header_le.trans hlong)
    · rename_i hroom
      have hseen := holds.seen_le
      have hholds : Headers.Holds (text ++ buf.bytes) seen
          { s with
            headers := text ++ buf.bytes ++ 0 :: free
            ptr := (text ++ buf.bytes).length
            cnt := 0 } :=
        { ptr := rfl
          check := holds.check
          seen_le := by
            rw [List.length_append]
            omega
          cnt := rfl
          small := not_le.mp hroom
          size := hsize
          block := ⟨free, rfl⟩ }
      refine .headers hholds ?_ ?_ hwire patient.tail
      · rcases le with hzero | hle
        · apply not_blank_of_short
          rw [List.length_take, hzero]
          omega
        · rwa [List.take_append_of_le_length hle]
      · rw [List.length_append]
        omega
  | @body s _ part carries lt hrest patient =>
    have hmore : part ++ buf.bytes ++ rest = r.body := by
      rw [← hrest, hinput, List.append_assoc]
    obtain ⟨s', hs', hcarries, hcnt⟩ := carries.read_some buf ⟨_, hmore⟩
    show PostAt r (s.read (some buf)) _
    rw [hs']
    exact hcarries.at_enter hmore (hcnt.symm ▸ patient.tail)
  | accepted => exact hreads.elim

/-- **Step lemma, without data.**  If nothing is on its way any more, the request is accepted. -/
theorem PostAt.receive_none {p : Post} {h : WebHost} (hat : PostAt r p h) (hreads : p.Reads)
    (hnone : h.input = [] ∨ ∃ rest, h.arrivals = 0 :: rest) :
    PostAt r (p.receive junk none) { h with arrivals := h.arrivals.tail } ∧
      (h.input = [] → p.receive junk none = .accepted r.body) := by
  cases hat with
  | @headers s _ text seen holds unseen le wire patient =>
    have htext0 : (0 : UInt8) ∉ text := fun h0 =>
      r.zero_not_mem_wire (wire ▸ List.mem_append_left _ h0)
    obtain ⟨free, hblock, hread⟩ := holds.read_none_eq junk htext0
    have hpart : text <+: r.wire := ⟨_, wire⟩
    show PostAt r (s.read junk none) _ ∧ (_ → s.read junk none = _)
    rw [hread]
    split
    · rename_i hblank
      have hheader := r.header_prefix hpart (hblank.trans (List.drop_suffix ..).isInfix)
      have hnext := at_endOfHeaders junk free
        (h := { h with arrivals := h.arrivals.tail }) wire hheader patient.tail
      exact ⟨hnext, hnext.accepted_of_left (endOfHeaders_left _).not_inHeaders⟩
    · rename_i hblank
      have hno := not_blank_of_parts unseen hblank
      refine ⟨?_, fun hinput => ?_⟩
      · have hholds : Headers.Holds text (text.length - 3) { s with check := text.length - 3 } :=
          { holds with check := rfl, seen_le := Nat.sub_le .. }
        refine .headers hholds ?_ (by omega) wire patient.tail
        exact fun hin => hno (hin.trans (List.take_prefix ..).isInfix)
      · -- the whole request has a blank line
        rw [hinput, List.append_nil] at wire
        refine absurd ?_ hno
        rw [wire]
        exact ⟨r.lines, r.body, by simp [PostRequest.wire, PostRequest.header]⟩
  | @body s _ part carries lt hrest patient =>
    have hinput : h.input ≠ [] := PostAt.not_body (.body carries lt hrest patient)
    obtain ⟨rest, harr⟩ := hnone.resolve_left hinput
    refine ⟨?_, fun hnil => absurd hnil hinput⟩
    rw [harr] at patient ⊢
    show PostAt r (if s.cnt > 50 then .returned else Body.enter { s with cnt := s.cnt + 1 }) _
    rw [if_neg (not_lt.mpr patient.cnt_le)]
    have hcarries : ({ s with cnt := s.cnt + 1 } : Body).Carries r part := { carries with }
    exact hcarries.at_enter hrest patient.idle
  | accepted => exact hreads.elim

/-- **Run lemma.**  The function reads the request to its end and accepts the text. -/
theorem answerPost_run (fuel : Nat) {p : Post} {h : WebHost} (hat : PostAt r p h)
    (hfuel : p = .accepted r.body ∨ h.todo < fuel) :
    ∃ arrivals, (answerPost junk fuel p).run respondWeb h =
      (some (some (.noContent r.body)), { h with input := [], arrivals }) := by
  have haccepted : ∀ {fuel : Nat} {h : WebHost}, h.input = [] → ∃ arrivals,
      (answerPost junk fuel (.accepted r.body)).run respondWeb h =
        (some (some (.noContent r.body)), { h with input := [], arrivals }) := by
    intro fuel h hinput
    refine ⟨h.arrivals, ?_⟩
    rw [← hinput]
    cases fuel <;> rfl
  induction fuel generalizing p h with
  | zero =>
    rcases hfuel with rfl | hfuel
    · cases hat with
      | accepted rest => exact haccepted rest
    · omega
  | succ fuel ih =>
    by_cases hreads : p.Reads
    · have hstep : (answerPost junk (fuel + 1) p).run respondWeb h =
          (answerPost junk fuel (p.receive junk ((h.readSockNoWait 256).1.map
              fun data => ⟨data.1, data.2.1, data.2.2⟩))).run respondWeb
            (h.readSockNoWait 256).2 := by
        cases p with
        | headers | body => rfl
        | overrun | returned | accepted => exact hreads.elim
      have htodo : h.todo < fuel + 1 := by
        rcases hfuel with rfl | hfuel
        · exact hreads.elim
        · exact hfuel
      rw [hstep]
      rcases h.readSockNoWait_cases 256 (by omega) with
        ⟨data, hd, rest, hinput, hfound⟩ | ⟨hfound, hnone⟩
      · rw [hfound]
        have hlen := congrArg List.length hinput
        rw [List.length_append] at hlen
        have htail := List.length_tail (l := h.arrivals)
        refine ih (hat.receive_some junk hreads ⟨data, hd.1, hd.2⟩ hinput) (.inr ?_)
        have hpos := hd.1
        simp only [WebHost.todo] at htodo ⊢
        omega
      · rw [hfound]
        obtain ⟨hnext, hdone⟩ := hat.receive_none junk hreads hnone
        refine ih hnext ?_
        rcases hnone with hinput | ⟨rest, harr⟩
        · exact .inl (hdone hinput)
        · right
          simp only [WebHost.todo, harr, List.length_cons, List.tail_cons] at htodo ⊢
          omega
    · cases hat with
      | accepted rest => exact haccepted rest
      | headers | body => exact absurd trivial hreads

/-! ### Connections -/

theorem readWordFrom_run {word rest : Bytes} (hword : (0x20 : UInt8) ∉ word) {left : Nat}
    (hleft : word.length < left) (seen : Bytes) {h : WebHost}
    (hinput : h.input = word ++ 0x20 :: rest) :
    (Web.readWordFrom left seen).run respondWeb h =
      (some (some (seen ++ word)), { h with input := rest }) := by
  induction word generalizing left seen h with
  | nil =>
    obtain ⟨left, rfl⟩ := Nat.exists_eq_add_one_of_ne_zero (by omega : left ≠ 0)
    simp only [Web.readWordFrom, Web.readSock, Prog.ask_bind, Prog.run_call, respondWeb, hinput, id]
    simp
  | cons b word ih =>
    obtain ⟨left, rfl⟩ := Nat.exists_eq_add_one_of_ne_zero (by omega : left ≠ 0)
    have hb : b ≠ 0x20 := fun hb => hword (hb ▸ List.mem_cons_self)
    simp only [Web.readWordFrom, Web.readSock, Prog.ask_bind, Prog.run_call, respondWeb, hinput, id,
      List.cons_append, List.head?_cons, List.tail_cons, if_neg hb]
    rw [ih (fun hmem => hword (.tail _ hmem)) (by simpa using hleft) (seen ++ [b]) rfl]
    simp

/-- A word that fits its buffer, with the space behind it. -/
theorem readWord_run {word rest : Bytes} (hword : (0x20 : UInt8) ∉ word) {size : Nat}
    (hsize : word.length < size) {h : WebHost} (hinput : h.input = word ++ 0x20 :: rest) :
    (Web.readWord size).run respondWeb h = (some (some word), { h with input := rest }) :=
  readWordFrom_run hword hsize [] hinput

/-- What is sent to a client that takes it. -/
theorem sendAll_run (pieces : List Bytes) {h : WebHost} (hroom : pieces.flatten.length ≤ h.room) :
    (sendAll pieces).run respondWeb h =
      (some .success, { h with
        sent := h.sent ++ pieces.flatten, room := h.room - pieces.flatten.length }) := by
  induction pieces generalizing h with
  | nil => simp [sendAll]
  | cons data pieces ih =>
    rw [List.flatten_cons, List.length_append] at hroom
    have hdata : respondWeb (.writeSock data) h =
        (.success, { h with sent := h.sent ++ data, room := h.room - data.length }) :=
      if_pos (by omega)
    simp only [sendAll, Web.writeSock, Prog.ask_bind, Prog.run_call, hdata, id, ne_eq,
      not_true_eq_false, if_false]
    rw [ih (by show _ ≤ h.room - data.length; omega)]
    simp [Nat.sub_sub]

/-- The host when an answer was sent. -/
def WebHost.answered (h : WebHost) (response : Http.Response) : WebHost :=
  { h with sent := h.sent ++ response.render, room := h.room - response.render.length }

/-- An answer is sent to a client that takes it. -/
theorem sendAnswer_run (page : Page) (a : Answer) {h : WebHost}
    (hroom : (a.response page).render.length ≤ h.room) :
    (sendAnswer page (some a)).run respondWeb h =
      (finish a .success).run respondWeb (h.answered (a.response page)) := by
  have hsend := sendAll_run (a.pieces page) (h := h) (by rwa [a.pieces_flatten])
  rw [a.pieces_flatten] at hsend
  show (sendAll (a.pieces page) >>= finish a).run respondWeb h = _
  rw [Prog.run_bind_of_some _ hsend]
  rfl

/-- The answer that a GET request for a path is due. -/
def WebHost.due (h : WebHost) (path : Bytes) : Answer :=
  if path = ascii "/" then .page
  else if path = ascii "/clip" then
    match h.clipboard with
    | none => .error
    | some clip => if clip.data = [] then .error else .text clip
  else if path = ascii "/img" then
    match h.image with
    | none => .notFound
    | some clip => if clip.data = [] then .notFound else .image clip
  else .notFound

/-- What follows the request line is read until nothing is found. -/
theorem discardRequest_run {fuel : Nat} {h : WebHost} (hfuel : h.todo < fuel) :
    ∃ input arrivals, (Web.discardRequest fuel).run respondWeb h =
      (some (), { h with input, arrivals }) := by
  induction fuel generalizing h with
  | zero => omega
  | succ fuel ih =>
    simp only [Web.discardRequest, Web.readSockNoWait, Prog.ask_bind, Prog.run_call, respondWeb, id]
    rcases h.readSockNoWait_cases 128 (by omega) with
      ⟨data, hd, rest, hinput, hfound⟩ | ⟨hfound, -⟩
    · rw [hfound]
      have hlen := congrArg List.length hinput
      rw [List.length_append] at hlen
      have htail := List.length_tail (l := h.arrivals)
      have hpos := hd.1
      refine ih (h := { h with input := rest, arrivals := h.arrivals.tail }) ?_
      simp only [WebHost.todo] at hfuel ⊢
      omega
    · rw [hfound]
      exact ⟨_, _, rfl⟩

/-- The answer to a GET request is the one that is due. -/
theorem answerGet_run {fuel : Nat} (path : Bytes) {h : WebHost} (hfuel : h.todo < fuel) :
    ∃ input arrivals, (answerGet fuel path).run respondWeb h =
      (some (some (h.due (cstr path))), { h with input, arrivals }) := by
  obtain ⟨input, arrivals, hrun⟩ := discardRequest_run hfuel
  refine ⟨input, arrivals, ?_⟩
  unfold answerGet
  rw [Prog.run_bind_of_some _ hrun]
  unfold WebHost.due
  split_ifs with hroot hclip himg
  · rfl
  · cases h.clipboard with
    | none => simp [Web.getClipboardText, respondWeb]
    | some clip =>
      simp only [Web.getClipboardText, Prog.ask_bind, Prog.run_call, respondWeb, id]
      split <;> rfl
  · cases h.image with
    | none => simp [Web.getImage, respondWeb]
    | some clip =>
      simp only [Web.getImage, Prog.ask_bind, Prog.run_call, respondWeb, id]
      split <;> rfl
  · rfl

/-- The request line. -/
theorem chooseAnswer_run (fuel : Nat) {method path rest : Bytes} {h : WebHost}
    (hinput : h.input = method ++ 0x20 :: (path ++ 0x20 :: rest))
    (hmethod : (0x20 : UInt8) ∉ method ∧ method.length < 8)
    (hpath : (0x20 : UInt8) ∉ path ∧ path.length < 2049) :
    (chooseAnswer junk fuel).run respondWeb h =
      (if cstr method = ascii "GET" then answerGet fuel path
        else if cstr method = ascii "POST" then answerPost junk fuel (Post.start junk)
        else .ret none).run respondWeb { h with input := rest } := by
  unfold chooseAnswer
  rw [Prog.run_bind_of_some _ (readWord_run hmethod.1 hmethod.2 hinput)]
  dsimp only
  rw [Prog.run_bind_of_some _ (readWord_run hpath.1 hpath.2 rfl)]
  rfl

/-- **GET.**  A connection with a GET request gets the answer that is due, and nothing changes. -/
theorem web_get (page : Page) {fuel : Nat} (path rest : Bytes) {h : WebHost}
    (hinput : h.input = ascii "GET " ++ (path ++ 0x20 :: rest)) (hspace : (0x20 : UInt8) ∉ path)
    (hlen : path.length < 2049) (hfuel : rest.length + h.arrivals.length < fuel)
    (hroom : ((h.due (cstr path)).response page).render.length ≤ h.room) :
    ∃ input arrivals, (receiverWeb page junk fuel).run respondWeb h =
      (some (), { h.answered ((h.due (cstr path)).response page) with input, arrivals }) := by
  have hline : h.input = ascii "GET" ++ 0x20 :: (path ++ 0x20 :: rest) := hinput
  have hanswer := chooseAnswer_run junk fuel hline ⟨by decide, by decide⟩ ⟨hspace, hlen⟩
  have hget : cstr (ascii "GET") = ascii "GET" := by decide
  obtain ⟨input, arrivals, hrun⟩ := answerGet_run path (h := { h with input := rest }) hfuel
  rw [if_pos hget, hrun] at hanswer
  refine ⟨input, arrivals, ?_⟩
  rw [receiverWeb_eq, Prog.run_bind_of_some _ hanswer]
  have hreply := sendAnswer_run page (h.due (cstr path))
    (h := { h with input := input, arrivals := arrivals }) hroom
  have hdone : finish (h.due (cstr path)) .success = .ret () := by
    unfold WebHost.due
    split_ifs
    · rfl
    · cases h.clipboard with
      | none => rfl
      | some clip =>
        dsimp only
        split <;> rfl
    · cases h.image with
      | none => rfl
      | some clip =>
        dsimp only
        split <;> rfl
    · rfl
  rw [hdone] at hreply
  exact hreply

/-- **POST.**  However a POST request is cut up on its way, if it is not interrupted for long, its
    text is stored, and the client is told so. -/
theorem web_post (page : Page) (r : PostRequest) {fuel : Nat} {path : Bytes} {h : WebHost}
    (hinput : h.input = ascii "POST " ++ (path ++ 0x20 :: r.wire)) (hspace : (0x20 : UInt8) ∉ path)
    (hlen : path.length < 2049) (hfuel : r.wire.length + h.arrivals.length < fuel)
    (hpatient : Patient 0 h.arrivals)
    (hroom : ((Answer.noContent r.body).response page).render.length ≤ h.room) :
    ∃ arrivals, (receiverWeb page junk fuel).run respondWeb h =
      (some (), { h.answered ((Answer.noContent r.body).response page) with
        input := [], arrivals, clipboard := some r.text }) := by
  have hline : h.input = ascii "POST" ++ 0x20 :: (path ++ 0x20 :: r.wire) := hinput
  have hanswer := chooseAnswer_run junk fuel hline ⟨by decide, by decide⟩ ⟨hspace, hlen⟩
  have hpost : cstr (ascii "POST") = ascii "POST" := by decide
  have hget : ¬ cstr (ascii "POST") = ascii "GET" := by decide
  have hstart : PostAt r (Post.start junk) { h with input := r.wire } := by
    refine .headers (Headers.holds_fresh (length_malloc ..)) ?_ (.inl rfl) rfl hpatient
    exact not_blank_of_short (by decide)
  obtain ⟨arrivals, hrun⟩ := answerPost_run junk fuel hstart (.inr hfuel)
  rw [if_neg hget, if_pos hpost, hrun] at hanswer
  refine ⟨arrivals, ?_⟩
  rw [receiverWeb_eq, Prog.run_bind_of_some _ hanswer]
  have hreply := sendAnswer_run page (.noContent r.body)
    (h := { h with input := [], arrivals := arrivals }) hroom
  have hstored (h : WebHost) : respondWeb (.putClipboardText r.body) h =
      (.success, { h with clipboard := some r.text }) := dif_pos r.text.lt
  rw [hreply]
  simp only [finish, Web.putClipboardText, Prog.ask_bind, Prog.run_call, hstored]
  rfl

/-- **Round trip.**  A text that was posted is the text that the next GET request is answered with,
    whatever cuts up the two requests on their way. -/
theorem web_round_trip (page : Page) (r : PostRequest) (path : Bytes) (fuel : Nat) (h : WebHost)
    (hinput : h.input = ascii "POST " ++ (path ++ 0x20 :: r.wire)) (hspace : (0x20 : UInt8) ∉ path)
    (hlen : path.length < 2049) (hfuel : r.wire.length + h.arrivals.length < fuel)
    (hpatient : Patient 0 h.arrivals) (hsent : h.sent = [])
    (hroom : ((Answer.noContent r.body).response page).render.length ≤ h.room) :
    ∃ h', (receiverWeb page junk fuel).run respondWeb h = (some (), h') ∧
      Http.parse h'.sent = some ((Answer.noContent r.body).response page) ∧
      ∀ (rest : Bytes) (arrivals : List Nat) (fuel room : Nat),
        rest.length + arrivals.length < fuel →
        ((Answer.text r.text).response page).render.length ≤ room →
        ∃ h'', (receiverWeb page junk fuel).run respondWeb { h' with
            input := ascii "GET /clip " ++ rest, arrivals, sent := [], room } = (some (), h'') ∧
          Http.parse h''.sent = some ((Answer.text r.text).response page) := by
  obtain ⟨arrivals, hpost⟩ := web_post junk page r hinput hspace hlen hfuel hpatient hroom
  refine ⟨_, hpost, ?_, fun rest arrivals fuel room hfuel hroom => ?_⟩
  · show Http.parse (h.sent ++ _) = _
    rw [hsent, List.nil_append, Http.parse_render]
  · have hbody : r.text.data ≠ [] := List.length_pos_iff.mp r.pos
    have hclip : cstr (ascii "/clip") = ascii "/clip" := by decide
    have hne : ¬ ascii "/clip" = ascii "/" := by decide
    obtain ⟨h₂, hh₂⟩ : ∃ h₂ : WebHost, h₂ =
      { h.answered ((Answer.noContent r.body).response page) with
      input := ascii "GET /clip " ++ rest, arrivals, sent := [], room, clipboard := some r.text } :=
        ⟨_, rfl⟩
    have hdue : h₂.due (cstr (ascii "/clip")) = .text r.text := by
      rw [hh₂, hclip, WebHost.due, if_neg hne, if_pos rfl]
      exact if_neg hbody
    obtain ⟨input, arrivals', hget⟩ := web_get junk page (ascii "/clip") rest (h := h₂)
      (by rw [hh₂]; rfl) (by decide) (by decide)
      (by rw [hh₂]; exact hfuel) (by rw [hdue, hh₂]; exact hroom)
    rw [hdue] at hget
    exact ⟨_, hh₂ ▸ hget, Http.parse_render _⟩

/-- A request that posts a short text. -/
def postHello : PostRequest where
  before := ascii "HTTP/1.1\r\n"
  after := []
  body := ascii "Hello"
  nul := by decide
  first_length := by decide
  after_number := by simp
  first_blank := by decide
  small := by decide
  pos := by decide
  le := by decide

/-- The client of the request; the request arrives in parts. -/
def helloHost : WebHost where
  input := ascii "POST /clip " ++ postHello.wire
  arrivals := [7, 0, 100, 0, 0]
  room := 1000
  sent := []
  clipboard := none
  image := none

/-- The text is posted, and the next client gets it. -/
theorem web_round_trip_hello : ∃ h' h'',
    (receiverWeb ⟨[], by decide⟩ (fun _ => 0) 200).run respondWeb helloHost = (some (), h') ∧
      Http.parse h'.sent =
        some ((Answer.noContent postHello.body).response ⟨[], by decide⟩) ∧
      (receiverWeb ⟨[], by decide⟩ (fun _ => 0) 20).run respondWeb { h' with
        input := ascii "GET /clip " ++ ascii "HTTP/1.1\r\n", arrivals := [3, 2], sent := [],
        room := 1000 } = (some (), h'') ∧
      Http.parse h''.sent = some ((Answer.text postHello.text).response ⟨[], by decide⟩) := by
  obtain ⟨h', hrun, hparse, hget⟩ := web_round_trip (fun _ => 0) ⟨[], by decide⟩
    postHello (ascii "/clip") 200 helloHost (by decide) (by decide) (by decide) (by decide)
    (by unfold Patient; decide) rfl (by decide)
  obtain ⟨h'', hrun', hparse'⟩ := hget (ascii "HTTP/1.1\r\n") [3, 2] 20 1000 (by decide) (by decide)
  exact ⟨h', h'', hrun, hparse, hrun', hparse'⟩

end ClipShare
