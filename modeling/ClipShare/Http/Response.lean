import ClipShare.Posix.Strings

namespace Http

open Posix

/-!
# Responses of HTTP/1.0

A response as a value, its form on the wire, and what a client reads out of the bytes that it got
until the connection was closed.

* `Field` / `Response` — values that have a form on the wire: no line has a newline in it, and an
  announced length is the length of the body;
* `Response.render` — the bytes of a response;
* `takeLine`, `parseField`, `parseFields`, `parseStatus`, `parse` — what a client reads;
* `parse_render` — a client reads the response that was sent;
* `parse_prefix` — of a response that was cut off, nothing is read.
-/

/-- The end of a line. -/
def crlf : Bytes := [0x0d, 0x0a]

/-! ### Responses -/

/-- A field of the header. -/
structure Field where
  name : Bytes
  value : Bytes
  colon : (0x3a : UInt8) ∉ name
  name_line : (0x0a : UInt8) ∉ name
  value_line : (0x0a : UInt8) ∉ value
  deriving DecidableEq

def Field.render (f : Field) : Bytes := f.name ++ ascii ": " ++ f.value

/-- The number that decimal digits write. -/
def readNumber (ds : Bytes) : Nat := ds.foldl (fun n b => 10 * n + (b.toNat - 0x30)) 0

/-- The announced length of the body. -/
def contentLength (fields : List Field) : Option Nat :=
  (fields.find? fun f => f.name = ascii "Content-Length").map fun f => readNumber f.value

/-- A response whose body is as long as announced. -/
structure Response where
  code : Nat
  reason : Bytes
  fields : List Field
  body : Bytes
  reason_line : (0x0a : UInt8) ∉ reason
  framed : ∀ n ∈ contentLength fields, body.length = n
  deriving DecidableEq

namespace Response

/-- A body is announced. -/
def Announced (r : Response) : Prop := contentLength r.fields = none → r.body = []

def statusLine (r : Response) : Bytes :=
  ascii "HTTP/1.0 " ++ (decimal r.code ++ 0x20 :: r.reason)

/-- What precedes the body: the lines of the header, each with its end, and an empty line. -/
def header (r : Response) : Bytes :=
  r.statusLine ++ crlf ++ (r.fields.flatMap fun f => f.render ++ crlf) ++ crlf

/-- The bytes of a response. -/
def render (r : Response) : Bytes := r.header ++ r.body

end Response

/-! ### Reading -/

/-- The first line, and what follows it. -/
def takeLine (s : Bytes) : Option (Bytes × Bytes) :=
  let line := s.takeWhile (· ≠ 0x0a)
  match s.dropWhile (· ≠ 0x0a) with
  | [] => none
  | _ :: rest => if line.getLast? = some 0x0d then some (line.dropLast, rest) else none

def parseField (line : Bytes) : Option Field :=
  let name := line.takeWhile (· ≠ 0x3a)
  let rest := line.dropWhile (· ≠ 0x3a)
  if h : ascii ": " <+: rest ∧ (0x0a : UInt8) ∉ name ∧ (0x0a : UInt8) ∉ rest.drop 2 then
    some
      { name, value := rest.drop 2
        colon := fun hmem => by simpa using List.mem_takeWhile_imp hmem
        name_line := h.2.1, value_line := h.2.2 }
  else none

/-- The fields up to the empty line, and what follows it. -/
def parseFields : Nat → Bytes → Option (List Field × Bytes)
  | 0, _ => none
  | fuel + 1, s =>
    match takeLine s with
    | none => none
    | some (line, rest) =>
      if line = [] then some ([], rest)
      else match parseField line, parseFields fuel rest with
        | some f, some (fields, rest) => some (f :: fields, rest)
        | _, _ => none

/-- The code and the reason. -/
def parseStatus (line : Bytes) : Option (Nat × Bytes) :=
  let rest := line.drop 9
  match rest.dropWhile (· ≠ 0x20) with
  | [] => none
  | _ :: reason =>
    if ascii "HTTP/1.0 " <+: line then some (readNumber (rest.takeWhile (· ≠ 0x20)), reason)
    else none

/-- The response with what follows its header.  A body without an announced length ends with the
    connection. -/
def withBody (code : Nat) (reason : Bytes) (fields : List Field) (rest : Bytes) :
    Option Response :=
  let body := rest.take ((contentLength fields).getD rest.length)
  if h : (0x0a : UInt8) ∉ reason ∧ ∀ n ∈ contentLength fields, body.length = n then
    some { code, reason, fields, body, reason_line := h.1, framed := h.2 }
  else none

/-- The response that a connection carried. -/
def parse (s : Bytes) : Option Response :=
  match takeLine s with
  | none => none
  | some (status, rest) =>
    match parseStatus status, parseFields s.length rest with
    | some (code, reason), some (fields, rest) => withBody code reason fields rest
    | _, _ => none

/-! ### Numbers and lines -/

/-- What is written as a number is read as this number. -/
theorem readNumber_decimal (n : Nat) : readNumber (decimal n) = n := by
  have hdigits : ∀ (cs : List Char) (acc : Nat), (∀ c ∈ cs, c.isDigit) →
      (cs.map fun c => UInt8.ofNat c.toNat).foldl (fun n b => 10 * n + (b.toNat - 0x30)) acc =
        cs.foldl (fun n c => 10 * n + (c.toNat - 0x30)) acc := by
    intro cs
    induction cs with
    | nil => simp
    | cons c cs ih =>
      intro acc hcs
      obtain ⟨hc, hcs⟩ := List.forall_mem_cons.mp hcs
      have hlt : c.toNat < 256 := by
        simp only [Char.isDigit, Bool.and_eq_true, decide_eq_true_eq] at hc
        have h57 : c.toNat ≤ 57 := hc.2
        omega
      simp only [List.map_cons, List.foldl_cons, UInt8.toNat_ofNat', Nat.mod_eq_of_lt hlt]
      exact ih _ hcs
  unfold readNumber decimal
  rw [hdigits _ 0 fun c hc => Nat.isDigit_of_mem_toDigits (by omega) (by omega) hc]
  have hread := Nat.ofDigitChars_ten_toDigits (n := n)
  rw [Nat.ofDigitChars_eq_foldl] at hread
  exact hread

variable {line s rest : Bytes}

theorem takeLine_of_not_mem (h : (0x0a : UInt8) ∉ s) : takeLine s = none := by
  have hdrop : s.dropWhile (· ≠ 0x0a) = [] := by
    rw [List.dropWhile_eq_nil_iff]
    intro b hb
    simpa using ne_of_mem_of_not_mem hb h
  unfold takeLine
  simp only [hdrop]

theorem takeLine_append (h : (0x0a : UInt8) ∉ line) (rest : Bytes) :
    takeLine (line ++ (crlf ++ rest)) = some (line, rest) := by
  have hcr : (0x0a : UInt8) ∉ line ++ [0x0d] := by simpa using h
  obtain ⟨htake, hdrop⟩ := cut_at hcr rest
  have happend : line ++ (crlf ++ rest) = (line ++ [0x0d]) ++ 0x0a :: rest := by simp [crlf]
  unfold takeLine
  rw [happend]
  simp only [htake, hdrop]
  simp

/-- Of a text that was cut off, the first line is read only if it is whole. -/
theorem takeLine_prefix (h : (0x0a : UInt8) ∉ line) (hs : s <+: line ++ (crlf ++ rest)) :
    takeLine s = none ∨ ∃ s', s' <+: rest ∧ s = line ++ (crlf ++ s') := by
  rw [← List.append_assoc] at hs
  rcases List.prefix_or_prefix_of_prefix hs (List.prefix_append (line ++ crlf) rest) with hle | hle
  · by_cases hlen : s.length < (line ++ crlf).length
    · have hcr : s <+: line ++ [0x0d] := by
        refine List.prefix_of_prefix_length_le hle ⟨[0x0a], by simp [crlf]⟩ ?_
        simp [crlf] at hlen ⊢
        omega
      have hno : (0x0a : UInt8) ∉ line ++ [0x0d] := by simpa using h
      exact .inl (takeLine_of_not_mem fun hmem => hno (hcr.subset hmem))
    · exact .inr ⟨[], List.nil_prefix, by
        rw [List.append_nil, hle.eq_of_length (le_antisymm hle.length_le (not_lt.mp hlen))]⟩
  · obtain ⟨s', rfl⟩ := hle
    exact .inr ⟨s', (List.prefix_append_right_inj _).mp hs, by simp⟩

/-! ### The header -/

theorem Field.not_mem_render (f : Field) : (0x0a : UInt8) ∉ f.render := by
  have hsep : (0x0a : UInt8) ∉ ascii ": " := by decide
  simp [Field.render, f.name_line, f.value_line, hsep]

theorem parseField_render (f : Field) : parseField f.render = some f := by
  have hrender : f.render = f.name ++ 0x3a :: (0x20 :: f.value) := by
    simp [Field.render, ascii]
  obtain ⟨htake, hdrop⟩ := cut_at f.colon (0x20 :: f.value)
  unfold parseField
  rw [hrender]
  simp only [htake, hdrop]
  rw [dif_pos ⟨⟨f.value, by simp [ascii]⟩, f.name_line, f.value_line⟩]
  rfl

/-- The lines of fields, with their ends. -/
def renderFields (fields : List Field) : Bytes := fields.flatMap fun f => f.render ++ crlf

theorem renderFields_cons (f : Field) (fields : List Field) (rest : Bytes) :
    renderFields (f :: fields) ++ rest = f.render ++ (crlf ++ (renderFields fields ++ rest)) := by
  simp [renderFields]

theorem Field.render_ne_nil (f : Field) : f.render ≠ [] := by simp [Field.render, ascii]

theorem parseFields_render (fields : List Field) (rest : Bytes) {fuel : Nat}
    (hfuel : fields.length < fuel) :
    parseFields fuel (renderFields fields ++ (crlf ++ rest)) = some (fields, rest) := by
  induction fields generalizing fuel with
  | nil =>
    obtain ⟨fuel, rfl⟩ := Nat.exists_eq_add_one_of_ne_zero (by omega : fuel ≠ 0)
    have hline : takeLine (crlf ++ rest) = some ([], rest) :=
      takeLine_append List.not_mem_nil rest
    simp [parseFields, renderFields, hline]
  | cons f fields ih =>
    obtain ⟨fuel, rfl⟩ := Nat.exists_eq_add_one_of_ne_zero (by omega : fuel ≠ 0)
    rw [renderFields_cons]
    simp [parseFields, takeLine_append f.not_mem_render, f.render_ne_nil, parseField_render,
      ih (Nat.lt_of_succ_lt_succ hfuel)]

/-- Of fields that were cut off, all are read or none. -/
theorem parseFields_prefix (fields : List Field) (fuel : Nat)
    (hs : s <+: renderFields fields ++ (crlf ++ rest)) :
    parseFields fuel s = none ∨
      ∃ s', s' <+: rest ∧ s = renderFields fields ++ (crlf ++ s') := by
  induction fields generalizing s fuel with
  | nil =>
    cases fuel with
    | zero => exact .inl rfl
    | succ fuel =>
      rcases takeLine_prefix List.not_mem_nil hs with hnone | ⟨s', hs', rfl⟩
      · exact .inl (by simp [parseFields, hnone])
      · exact .inr ⟨s', hs', by simp [renderFields]⟩
  | cons f fields ih =>
    cases fuel with
    | zero => exact .inl rfl
    | succ fuel =>
      rw [renderFields_cons] at hs
      rcases takeLine_prefix f.not_mem_render hs with hnone | ⟨s', hs', rfl⟩
      · exact .inl (by simp [parseFields, hnone])
      · rcases ih fuel hs' with hnone | ⟨s'', hs'', rfl⟩
        · left
          simp [parseFields, takeLine_append f.not_mem_render, f.render_ne_nil, hnone]
        · exact .inr ⟨s'', hs'', by rw [renderFields_cons]⟩

namespace Response

variable (r : Response)

theorem not_mem_statusLine : (0x0a : UInt8) ∉ r.statusLine := by
  have hversion : (0x0a : UInt8) ∉ ascii "HTTP/1.0 " := by decide
  have hcode : (0x0a : UInt8) ∉ decimal r.code := fun h => absurd (mem_decimal h) (by decide)
  simp [statusLine, hversion, hcode, r.reason_line]

theorem parseStatus_statusLine : parseStatus r.statusLine = some (r.code, r.reason) := by
  have hdrop : r.statusLine.drop 9 = decimal r.code ++ 0x20 :: r.reason := by
    unfold statusLine
    exact List.drop_left' rfl
  have hspace : (0x20 : UInt8) ∉ decimal r.code := fun h => absurd (mem_decimal h) (by decide)
  obtain ⟨htake, hrest⟩ := cut_at hspace r.reason
  unfold parseStatus
  simp only [hdrop, htake, hrest, readNumber_decimal]
  exact if_pos (List.prefix_append _ _)

theorem header_append (rest : Bytes) : r.header ++ rest =
    r.statusLine ++ (crlf ++ (renderFields r.fields ++ (crlf ++ rest))) := by
  simp [header, renderFields]

theorem length_fields_lt (rest : Bytes) : r.fields.length < (r.header ++ rest).length := by
  have hfields : r.fields.length ≤ (renderFields r.fields).length := by
    unfold renderFields
    induction r.fields with
    | nil => simp
    | cons f fields ih =>
      simp only [List.flatMap_cons, List.length_append, List.length_cons]
      have hcrlf : crlf.length = 2 := rfl
      omega
  simp only [header_append, List.length_append, crlf, List.length_cons]
  omega

end Response

/-! ### What a client reads -/

/-- What is read when the header is whole. -/
theorem parse_header (r : Response) (rest : Bytes) :
    parse (r.header ++ rest) = withBody r.code r.reason r.fields rest := by
  have hfields := parseFields_render r.fields rest (r.length_fields_lt rest)
  have hline := takeLine_append r.not_mem_statusLine (renderFields r.fields ++ (crlf ++ rest))
  rw [← r.header_append] at hline
  unfold parse
  simp only [hline, r.parseStatus_statusLine, hfields]

theorem withBody_body (r : Response) : withBody r.code r.reason r.fields r.body = some r := by
  have hbody : r.body.take ((contentLength r.fields).getD r.body.length) = r.body := by
    cases hlen : contentLength r.fields with
    | none => simp
    | some n => simp [r.framed n hlen]
  unfold withBody
  simp only [hbody]
  exact dif_pos ⟨r.reason_line, r.framed⟩

/-- **Round trip.**  A client reads the response that was sent. -/
theorem parse_render (r : Response) : parse r.render = some r := by
  unfold Response.render
  rw [parse_header, withBody_body]

/-- A body that was cut off is not taken for a whole one. -/
theorem withBody_prefix {r r' : Response} {body : Bytes} (hr : r.Announced)
    (hbody : body <+: r.body) (h : withBody r.code r.reason r.fields body = some r') :
    body = r.body := by
  unfold withBody at h
  dsimp only at h
  split at h
  · rename_i hframed
    cases hlen : contentLength r.fields with
    | none =>
      rw [hr hlen] at hbody ⊢
      exact List.prefix_nil.mp hbody
    | some n =>
      have hle := hframed.2 n hlen
      rw [hlen, List.length_take] at hle
      have hn := r.framed n hlen
      exact hbody.eq_of_length_le (by simp at hle; omega)
  · cases h

/-- **A response that was cut off.**  What a client reads out of the first bytes of a response is
    the response, and the bytes were all of it. -/
theorem parse_prefix {r r' : Response} {s : Bytes} (hr : r.Announced) (hs : s <+: r.render)
    (h : parse s = some r') : s = r.render ∧ r' = r := by
  have hwhole : s = r.render := by
    unfold Response.render at hs ⊢
    rw [r.header_append] at hs
    rcases takeLine_prefix r.not_mem_statusLine hs with hnone | ⟨s₁, hs₁, hs₁'⟩
    · simp [parse, hnone] at h
    rcases parseFields_prefix r.fields s.length hs₁ with hnone | ⟨s₂, hs₂, hs₂'⟩
    · have hline := takeLine_append r.not_mem_statusLine s₁
      rw [← hs₁'] at hline
      simp [parse, hline, hnone] at h
    · rw [hs₁', hs₂', ← r.header_append, parse_header] at h
      rw [hs₁', hs₂', ← r.header_append, withBody_prefix hr hs₂ h]
  refine ⟨hwhole, ?_⟩
  rw [hwhole, parse_render] at h
  exact (Option.some.inj h).symm

end Http
