import ClipShare.Http.Response
import ClipShare.Server.WebReceiver
import ClipShare.Verify.Moving

namespace ClipShare

open Interaction Posix

/-!
# The answers of the web server

`receiver_web` sends its answer piece by piece and gives up when a write fails.

* `Answer`, `Answer.response` — the answers, as HTTP responses;
* `chooseAnswer` — which answer a request gets: the program without its writes;
* `receiverWeb_eq` — the function chooses an answer, sends it and stores the text of a POST
  request.
-/

/-! ### Answers -/

/-- What the server answers. -/
inductive Answer
  | page
  | text (clip : Blob)
  | image (clip : Blob)
  | noContent (text : Bytes)
  | notFound
  | error

/-- A field of the header with a value in ASCII. -/
def contentType (value : Bytes) (h : (0x0a : UInt8) ∉ value) : Http.Field where
  name := ascii "Content-Type"
  value := value
  colon := by decide
  name_line := by decide
  value_line := h

def contentDisposition : Http.Field where
  name := ascii "Content-Disposition"
  value := ascii "attachment; filename=\"clip.png\""
  colon := by decide
  name_line := by decide
  value_line := by decide

def contentLength (n : Nat) : Http.Field where
  name := ascii "Content-Length"
  value := decimal n
  colon := by decide
  name_line := by decide
  value_line := fun h => absurd (mem_decimal h) (by decide)

def connectionClose : Http.Field where
  name := ascii "Connection"
  value := ascii "close"
  colon := by decide
  name_line := by decide
  value_line := by decide

/-- A response with a body. -/
def okResponse (fields : List Http.Field) (h : ∀ f ∈ fields, f.name ≠ ascii "Content-Length")
    (body : Bytes) : Http.Response where
  code := 200
  reason := ascii "OK"
  fields := fields ++ [contentLength body.length, connectionClose]
  body := body
  reason_line := by decide
  framed := by
    intro n hn
    have hnone : fields.find? (fun f => f.name = ascii "Content-Length") = none := by
      simpa using h
    simp only [Http.contentLength, List.find?_append, hnone, Option.none_or] at hn
    simp [contentLength] at hn
    simpa [Http.readNumber_decimal] using hn

/-- A response that is only a status line. -/
def bareResponse (code : Nat) (reason : Bytes) (h : (0x0a : UInt8) ∉ reason) : Http.Response where
  code := code
  reason := reason
  fields := []
  body := []
  reason_line := h
  framed := nofun

namespace Answer

/-- The HTTP response that an answer is. -/
def response (page : Page) : Answer → Http.Response
  | .page => okResponse [contentType (ascii "text/html; charset=utf-8") (by decide)]
      (by decide) page.data
  | .text clip => okResponse [contentType (ascii "text/plain; charset=utf-8") (by decide)]
      (by decide) clip.data
  | .image clip => okResponse [contentType (ascii "image/png") (by decide), contentDisposition]
      (by decide) clip.data
  | .noContent _ => bareResponse 204 (ascii "No Content") (by decide)
  | .notFound => bareResponse 404 (ascii "Not Found") (by decide)
  | .error => bareResponse 500 (ascii "Internal Server Error") (by decide)

/-- What is written for an answer, one `write_sock` after the other. -/
def pieces (page : Page) : Answer → List Bytes
  | .page => [ascii "HTTP/1.0 200 OK\r\n",
      ascii "Content-Type: text/html; charset=utf-8\r\n" ++ Web.lengthLines page.data.length,
      page.data]
  | .text clip => [ascii "HTTP/1.0 200 OK\r\n",
      ascii "Content-Type: text/plain; charset=utf-8\r\n", Web.lengthLines clip.data.length,
      clip.data]
  | .image clip => [ascii "HTTP/1.0 200 OK\r\n",
      ascii "Content-Type: image/png\r\n" ++
        ascii "Content-Disposition: attachment; filename=\"clip.png\"\r\n",
      Web.lengthLines clip.data.length, clip.data]
  | .noContent _ => [ascii "HTTP/1.0 204 No Content\r\n\r\n"]
  | .notFound => [ascii "HTTP/1.0 404 Not Found\r\n\r\n"]
  | .error => [ascii "HTTP/1.0 500 Internal Server Error\r\n\r\n"]

theorem announced (page : Page) (a : Answer) : (a.response page).Announced := by
  intro h
  cases a <;> simp_all [response, okResponse, bareResponse, Http.contentLength, contentLength]

/-- The pieces make up the response. -/
theorem pieces_flatten (page : Page) (a : Answer) :
    (a.pieces page).flatten = (a.response page).render := by
  cases a <;>
    simp only [pieces, response, okResponse, bareResponse, Http.Response.render,
      Http.Response.header, Http.Response.statusLine, Web.lengthLines, contentLength,
      connectionClose, contentType, contentDisposition, Http.Field.render, Http.crlf,
      List.flatten_cons, List.flatten_nil, List.flatMap_cons, List.flatMap_nil, List.append_assoc,
      List.cons_append, List.nil_append, List.append_nil] <;>
    rfl

end Answer

/-! ### The choice of the answer -/

/-- The answer to a GET request. -/
def answerGet (fuel : Nat) (path : Bytes) : WebProc (Option Answer) := do
  Web.discardRequest fuel
  if cstr path = ascii "/" then return some .page
  else if cstr path = ascii "/clip" then do
    match ← Web.getClipboardText with
    | none => return some .error
    | some clip => if clip.data = [] then return some .error else return some (.text clip)
  else if cstr path = ascii "/img" then do
    match ← Web.getImage with
    | none => return some .notFound
    | some clip => if clip.data = [] then return some .notFound else return some (.image clip)
  else return some .notFound

/-- The answer to a POST request. -/
def answerPost (junk : Nat → UInt8) : Nat → Post → WebProc (Option Answer)
  | _, .overrun => .spin
  | _, .returned => return none
  | _, .accepted text => return some (.noContent text)
  | 0, _ => .spin
  | fuel + 1, p => do
    let r ← Web.readSockNoWait 256
    answerPost junk fuel (p.receive junk (r.map fun data => ⟨data.1, data.2.1, data.2.2⟩))

/-- The answer that a connection gets, if any. -/
def chooseAnswer (junk : Nat → UInt8) (fuel : Nat) : WebProc (Option Answer) := do
  match ← Web.readWord 8 with
  | none => return none
  | some method =>
    match ← Web.readWord 2049 with
    | none => return none
    | some path =>
      if cstr method = ascii "GET" then answerGet fuel path
      else if cstr method = ascii "POST" then answerPost junk fuel (Post.start junk)
      else return none

/-- Send one piece after the other, until a write fails. -/
def sendAll : List Bytes → WebProc Status
  | [] => return .success
  | data :: rest => do
    if (← Web.writeSock data) ≠ .success then return .failure else sendAll rest

/-- What follows once the answer was sent. -/
def finish : Answer → Status → WebProc Unit
  | .noContent text, .success => do
    let _ ← Web.putClipboardText text
    return ()
  | _, _ => return ()

/-- The answer is sent, and the text of a POST request is stored. -/
def sendAnswer (page : Page) : Option Answer → WebProc Unit
  | none => return ()
  | some a => sendAll (a.pieces page) >>= finish a

/-! ### The pieces fit their buffers -/

theorem say_eq {msg : Bytes} (h : (0 : UInt8) ∉ msg) : Web.say msg = Web.writeSock msg := by
  unfold Web.say
  rw [cstr_of_not_mem h]

theorem zero_not_mem_lengthLines (n : Nat) : (0 : UInt8) ∉ Web.lengthLines n := by
  have hdecimal : (0 : UInt8) ∉ decimal n := fun h => absurd (mem_decimal h) (by decide)
  have hname : (0 : UInt8) ∉ ascii "Content-Length: " := by decide
  have hclose : (0 : UInt8) ∉ ascii "\r\nConnection: close\r\n\r\n" := by decide
  simp [Web.lengthLines, hdecimal, hname, hclose]

theorem length_lengthLines {n : Nat} (h : n < 2 ^ 32) : (Web.lengthLines n).length ≤ 49 := by
  have hdecimal : (decimal n).length ≤ 10 := by
    unfold decimal
    rw [List.length_map]
    exact (Nat.length_toDigits_le_iff (by omega) (by omega)).mpr (by omega)
  have hname : (ascii "Content-Length: ").length = 16 := rfl
  have hclose : (ascii "\r\nConnection: close\r\n\r\n").length = 23 := rfl
  unfold Web.lengthLines
  simp only [List.length_append, hname, hclose]
  omega

theorem snprintfCheck_lengthLines {n : Nat} (h : n < 2 ^ 32) :
    snprintfCheck 64 (Web.lengthLines n) = some (Web.lengthLines n) :=
  snprintfCheck_of_lt (by have := length_lengthLines h; omega)

theorem snprintfCheck_page (page : Page) :
    snprintfCheck 96 (ascii "Content-Type: text/html; charset=utf-8\r\n" ++
      Web.lengthLines page.data.length) =
    some (ascii "Content-Type: text/html; charset=utf-8\r\n" ++
      Web.lengthLines page.data.length) := by
  have hlen := length_lengthLines (n := page.data.length) (by have := page.lt; omega)
  have htype : (ascii "Content-Type: text/html; charset=utf-8\r\n").length = 40 := rfl
  apply snprintfCheck_of_lt
  rw [List.length_append, htype]
  omega

/-! ### The answer is chosen, then sent -/

section Pieces

variable {page : Page} {a : Answer} {msg : Bytes} {rest : List Bytes}

theorem finish_failure (a : Answer) : finish a .failure = .ret () := by cases a <;> rfl

/-- A piece that is sent with `say`, and what follows if that succeeds. -/
theorem say_step {k : WebProc Unit} (hmsg : (0 : UInt8) ∉ msg)
    (hk : k = sendAll rest >>= finish a) :
    (Web.say msg >>= fun status => if status ≠ .success then pure () else k) =
      sendAll (msg :: rest) >>= finish a := by
  rw [say_eq hmsg, hk]
  refine congrArg (Prog.call (S := WebCalls) _) (funext fun status => ?_)
  cases status with
  | success => rfl
  | failure => exact (finish_failure a).symm

/-- The last piece. -/
theorem writeSock_last (h : finish a .success = .ret ()) :
    (Web.writeSock msg >>= fun _ => pure ()) = sendAll [msg] >>= finish a := by
  refine congrArg (Prog.call (S := WebCalls) _) (funext fun status => ?_)
  cases status with
  | success => exact h.symm
  | failure => exact (finish_failure a).symm

theorem say_last (hmsg : (0 : UInt8) ∉ msg) (h : finish a .success = .ret ()) :
    (Web.say msg >>= fun _ => pure ()) = sendAll [msg] >>= finish a := by
  rw [say_eq hmsg, writeSock_last h]

end Pieces

/-- The answer to a GET request is chosen, then sent. -/
theorem get_eq (page : Page) (fuel : Nat) (path : Bytes) :
    Web.get page fuel path = answerGet fuel path >>= sendAnswer page := by
  have herror : (Web.say (ascii "HTTP/1.0 500 Internal Server Error\r\n\r\n") >>= fun _ => pure ())
      = sendAnswer page (some .error) := say_last (by decide) rfl
  have hmissing : (Web.say (ascii "HTTP/1.0 404 Not Found\r\n\r\n") >>= fun _ => pure ())
      = sendAnswer page (some .notFound) := say_last (by decide) rfl
  unfold Web.get answerGet
  rw [Prog.bind_assoc]
  congr 1
  funext _
  by_cases hroot : cstr path = ascii "/"
  · simp only [if_pos hroot]
    have htype : (0 : UInt8) ∉ ascii "Content-Type: text/html; charset=utf-8\r\n" := by decide
    refine say_step (by decide) ?_
    rw [snprintfCheck_page]
    refine say_step ?_ (writeSock_last rfl)
    simp [htype, zero_not_mem_lengthLines]
  simp only [if_neg hroot]
  by_cases hclip : cstr path = ascii "/clip"
  · simp only [if_pos hclip]
    rw [Prog.bind_assoc]
    congr 1
    funext r
    cases r with
    | none => exact herror
    | some clip =>
      dsimp only
      by_cases hempty : clip.data = []
      · simp only [hempty, List.length_nil, Nat.le_refl, if_true]
        exact herror
      · have hlen : ¬ clip.data.length ≤ 0 := by simpa using hempty
        rw [if_neg hempty, if_neg hlen]
        refine say_step (by decide) (say_step (by decide) ?_)
        rw [snprintfCheck_lengthLines clip.lt]
        exact say_step (zero_not_mem_lengthLines _) (writeSock_last rfl)
  simp only [if_neg hclip]
  by_cases himg : cstr path = ascii "/img"
  · simp only [if_pos himg]
    rw [Prog.bind_assoc]
    congr 1
    funext r
    cases r with
    | none => exact hmissing
    | some clip =>
      dsimp only
      by_cases hempty : clip.data = []
      · simp only [hempty, List.length_nil, Nat.le_refl, if_true]
        exact hmissing
      · have hlen : ¬ clip.data.length ≤ 0 := by simpa using hempty
        rw [if_neg hempty, if_neg hlen]
        refine say_step (by decide) (say_step (by decide) ?_)
        rw [snprintfCheck_lengthLines clip.lt]
        exact say_step (zero_not_mem_lengthLines _) (writeSock_last rfl)
  · simp only [if_neg himg]
    exact hmissing

/-- The answer to a POST request is chosen, then sent. -/
theorem post_eq (page : Page) (junk : Nat → UInt8) (fuel : Nat) (p : Post) :
    Web.post junk fuel p = answerPost junk fuel p >>= sendAnswer page := by
  have haccepted : ∀ text, (do
      if (← Web.say (ascii "HTTP/1.0 204 No Content\r\n\r\n")) ≠ .success then return ()
      else do
        let _ ← Web.putClipboardText text
        return () : WebProc Unit) = sendAnswer page (some (.noContent text)) := by
    intro text
    show _ = sendAll [_] >>= finish (.noContent text)
    exact say_step (by decide) rfl
  induction fuel generalizing p with
  | zero =>
    cases p with
    | accepted text => exact haccepted text
    | headers | body | overrun | returned => rfl
  | succ fuel ih =>
    cases p with
    | accepted text => exact haccepted text
    | overrun | returned => rfl
    | headers s =>
      refine congrArg (Prog.call (S := WebCalls) _) (funext fun r => ?_)
      exact ih _
    | body s =>
      refine congrArg (Prog.call (S := WebCalls) _) (funext fun r => ?_)
      exact ih _

/-- The function chooses an answer, sends it, and stores the text of a POST request. -/
theorem receiverWeb_eq (page : Page) (junk : Nat → UInt8) (fuel : Nat) :
    receiverWeb page junk fuel = chooseAnswer junk fuel >>= sendAnswer page := by
  unfold receiverWeb chooseAnswer
  rw [Prog.bind_assoc]
  congr 1
  funext method
  cases method with
  | none => rfl
  | some method =>
    dsimp only
    rw [Prog.bind_assoc]
    congr 1
    funext path
    cases path with
    | none => rfl
    | some path =>
      dsimp only
      split
      · exact get_eq page fuel path
      · split
        · exact post_eq page junk fuel _
        · rfl

end ClipShare
