import ClipShare.Interaction.Program
import ClipShare.Server.Utils
import ClipShare.Server.Web

namespace ClipShare

open Interaction Posix

/-!
# A connection to the web server

`receiver_web` reads the request line one byte at a time, and the rest of the request with
`read_sock_no_wait`.  It answers with HTTP/1.0.

* `WebCalls` — what it calls;
* `readWord` — a word of the request line, read into a buffer;
* `discardRequest` — the rest of a GET request;
* `Web.get`, `Web.post` — the two methods;
* `receiverWeb` — a connection.

`fuel` bounds how often `read_sock_no_wait` is called; where it is used up, the function still
waits.  After a write outside of its block the model says nothing.
-/

/-- A buffer with its length, a `uint32_t`. -/
structure Blob where
  data : Bytes
  lt : data.length < 2 ^ 32
  deriving DecidableEq

/-- The page that is linked into the program; its size is an `int`. -/
structure Page where
  data : Bytes
  lt : data.length < 2 ^ 31

/-- What `receiver_web` calls. -/
inductive WebCall
  /-- `read_sock` for one byte -/
  | readSock
  | readSockNoWait (size : Nat)
  | writeSock (data : Bytes)
  | getClipboardText
  | getImage
  | putClipboardText (data : Bytes)
  deriving DecidableEq

/-- What the calls return. -/
@[reducible] def WebCall.Resp : WebCall → Type
  | readSock => Option UInt8
  | readSockNoWait size => Option {data : Bytes // 0 < data.length ∧ data.length ≤ size}
  | writeSock _ => Status
  | getClipboardText => Option Blob
  | getImage => Option Blob
  | putClipboardText _ => Status

@[reducible] def WebCalls : Sig := ⟨WebCall, WebCall.Resp⟩

/-- A program of the web server. -/
abbrev WebProc (α : Type) := Prog WebCalls α

namespace Web

def readSock : WebProc (Option UInt8) := Prog.ask (S := WebCalls) .readSock id

def readSockNoWait (size : Nat) :
    WebProc (Option {data : Bytes // 0 < data.length ∧ data.length ≤ size}) :=
  Prog.ask (S := WebCalls) (.readSockNoWait size) id

def writeSock (data : Bytes) : WebProc Status := Prog.ask (S := WebCalls) (.writeSock data) id

def getClipboardText : WebProc (Option Blob) := Prog.ask (S := WebCalls) .getClipboardText id

def getImage : WebProc (Option Blob) := Prog.ask (S := WebCalls) .getImage id

def putClipboardText (data : Bytes) : WebProc Status :=
  Prog.ask (S := WebCalls) (.putClipboardText data) id

/-- `say`: a C string. -/
def say (msg : Bytes) : WebProc Status := writeSock (cstr msg)

/-- Bytes up to a space, `left` of them at most. -/
def readWordFrom : Nat → Bytes → WebProc (Option Bytes)
  | 0, _ => return none
  | left + 1, word => do
    match ← readSock with
    | none => return none
    | some b => if b = 0x20 then return some word else readWordFrom left (word ++ [b])

/-- A word of the request line and the space after it, in a buffer of `size` bytes; none if it is
    too long or the connection ends. -/
def readWord (size : Nat) : WebProc (Option Bytes) := readWordFrom size []

/-- What follows the request line of a GET request is thrown away. -/
def discardRequest : Nat → WebProc Unit
  | 0 => .spin
  | fuel + 1 => do
    match ← readSockNoWait 128 with
    | some _ => discardRequest fuel
    | none => return ()

/-- The `Content-Length` line and those after it, for `tmp`. -/
def lengthLines (len : Nat) : Bytes :=
  ascii "Content-Length: " ++ decimal len ++ ascii "\r\nConnection: close\r\n\r\n"

/-- The GET method. -/
def get (page : Page) (fuel : Nat) (path : Bytes) : WebProc Unit := do
  discardRequest fuel
  if cstr path = ascii "/" then do
    if (← say (ascii "HTTP/1.0 200 OK\r\n")) ≠ .success then return ()
    else match snprintfCheck 96 (ascii "Content-Type: text/html; charset=utf-8\r\n" ++
        lengthLines page.data.length) with
    | none => return ()
    | some tmp => do
      if (← say tmp) ≠ .success then return ()
      else do
        let _ ← writeSock page.data
        return ()
  else if cstr path = ascii "/clip" then do
    match ← getClipboardText with
    | none => do
      let _ ← say (ascii "HTTP/1.0 500 Internal Server Error\r\n\r\n")
      return ()
    | some clip => do
      if clip.data.length ≤ 0 then do
        let _ ← say (ascii "HTTP/1.0 500 Internal Server Error\r\n\r\n")
        return ()
      else if (← say (ascii "HTTP/1.0 200 OK\r\n")) ≠ .success then return ()
      else if (← say (ascii "Content-Type: text/plain; charset=utf-8\r\n")) ≠ .success then
        return ()
      else match snprintfCheck 64 (lengthLines clip.data.length) with
      | none => return ()
      | some tmp => do
        if (← say tmp) ≠ .success then return ()
        else do
          let _ ← writeSock clip.data
          return ()
  else if cstr path = ascii "/img" then do
    match ← getImage with
    | none => do
      let _ ← say (ascii "HTTP/1.0 404 Not Found\r\n\r\n")
      return ()
    | some clip => do
      if clip.data.length ≤ 0 then do
        let _ ← say (ascii "HTTP/1.0 404 Not Found\r\n\r\n")
        return ()
      else if (← say (ascii "HTTP/1.0 200 OK\r\n")) ≠ .success then return ()
      else if (← say (ascii "Content-Type: image/png\r\n" ++
          ascii "Content-Disposition: attachment; filename=\"clip.png\"\r\n")) ≠ .success then
        return ()
      else match snprintfCheck 64 (lengthLines clip.data.length) with
      | none => return ()
      | some tmp => do
        if (← say tmp) ≠ .success then return ()
        else do
          let _ ← writeSock clip.data
          return ()
  else do
    let _ ← say (ascii "HTTP/1.0 404 Not Found\r\n\r\n")
    return ()

/-- The POST method from a point of its loops on. -/
def post (junk : Nat → UInt8) : Nat → Post → WebProc Unit
  | _, .overrun => .spin
  | _, .returned => return ()
  | _, .accepted text => do
    if (← say (ascii "HTTP/1.0 204 No Content\r\n\r\n")) ≠ .success then return ()
    else do
      let _ ← putClipboardText text
      return ()
  | 0, _ => .spin
  | fuel + 1, p => do
    let r ← readSockNoWait 256
    post junk fuel (p.receive junk (r.map fun data => ⟨data.1, data.2.1, data.2.2⟩))

end Web

/-- `receiver_web`. -/
def receiverWeb (page : Page) (junk : Nat → UInt8) (fuel : Nat) : WebProc Unit := do
  match ← Web.readWord 8 with
  | none => return ()
  | some method =>
    match ← Web.readWord 2049 with
    | none => return ()
    | some path =>
      if cstr method = ascii "GET" then Web.get page fuel path
      else if cstr method = ascii "POST" then Web.post junk fuel (Post.start junk)
      else return ()

/-! ### A client and a host -/

/-- A client that has sent its request, and the host of the server. -/
structure WebHost where
  /-- what the server has not read yet -/
  input : Bytes
  /-- how much of it each `read_sock_no_wait` finds; in the end, all -/
  arrivals : List Nat
  /-- how much the client takes -/
  room : Nat
  /-- what the client has got -/
  sent : Bytes
  clipboard : Option Blob
  image : Option Blob
  deriving DecidableEq

namespace WebHost

/-- How much the next `read_sock_no_wait` finds. -/
def arrived (h : WebHost) : Nat := h.arrivals.head?.getD h.input.length

def readSockNoWait (h : WebHost) (size : Nat) :
    Option {data : Bytes // 0 < data.length ∧ data.length ≤ size} × WebHost :=
  let data := h.input.take (min size h.arrived)
  let next := { h with input := h.input.drop (min size h.arrived), arrivals := h.arrivals.tail }
  if hpos : 0 < data.length then
    (some ⟨data, hpos, (List.length_take_le ..).trans (Nat.min_le_left ..)⟩, next)
  else (none, next)

def writeSock (h : WebHost) (data : Bytes) : Status × WebHost :=
  if data.length ≤ h.room then
    (.success, { h with sent := h.sent ++ data, room := h.room - data.length })
  else (.failure, { h with sent := h.sent ++ data.take h.room, room := 0 })

def putClipboardText (h : WebHost) (data : Bytes) : Status × WebHost :=
  if hlt : data.length < 2 ^ 32 then (.success, { h with clipboard := some ⟨data, hlt⟩ })
  else (.failure, h)

end WebHost

/-- The client and the host answer the calls. -/
def respondWeb : Machine WebCalls WebHost := fun c h =>
  match c with
  | .readSock => (h.input.head?, { h with input := h.input.tail })
  | .readSockNoWait size => h.readSockNoWait size
  | .writeSock data => h.writeSock data
  | .getClipboardText => (h.clipboard, h)
  | .getImage => (h.image, h)
  | .putClipboardText data => h.putClipboardText data

end ClipShare
