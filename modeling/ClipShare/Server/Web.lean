import ClipShare.Posix.Block
import ClipShare.Server.Config

namespace ClipShare

open Posix

/-!
# A POST request to the web server

`receiver_web` reads a POST request with `read_sock_no_wait`, which returns what has arrived so
far, if anything.  Two loops read the header and the body, each into a block of its own; the
model is the machine that goes from one result of `read_sock_no_wait` to the next.  Allocations
succeed.

* `Data` — what `read_sock_no_wait` returns when something has arrived;
* `Headers` / `Body` — the variables of the two loops;
* `Post` — where the function stands;
* `Headers.read` / `endOfHeaders` / `Body.read` — a turn of the first loop, what is between the
  loops, and a turn of the second loop;
* `Post.receive` — one result of `read_sock_no_wait`.
-/

/-- What `read_sock_no_wait` puts into a buffer of 256 bytes. -/
structure Data where
  bytes : Bytes
  pos : 0 < bytes.length
  le : bytes.length ≤ 256
  deriving DecidableEq

/-- The result of `read_sock_no_wait`: data, or none. -/
abbrev ReadResult := Option Data

/-- The variables of the loop that reads the header; `ptr` and `check` are positions in the block
    `headers`. -/
structure Headers where
  headers : Bytes
  ptr : Nat
  check : Nat
  cnt : Nat
  deriving DecidableEq

/-- The variables of the loop that reads the body; `dataEndPtr` is a position in the block
    `headers`, where the body starts at `headerLen`. -/
structure Body where
  headers : Bytes
  headerLen : Nat
  dataLen : Nat
  dataEndPtr : Nat
  cnt : Nat
  deriving DecidableEq

/-- Where the function stands: in one of the loops; at a write outside of a block; after it
    returned without an answer; or where it answers and puts a text into the clipboard. -/
inductive Post
  | headers (s : Headers)
  | body (s : Body)
  | overrun
  | returned
  | accepted (text : Bytes)
  deriving DecidableEq

/-- The size of the block of the header. -/
def headersSize : Nat := 2048

/-- The end of the header. -/
def blankLine : Bytes := [0x0d, 0x0a, 0x0d, 0x0a]

/-- `strtoul` in base 10, where `unsigned long` has 64 bits. -/
def strtoul (str : Bytes) : Nat :=
  let (neg, v, _) := scanNumber str
  if 2 ^ 64 ≤ v then 2 ^ 64 - 1 else if neg then (2 ^ 64 - v) % 2 ^ 64 else v

/-- The bytes of the body that have arrived: `data_end_ptr - data`. -/
def Body.received (s : Body) : Nat := s.dataEndPtr - s.headerLen

/-- The condition of the loop that reads the body. -/
def Body.enter (s : Body) : Post :=
  if s.received < s.dataLen then .body s
  else .accepted ((s.headers.drop s.headerLen).take s.dataLen)

variable (junk : Nat → UInt8)

/-- What is between the two loops. -/
def endOfHeaders (headers : Bytes) : Post :=
  match strstr headers (ascii "Content-Length: ") with
  | none => .returned
  | some contLenHeader =>
    -- the number may be followed by anything
    let dataLen := strtoul (cstr (headers.drop (contLenHeader + 16)))
    if dataLen ≤ 0 ∨ 1048576 < dataLen then .returned
    else match strstr headers blankLine with
      | none => .returned
      | some data =>
        let headerLen := data + 4
        -- the last newline becomes a NUL
        match store headers (headerLen - 1) [0] with
        | none => .overrun
        | some headers =>
          let headers := realloc junk headers (headerLen + dataLen + 1)
          Body.enter
            { headers, headerLen, dataLen, cnt := 0
              dataEndPtr := headerLen + strnlen (headers.drop headerLen) (dataLen + 1) }

/-- A turn of the loop that reads the header. -/
def Headers.read (s : Headers) : ReadResult → Post
  | some buf =>
    match store s.headers s.ptr buf.bytes with
    | none => .overrun
    | some headers =>
      let ptr := s.ptr + buf.bytes.length
      match store headers ptr [0] with
      | none => .overrun
      | some headers =>
        -- the next read might not fit
        if ptr ≥ headersSize - 256 then endOfHeaders junk headers
        else .headers { s with headers, ptr, cnt := 0 }
  | none =>
    if s.cnt = 0 then
      if (strstr (s.headers.drop s.check) blankLine).isSome then endOfHeaders junk s.headers
      -- not before the start of the block
      else .headers { s with check := s.ptr - 3 }
    else if s.cnt > 50 then endOfHeaders junk s.headers
    else .headers { s with cnt := s.cnt + 1 }

/-- A turn of the loop that reads the body. -/
def Body.read (s : Body) : ReadResult → Post
  | some buf =>
    match store s.headers s.dataEndPtr buf.bytes with
    | none => .overrun
    | some headers =>
      let dataEndPtr := s.dataEndPtr + buf.bytes.length
      match store headers dataEndPtr [0] with
      | none => .overrun
      | some headers => Body.enter { s with headers, dataEndPtr, cnt := 0 }
  | none => if s.cnt > 50 then .returned else Body.enter { s with cnt := s.cnt + 1 }

/-- One result of `read_sock_no_wait`; a function that is at its end asks for none. -/
def Post.receive (p : Post) (r : ReadResult) : Post :=
  match p with
  | .headers s => s.read junk r
  | .body s => s.read r
  | p => p

/-- The function where it is about to read the header. -/
def Post.start : Post :=
  .headers { headers := (malloc junk headersSize).set 0 0, ptr := 0, check := 0, cnt := 0 }

/-- The function after some results of `read_sock_no_wait`. -/
def Post.after (rs : List ReadResult) : Post := rs.foldl (Post.receive junk) (Post.start junk)

end ClipShare
