import ClipShare.Server.Utils
import ClipShare.Posix.Block

namespace ClipShare

open Posix

/-!
# Buffers

Functions that compute the size of a buffer and then write to it, with the buffer as a block of
memory.  A write or a read outside of the block is a fault (`none`).  Allocations succeed; `junk`
is what a fresh block holds.

* `urlEncodeBlock` / `urlDecodeBlock` — `url_encode`, and `url_decode` in place;
* `cutFilesBlock` — the buffer of `set_clipboard_cut_files`;
* `doOutTargets` — the list of targets that `doOut` makes.
-/

/-! ### `url_encode` -/

/-- The value of a `char`, which may be a signed type. -/
def charValue (signed : Bool) (c : UInt8) : Int :=
  if signed ∧ 0x80 ≤ c then (c.toNat : Int) - 256 else c.toNat

/-- The test of `url_encode` for the bytes that stay as they are. -/
def urlSafeChar (signed : Bool) (c : UInt8) : Bool :=
  let p := charValue signed c
  (0x61 ≤ p && p ≤ 0x7a) || (0x40 ≤ p && p ≤ 0x5a) || (0x26 ≤ p && p ≤ 0x3a) || p == 0x5f ||
    p == 0x3d || p == 0x21 || p == 0x7e

/-- The first pass of `url_encode`: the size of the URL with its NUL, in an `unsigned int`. -/
def urlSize (signed : Bool) (str : Bytes) : UInt32 :=
  -- `file://` and the NUL have 8 bytes; the sum may wrap around
  (cstr str).foldl (fun urlLen c => if urlSafeChar signed c then urlLen + 1 else urlLen + 3) 8

/-- What the second pass of `url_encode` writes for one byte. -/
def urlEncodeChar (signed : Bool) (c : UInt8) : Bytes :=
  if urlSafeChar signed c then [c]
  else
    let hi := c >>> 4
    let lo := c &&& 0xf
    [0x25, if hi < 10 then hi + 0x30 else hi + 55, if lo < 10 then lo + 0x30 else lo + 55]

/-- The second pass of `url_encode`: the block, and the position that has been reached. -/
def urlEncodeLoop (signed : Bool) : Bytes → Bytes → Nat → Option (Bytes × Nat)
  | [], url, p => some (url, p)
  | c :: str, url, p => do
      let url ← store url p (urlEncodeChar signed c)
      urlEncodeLoop signed str url (p + (urlEncodeChar signed c).length)

/-- `url_encode`: the length that it returns, and the block. -/
def urlEncodeBlock (signed : Bool) (junk : Nat → UInt8) (str : Bytes) :
    Option (UInt32 × Bytes) := do
  let urlLen := urlSize signed str
  let url ← strncpy (malloc junk urlLen.toNat) 0 fileScheme 8
  let (url, p) ← urlEncodeLoop signed (cstr str) url 7
  let url ← store url p [0]
  return (urlLen - 1, url)

/-! ### `url_decode` -/

/-- The byte that the URL has at a position and the position after it; `some none` where it is
    not valid. -/
def urlDecodeChar (str : Bytes) (ptr2 : Nat) : Option (Option (UInt8 × Nat)) := do
  let c ← str[ptr2]?
  if c = 0x25 then
    let tmp ← str[ptr2 + 1]?
    match hex2char tmp with
    | none => return none
    | some c1 =>
      let tmp ← str[ptr2 + 2]?
      match hex2char tmp with
      | none => return none
      | some c2 => return some (c1 <<< 4 ||| c2, ptr2 + 3)
  else return some (c, ptr2 + 1)

/-- The read position advances. -/
theorem lt_of_urlDecodeChar {str : Bytes} {ptr2 next : Nat} {c : UInt8}
    (h : urlDecodeChar str ptr2 = some (some (c, next))) : ptr2 < next := by
  unfold urlDecodeChar at h
  obtain ⟨b, -, h⟩ := Option.bind_eq_some_iff.mp h
  split at h
  · obtain ⟨d, -, h⟩ := Option.bind_eq_some_iff.mp h
    split at h
    · cases h
    · obtain ⟨e, -, h⟩ := Option.bind_eq_some_iff.mp h
      split at h
      · cases h
      · cases h
        omega
  · cases h
    omega

/-- The loop of `url_decode`, with its write position and its read position: how it ends, the
    block, and the write position. -/
def urlDecodeBlockLoop (str : Bytes) (ptr1 ptr2 : Nat) : Option (Status × Bytes × Nat) :=
  match _hc : urlDecodeChar str ptr2 with
  | none => none
  | some none => some (.failure, str, ptr1)
  | some (some (c, next)) =>
    match _hs : store str ptr1 [c] with
    | none => none
    | some str' =>
      match _hn : str'[next]? with
      | none => none
      | some d =>
        if d ≠ 0 then urlDecodeBlockLoop str' (ptr1 + 1) next
        else (store str' (ptr1 + 1) [0]).map fun str' => (.success, str', ptr1 + 1)
termination_by str.length - ptr2
decreasing_by
  have hlen := length_store _hs
  have hlt := lt_of_urlDecodeChar _hc
  have hnext := (List.getElem?_eq_some_iff.mp _hn).1
  omega

/-- `url_decode`: how it ends, the block, and the length. -/
def urlDecodeBlock (str : Bytes) : Option (Status × Bytes × UInt32) :=
  if fileScheme <+: str then
    (urlDecodeBlockLoop str 0 7).map fun (status, str, ptr1) => (status, str, UInt32.ofNat ptr1)
  else some (.failure, str, 0)

/-! ### `set_clipboard_cut_files` -/

def maxUrlLen : Nat := 4096

/-- The first loop of `set_clipboard_cut_files`: the URLs, and the size of the buffer. -/
def cutUrls (signed : Bool) : (Nat → Nat → UInt8) → List Bytes → UInt64 →
    Option (List Bytes × UInt64)
  | _, [], totLen => some ([], totLen)
  | junk, path :: paths, totLen => do
      -- every block has contents of its own
      let (len, url) ← urlEncodeBlock signed (junk 0) path
      if len = 0 then cutUrls signed (fun i => junk (i + 1)) paths totLen
      else
        let (urls, totLen) ←
          cutUrls signed (fun i => junk (i + 1)) paths (totLen + (len + 1).toUInt64)
        return (url :: urls, totLen)

/-- The second loop of `set_clipboard_cut_files`: the block, and the position that has been
    reached. -/
def copyUrls : List Bytes → Bytes → Nat → Option (Bytes × Nat)
  | [], buf, p => some (buf, p)
  | url :: urls, buf, p => do
      let buf ← store buf p [0x0a]
      -- a longer URL is cut, and the next one follows where it is cut
      let len := strnlen url maxUrlLen
      let buf ← strncpy buf (p + 1) url (len + 1)
      copyUrls urls buf (p + 1 + len)

/-- `set_clipboard_cut_files`: what it hands to `xclip_util`, the length and the buffer; `some none`
    if that would be too long. -/
def cutFilesBlock (signed : Bool) (junk : Nat → Nat → UInt8) (paths : List Bytes) :
    Option (Option (UInt32 × Bytes)) := do
  let (urls, totLen) ← cutUrls signed (fun i => junk (i + 1)) paths 4
  if totLen ≥ 0xFFFFFFFF then return none
  else
    let buf ← strncpy (malloc (junk 0) totLen.toNat) 0 (ascii "cut") 4
    let (buf, p) ← copyUrls urls buf 3
    let buf ← store buf p [0]
    return some (totLen.toUInt32, buf)

/-! ### The list of targets -/

/-- The loop of `doOut` over the names of the targets, with `out_len`, `out_capacity` and
    `out_buf`. -/
def doOutLoop (junk : Nat → UInt8) : List Bytes → Nat → Nat → Bytes → Option (Nat × Bytes)
  | [], outLen, _, outBuf => some (outLen, outBuf)
  | atomName :: names, outLen, outCapacity, outBuf => do
      let atomNameLen := strnlen atomName 511
      let grow := atomNameLen + outLen + 1 ≥ outCapacity
      -- room for the name and the newline, not for the NUL
      let outCapacity := if grow then atomNameLen + outLen + 1 else outCapacity
      let outBuf := if grow then realloc junk outBuf outCapacity else outBuf
      let size := outCapacity - outLen
      let text := cstr atomName ++ [0x0a]
      if outLen ≤ outCapacity then
        let outBuf ← snprintf outBuf outLen size text
        -- a line that was cut does not count
        doOutLoop junk names (if text.length ≥ size then outLen else outLen + atomNameLen + 1)
          outCapacity outBuf
      else doOutLoop junk names outLen outCapacity outBuf

/-- What `doOut` makes of the names of the targets: `out_len` and the block. -/
def doOutTargets (junk : Nat → UInt8) (names : List Bytes) : Option (Nat × Bytes) := do
  let outBuf ← store (malloc junk 128) 0 [0]
  doOutLoop junk names 0 128 outBuf

end ClipShare
