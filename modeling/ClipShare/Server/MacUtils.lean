import ClipShare.Server.InPlace

namespace ClipShare

open Posix

/-!
# The pasteboard of macOS

`get_copied_files_as_str` of `mac_utils.m`, with its buffer as a block of memory as in the other
functions that compute the size of a buffer.

* `urlsSize` — the first loop, which adds up the size;
* `copyFileUrls`, `joinFileUrls` — the second loop, and the end of the string;
* `Mac.getCopiedFilesAsStr` — the function.
-/

/-- One round of the first loop of `get_copied_files_as_str`, with `tot_len`.  A file URL without a
    path URL, or one of which there is no string, is left out. -/
def addUrlSize (totLen : UInt64) : Option Bytes → UInt64
  | none => totLen
  -- a byte for the separator or the NUL
  | some cstring => totLen + UInt64.ofNat (strnlen cstring maxFileNameLen + 1)

/-- The first loop of `get_copied_files_as_str`. -/
def urlsSize (fileUrls : List (Option Bytes)) : UInt64 := fileUrls.foldl addUrlSize 0

/-- The second loop of `get_copied_files_as_str`, with `all_files`, `ptr` and `tot_len`. -/
def copyFileUrls : List (Option Bytes) → Bytes → Nat → UInt64 → Option (Bytes × Nat)
  | [], allFiles, ptr, _ => some (allFiles, ptr)
  | none :: fileUrls, allFiles, ptr, totLen => copyFileUrls fileUrls allFiles ptr totLen
  | some cstring :: fileUrls, allFiles, ptr, totLen => do
      let allFiles ← strncpy allFiles ptr cstring (min totLen.toNat maxFileNameLen)
      let urlLen := strnlen cstring maxFileNameLen
      let allFiles ← store allFiles (ptr + urlLen) [0x0a]
      copyFileUrls fileUrls allFiles (ptr + urlLen + 1) (totLen - UInt64.ofNat (urlLen + 1))

/-- `get_copied_files_as_str` once the buffer of `tot_len` bytes is there: the buffer at the end. -/
def joinFileUrls (fileUrls : List (Option Bytes)) (allFiles : Bytes) (totLen : UInt64) :
    Option Bytes := do
  let (allFiles, ptr) ← copyFileUrls fileUrls allFiles 0 totLen
  -- the last separator is replaced
  store allFiles (sizePred ptr) [0]

/-- `get_copied_files_as_str`: the offset, and the block that is returned; `none` for the block
    stands for a null pointer.  `mallocOk` tells whether there is memory. -/
def Mac.getCopiedFilesAsStr (junk : Nat → UInt8) (mallocOk : Bool)
    (fileUrls : Option (List (Option Bytes))) : Option (Int × Option Bytes) :=
  match fileUrls with
  | none => some (0, none)
  | some fileUrls =>
    let totLen := urlsSize fileUrls
    if mallocOk then do
      let allFiles ← joinFileUrls fileUrls (malloc junk totLen.toNat) totLen
      return (0, some allFiles)
    else return (0, none)

end ClipShare
