import ClipShare.Interaction.Notes
import ClipShare.Posix.Block
import ClipShare.Server.Methods

namespace ClipShare

open Interaction Posix

/-!
# The buffers of file names

The functions that receive and move files, with the buffers that they keep names and paths in.  A
buffer is a block of memory; what a function reads and writes of it is noted, and so is every text
that `snprintf_check` makes and every path for the clipboard.  A write outside of the buffer is
noted and not made.  Allocations succeed; `junk` is what a fresh buffer holds.

* `BufferNote` — the notes, and the good ones;
* `readString`, `writeBytes`, `copyString`, `moveBytes`, `format` — the accesses;
* `Buffered.sendFileV1` — `send_file_v1`, with `_get_base_name` and `_rename_if_exists`;
* `Buffered.saveFile` — `save_file`, with `_make_directories`;
* `Buffered.checkAndRename` — `_check_and_rename`.
-/

/-- What a function does with a buffer of `size` bytes: it reads or writes `n` bytes from position
    `i` on, or it makes a text of `len` bytes with room for `size` bytes.  The last note is the path
    that was built for a name. -/
inductive BufferNote
  | read (size i n : Nat)
  | write (size i n : Nat)
  | format (size len : Nat)
  | path (cwd name built : Bytes)

/-- The access stays inside the buffer, the text fits with its NUL, and the path is the working
    directory, a separator and the name in full. -/
def BufferNote.Good : BufferNote → Prop
  | .read size i n => i + n ≤ size
  | .write size i n => i + n ≤ size
  | .format size len => len < size
  | .path cwd name built => built = cwd ++ sep :: name

/-- Programs of a session that note what they do with buffers. -/
abbrev BufferProc := Prog (Calls.withNotes BufferNote)

namespace Buffered

open Prog (note lift)

/-! ### Accesses -/

/-- Read the string at position `i`, with its NUL. -/
def readString (buf : Bytes) (i : Nat) : BufferProc Bytes := do
  note (.read buf.length i ((cstr (buf.drop i)).length + 1))
  return cstr (buf.drop i)

/-- Write bytes at position `i`. -/
def writeBytes (buf : Bytes) (i : Nat) (b : Bytes) : BufferProc Bytes := do
  note (.write buf.length i b.length)
  return (store buf i b).getD buf

/-- `strncpy` of the string at position `j` of `src`. -/
def copyString (dest : Bytes) (i : Nat) (src : Bytes) (j n : Nat) : BufferProc Bytes := do
  note (.read src.length j (min ((cstr (src.drop j)).length + 1) n))
  note (.write dest.length i n)
  return (strncpy dest i (src.drop j) n).getD dest

/-- `memmove` inside a buffer, from position `j` to position `i`. -/
def moveBytes (buf : Bytes) (i j n : Nat) : BufferProc Bytes := do
  note (.read buf.length j n)
  note (.write buf.length i n)
  return (store buf i ((buf.drop j).take n)).getD buf

/-- `snprintf_check`: the buffer with the text; none if the text was cut. -/
def format (buf : Bytes) (size : Nat) (text : Bytes) : BufferProc (Option Bytes) := do
  note (.format size text.length)
  note (.write buf.length 0 (min (text.length + 1) size))
  if text.length ≥ size then return none else return some ((snprintf buf 0 size text).getD buf)

/-- `strrchr`: the position of the last `c` in the string of a buffer. -/
def strrchr (buf : Bytes) (c : UInt8) : BufferProc (Option Nat) := do
  let s ← readString buf 0
  return (beforeLast c s).map List.length

/-- `read_sock` into a buffer. -/
def readInto (buf : Bytes) (n : Nat) : BufferProc (Option Bytes) := do
  note (.write buf.length 0 n)
  match ← lift (readSock n) with
  | none => return none
  | some data => return some ((store buf 0 data).getD buf)

/-! ### Shared functions -/

/-- `_is_valid_fname`; the loop looks at no more than the string. -/
def isValidFname (fname : Bytes) (nameLength : Nat) : BufferProc Bool := do
  note (.read fname.length 0 nameLength)
  let s ← readString fname 0
  return validUtf8 (fname.take nameLength) ∧ s ≠ [] ∧ !s.any (· < 32)

/-- The loop of `_rename_if_exists` and `_check_and_rename`, with the buffer of the candidates. -/
def freeName (size : Nat) (fileName : Bytes) : Nat → Bytes → BufferProc (Option Bytes)
  | 0, tmp => do
      let path ← readString tmp 0
      if ← lift (fileExists path) then return none else return some tmp
  | left + 1, tmp => do
      let path ← readString tmp 0
      if ← lift (fileExists path) then do
        let name ← readString fileName 0
        match ← format tmp size (candidate (1000000 - (left + 1)) name) with
        | none => return none
        | some tmp => freeName size fileName left tmp
      else return some tmp

/-- The path for the clipboard, of the name at position `start` of a buffer: `cwd_len` bytes of the
    working directory, a separator and at most `name_max_len + 1` bytes of the name. -/
def clipboardPath (junk : Nat → UInt8) (env : Env) (name : Bytes) (start nameMaxLen : Nat) :
    BufferProc Bytes := do
  let cwdLen := strnlen env.cwd maxFileNameLen
  let path ← copyString (malloc junk (cwdLen + nameMaxLen + 2)) 0 (env.cwd ++ [0]) 0 (cwdLen + 1)
  let path ← writeBytes path cwdLen [sep]
  let path ← copyString path (cwdLen + 1) name start (nameMaxLen + 1)
  let path ← writeBytes path (cwdLen + nameMaxLen + 1) [0]
  readString path 0

/-! ### Files in version 1 -/

/-- `_get_base_name`. -/
def getBaseName (fileName : Bytes) (nameLength : Nat) : BufferProc Bytes := do
  match ← strrchr fileName sep with
  | none => return fileName
  | some slash => do
      let baseName := slash + 1
      -- `strnlen`
      note (.read fileName.length baseName
        (min ((cstr (fileName.drop baseName)).length + 1) nameLength))
      moveBytes fileName 0 baseName (strnlen (fileName.drop baseName) nameLength + 1)

/-- `_rename_if_exists`: the buffer with the file name to use. -/
def renameIfExists (junk : Nat → UInt8) (env : Env) (fileName : Bytes) (maxLen : Nat) :
    BufferProc (Option Bytes) := do
  let name ← readString fileName 0
  match ← format (malloc junk (maxLen + 1)) maxLen (firstCandidate env name) with
  | none => return none
  | some tmp =>
    match ← freeName maxLen fileName 999999 tmp with
    | none => return none
    | some tmp => do
        let fileName ← copyString fileName 0 tmp 0 maxLen
        return some (← writeBytes fileName maxLen [0])

/-- The second half of `send_file_v1`, once the name is known. -/
def storeFile (junk : Nat → Nat → UInt8) (env : Env) (fileName : Bytes) (nameMaxLen : Nat) :
    BufferProc Status := do
  match ← renameIfExists (junk 1) env fileName nameMaxLen with
  | none => return .failure
  | some fileName => do
    let name ← readString fileName 0
    match ← lift (saveFileCommon env 1 name) with
    | .failure => return .failure
    | .success => do
      lift closeSocketNoWait
      if env.configuration.cutSentFiles ≠ 0 then do
        let path ← clipboardPath (junk 2) env fileName 0 nameMaxLen
        note (.path env.cwd name path)
        return Status.ofBool (← lift (setClipboardCutFiles [path]))
      else return .success

/-- `send_file_v1`. -/
def sendFileV1 (junk : Nat → Nat → UInt8) (env : Env) : BufferProc Status := do
  if !(← lift (writeSock [statusOk])) then return .failure
  else match ← lift readSize with
    | none => return .failure
    | some nameLength =>
      if nameLength ≤ 0 ∨ nameLength > maxFileNameLen then return .failure
      else
        -- room for a number in front of the name
        let nameMaxLen := nameLength.toNat + 16
        if nameMaxLen > maxFileNameLen then do
          lift (error (ascii "Too long file name."))
          return .failure
        else match ← readInto (malloc (junk 0) (nameMaxLen + 1)) nameLength.toNat with
          | none => return .failure
          | some fileName => do
            let fileName ← writeBytes fileName nameLength.toNat [0]
            if !(← isValidFname fileName nameLength.toNat) then return .failure
            else do
              let fileName ← getBaseName fileName nameLength.toNat
              -- what is left of the name must not be a path
              let name ← readString fileName 0
              if sep ∈ name then return .failure
              else storeFile junk env fileName nameMaxLen

/-! ### Directories of files -/

/-- `_make_directories`: the path is cut at its last separator for a while. -/
def makeDirectories (path : Bytes) : BufferProc (Status × Bytes) := do
  match ← strrchr path sep with
  | none => return (.failure, path)
  | some baseName => do
      let path ← writeBytes path baseName [0]
      let parent ← readString path 0
      let status ← lift (mkdirs parent)
      let path ← writeBytes path baseName [sep]
      return (status, path)

/-- `save_file`: a separator at the end of the name is dropped. -/
def dropSeparator (fileName : Bytes) (nameLength : Nat) : BufferProc Bytes := do
  note (.read fileName.length (nameLength - 1) 1)
  if fileName.getD (nameLength - 1) 0 = sep then writeBytes fileName (nameLength - 1) [0]
  else return fileName

/-- `save_file`: the path at which a name is stored. -/
def uploadPath (junk : Nat → UInt8) (dirname fileName : Bytes) (nameLength : Nat) :
    BufferProc (Option Bytes) := do
  note (.read fileName.length 0 1)
  let first := fileName.getD 0 0
  let name ← readString fileName 0
  format (malloc junk (nameLength + 20)) (nameLength + 20)
    (if first = sep then dirname ++ name else dirname ++ sep :: name)

/-- The end of `save_file`, once the path is known. -/
def saveNewFile (env : Env) (version : Nat) (newPath : Bytes) : BufferProc Status := do
  match ← makeDirectories newPath with
  | (.failure, _) => return .failure
  | (.success, newPath) => do
    let path ← readString newPath 0
    if ← lift (fileExists path) then return .failure
    else lift (saveFileCommon env version path)

/-- `save_file`. -/
def saveFile (junk : Nat → Nat → UInt8) (env : Env) (version : Nat) (dirname : Bytes) :
    BufferProc Status := do
  match ← lift readSize with
  | none => return .failure
  | some fnameSize =>
    if fnameSize ≤ 0 ∨ fnameSize > maxFileNameLen then return .failure
    else
      let nameLength := fnameSize.toNat
      match ← readInto (malloc (junk 0) (nameLength + 1)) nameLength with
      | none => return .failure
      | some fileName => do
        let fileName ← writeBytes fileName nameLength [0]
        if !(← isValidFname fileName nameLength) then return .failure
        else do
          let fileName ← dropSeparator fileName nameLength
          match ← uploadPath (junk 1) dirname fileName nameLength with
          | none => return .failure
          | some newPath => do
            -- the path must not go to a parent directory
            let path ← readString newPath 0
            if badPath <:+: path then return .failure
            else saveNewFile env version newPath

/-- `_check_and_rename`: the final path of an entry of the temporary directory. -/
def checkAndRename (junk : Nat → Nat → UInt8) (env : Env) (filename dirname : Bytes) :
    BufferProc (Option Bytes) := do
  let block := filename ++ [0]
  note (.read block.length 0 (min ((cstr block).length + 1) (maxFileNameLen + 1)))
  let nameLen := strnlen block (maxFileNameLen + 1)
  if nameLen > maxFileNameLen then do
    lift (error (ascii "Too long file name."))
    return none
  else
    let nameMaxLen := nameLen + 20
    let name ← readString block 0
    match ← format (malloc (junk 0) nameMaxLen) nameMaxLen (dirname ++ sep :: name) with
    | none => return none
    | some oldPath =>
      match ← format (malloc (junk 1) nameMaxLen) nameMaxLen (firstCandidate env name) with
      | none => return none
      | some newPath =>
        match ← freeName nameMaxLen block 999999 newPath with
        | none => return none
        | some newPath => do
          let old ← readString oldPath 0
          let new ← readString newPath 0
          if !(← lift (renameFile old new)) then return none
          else do
            -- what follows the dot and the separator
            let path ← clipboardPath (junk 2) env newPath 2 nameMaxLen
            note (.path env.cwd (new.drop 2) path)
            return some path

end Buffered

end ClipShare
