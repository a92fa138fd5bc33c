import ClipShare.Server.Config
import ClipShare.Server.NetUtils

namespace ClipShare

open Interaction Posix

/-!
# Files, the clipboard and the screen

The functions of `utils.c` that the protocol is written with, for Linux.

* `Env` — what the source keeps in global variables;
* `fileExists` / `isDirectory` / `mkdirs` / `listDir` — directories;
* `convertEol` — line endings;
* `urlEncode` / `urlDecode` — file URLs;
* `getCopiedType`, `getClipboardText`, `putClipboardText`, `getImage` — the clipboard and the
  screen;
* `getCopiedFiles` / `getCopiedDirsFiles` — the list of copied files, for version 1 and for the
  later versions.

The copied files come as one buffer of lines which is decoded in place, and the functions that
walk over it advance by at most 2049 bytes a line.  The buffer is therefore a value that the
decoding changes.  Bytes beyond its end are taken to be NUL.
-/

/-- The global variables, and a bound on the loops that the source does not bound. -/
structure Env where
  configuration : Config
  cwd : Bytes
  fuel : Nat

/-- The default configuration, in the root directory. -/
def Env.default : Env := ⟨applyDefaultConf false Config.unset, ascii "/", 16⟩

def maxFileNameLen : Nat := 2048

/-- The name of the configuration file. -/
def configFile : Bytes := ascii "clipshare.conf"

/-! ### Library calls -/

/-- `time`. -/
def time : Proc UInt32 := Prog.ask (S := Calls) .time id

/-- `rand`. -/
def rand : Proc UInt32 := Prog.ask (S := Calls) .rand id

/-- `access`. -/
def access (path : Bytes) : Proc Bool := Prog.ask (S := Calls) (.access path) id

/-- `stat` and `lstat`. -/
def stat (path : Bytes) : Proc (Option Kind) := Prog.ask (S := Calls) (.stat path) id

/-- `mkdir`. -/
def mkdir (path : Bytes) : Proc Bool := Prog.ask (S := Calls) (.mkdir path) id

/-- `remove_directory`. -/
def removeDirectory (path : Bytes) : Proc Bool := Prog.ask (S := Calls) (.rmdir path) id

/-- `rename_file`. -/
def renameFile (oldName newName : Bytes) : Proc Bool :=
  Prog.ask (S := Calls) (.rename oldName newName) id

/-- `remove_file`. -/
def removeFile (filename : Bytes) : Proc Bool := Prog.ask (S := Calls) (.remove filename) id

/-- `opendir` and `readdir`. -/
def readDir (path : Bytes) : Proc (Option (List Name)) := Prog.ask (S := Calls) (.readDir path) id

/-- `open_file` for writing: the inode number. -/
def openWrite (filename : Bytes) : Proc (Option Nat) :=
  Prog.ask (S := Calls) (.openWrite filename) id

/-- `fwrite`: how many bytes were written. -/
def fwrite (file off : Nat) (data : Bytes) : Proc Nat :=
  Prog.ask (S := Calls) (.fwrite file off data) id

/-- `open_file` for reading. -/
def openRead (filename : Bytes) : Proc (Option Stream) :=
  Prog.ask (S := Calls) (.openRead filename) id

/-- `get_file_size`. -/
def getFileSize (s : Stream) : Proc Int := Prog.ask (S := Calls) (.fileSize s) id

/-- `fread`. -/
def fread (s : Stream) (off n : Nat) : Proc Bytes := Prog.ask (S := Calls) (.fread s off n) id

/-- `xclip_util` with `XCLIP_OUT`: the bytes that it counts. -/
def xclipUtilOut (target : Option Bytes) : Proc (Option Bytes) :=
  Prog.ask (S := Calls) (.xclipOut target) (Option.map Prod.fst)

/-- `xclip_util` with `XCLIP_OUT` for the list of targets: the bytes that it counts, and what its
    string goes on with. -/
def xclipUtilTargets : Proc (Option (Bytes × Bytes)) :=
  Prog.ask (S := Calls) (.xclipOut (some targetsName)) id

/-- `xclip_util` with `XCLIP_IN`. -/
def xclipUtilIn (target : Option Bytes) (data : Bytes) : Proc Bool :=
  Prog.ask (S := Calls) (.xclipIn target data) id

/-- `set_clipboard_cut_files`. -/
def setClipboardCutFiles (paths : List Bytes) : Proc Bool :=
  Prog.ask (S := Calls) (.cutFiles paths) id

/-- `screenshot_util`. -/
def screenshotUtil (disp : UInt16) : Proc (Option Bytes) :=
  Prog.ask (S := Calls) (.screenshot disp) id

/-- `error`: a line in the error log. -/
def error (msg : Bytes) : Proc Unit := Prog.ask (S := Calls) (.error msg) id

/-! ### Directories -/

/-- `file_exists`. -/
def fileExists (fileName : Bytes) : Proc Bool :=
  if fileName = [] then return false else access fileName

/-- `is_directory`; there are no symbolic links to follow. -/
def isDirectory (path : Bytes) : Proc Int := do
  if path = [] then return -1
  else match ← stat path with
    | none => return -1
    | some .dir => return 1
    | some _ => return 0

/-- `_mkdir_check`. -/
def mkdirCheck (path : Bytes) : Proc Status := do
  if ← fileExists path then
    if (← isDirectory path) ≠ 1 then return .failure else return .success
  else return Status.ofBool (← mkdir path)

/-- The loop of `mkdirs`: `done` is the part of the path before the current position. -/
def mkdirsLoop (done : Bytes) : Bytes → Proc Status
  | [] => mkdirCheck done
  | c :: rest =>
      if c = sep then do
        -- the string is cut here while the directory is made
        match ← mkdirCheck done with
        | .failure => return .failure
        | .success => mkdirsLoop (done ++ [c]) rest
      else mkdirsLoop (done ++ [c]) rest

/-- `mkdirs`. -/
def mkdirs (dirPath : Bytes) : Proc Status := do
  if dirPath.head? ≠ some 0x2e then return .failure
  else if ← fileExists dirPath then
    if (← isDirectory dirPath) = 1 then return .success else return .failure
  else if dirPath.length > maxFileNameLen then do
    error (ascii "Too long file name.")
    return .failure
  else mkdirsLoop [] dirPath

/-- `list_dir`. -/
def listDir (dirname : Bytes) : Proc (Option (List Name)) := readDir dirname

/-! ### Line endings -/

/-- `_convert_to_lf`: a CR directly before an LF is dropped. -/
def convertToLf : Bytes → Bytes
  | [] => []
  | [c] => [c]
  | c :: d :: s =>
      if c = 0x0d ∧ d = 0x0a then convertToLf (d :: s) else c :: convertToLf (d :: s)

/-- `convert_eol` on Linux and macOS: it sees the buffer up to its first NUL. -/
def convertEol (buf : Bytes) : Bytes := convertToLf (cstr buf)

/-! ### File URLs -/

/-- `file://`. -/
def fileScheme : Bytes := ascii "file://"

/-- `hex2char`. -/
def hex2char (h : UInt8) : Option UInt8 :=
  if 0x30 ≤ h ∧ h ≤ 0x39 then some (h - 0x30)
  else if 0x41 ≤ h ∧ h ≤ 0x46 then some (h - 0x41 + 10)
  else if 0x61 ≤ h ∧ h ≤ 0x66 then some (h - 0x61 + 10)
  else none

/-- The loop of `url_decode` from its read position.  It tests for the end of the string only
    after it has consumed a byte. -/
def urlDecodeLoop : Bytes → Option Bytes
  | [] => some [0]
  | [c] => if c = 0x25 then none else some [c]
  | c :: d :: s =>
      if c = 0x25 then
        match s with
        | [] => none
        | e :: s =>
          match hex2char d, hex2char e with
          | some a, some b =>
            match s with
            | [] => some [a * 16 + b]
            | f :: s =>
              if f = 0 then some [a * 16 + b]
              else (urlDecodeLoop (f :: s)).map ((a * 16 + b) :: ·)
          | _, _ => none
      else if d = 0 then some [c]
      else (urlDecodeLoop (d :: s)).map (c :: ·)

/-- `url_decode` on the buffer that starts with the string: the bytes it writes. -/
def urlDecode (buf : Bytes) : Option Bytes :=
  if fileScheme <+: buf then urlDecodeLoop (buf.drop fileScheme.length) else none

/-- The buffer after `url_decode` has written `s` and a NUL at its start. -/
def overwrite (buf s : Bytes) : Bytes := s ++ 0 :: buf.drop (s.length + 1)

/-- The bytes that `url_encode` leaves as they are. -/
def urlSafe (b : UInt8) : Bool :=
  (0x61 ≤ b && b ≤ 0x7a) || (0x40 ≤ b && b ≤ 0x5a) || (0x26 ≤ b && b ≤ 0x3a) || b == 0x5f ||
    b == 0x3d || b == 0x21 || b == 0x7e

/-- A hexadecimal digit, as `url_encode` writes it. -/
def hexDigit (a : UInt8) : UInt8 := if a < 10 then a + 0x30 else a + 55

/-- What `url_encode` writes for one byte. -/
def urlEncodeByte (b : UInt8) : Bytes :=
  if urlSafe b then [b] else [0x25, hexDigit (b / 16), hexDigit (b % 16)]

/-- `url_encode`. -/
def urlEncode (str : Bytes) : Bytes := fileScheme ++ str.flatMap urlEncodeByte

/-! ### The clipboard and the screen -/

/-- What the clipboard holds, as `get_copied_type` reports it. -/
inductive CopiedType
  | none
  | text
  | file
  | image
  deriving DecidableEq, Repr

/-- The byte that stands for a copied type in a reply. -/
def CopiedType.code : CopiedType → UInt8
  | .none => 0
  | .text => 1
  | .file => 2
  | .image => 3

/-- The target of copied files. -/
def gnomeCopiedFiles : Bytes := ascii "x-special/gnome-copied-files"

/-- `xclip_util` for reading, when it has to deliver something. -/
def xclipOut (target : Option Bytes) : Proc (Option Bytes) := do
  match ← xclipUtilOut target with
  | some buf => if buf = [] then return none else return some buf
  | none => return none

/-- `xclip_util` for reading the list of targets, when it has to deliver something. -/
def xclipTargets : Proc (Option (Bytes × Bytes)) := do
  match ← xclipUtilTargets with
  | some (targets, behind) => if targets = [] then return none else return some (targets, behind)
  | none => return none

/-- The loop of `doOut` in `xclip.c` over the names of the targets, for a buffer of `capacity`
    bytes: the text written so far, and what the last name left behind it if it did not fit.  When
    a name does not fit, the buffer gets room for the name but not for its newline and its NUL, and
    the name is written over by the next one. -/
def listTargets : List Bytes → Bytes → Bytes → Nat → Bytes × Bytes
  | [], out, left, _ => (out, left)
  | name :: names, out, _, capacity =>
      let name := cstr name
      let len := min name.length 511
      let capacity := if len + out.length + 1 ≥ capacity then len + out.length + 1 else capacity
      let line := name ++ [0x0a]
      if line.length < capacity - out.length then
        listTargets names (out ++ line.take (len + 1)) (line.drop (len + 1)) capacity
      else listTargets names out (line.take (capacity - out.length - 1)) capacity

/-- The text that `xclip_util` makes of the names of the targets, and what is left behind it. -/
def targetsText (names : List Bytes) : Bytes × Bytes := listTargets names [] [] 128

/-- The lines of a NUL-terminated string, as `strsep` cuts it. -/
def lines (buf : Bytes) : List Bytes := (cstr buf).splitOn 0x0a

/-- What a search that has found nothing leaves of a string: a newline is put back if what follows
    it begins before `endptr`, and the first one that is not put back ends the string. -/
def restoreLines (endptr : Nat) (text : Bytes) : Bytes :=
  text.take (endptr - 1) ++ (text.drop (endptr - 1)).takeWhile (· ≠ 0x0a)

/-- The three searches of `get_copied_type` in the string of targets. -/
def typeOfTargets (endptr : Nat) (text : Bytes) : CopiedType :=
  if (lines text).any fun t => gnomeCopiedFiles.isPrefixOf t then .file
  else
    let text := restoreLines endptr text
    if (lines text).any fun t => t == ascii "image/png" || t == ascii "image/jpeg" then .image
    else
      let text := restoreLines endptr text
      if (lines text).any fun t => (ascii "text/plain").isPrefixOf t ||
        (ascii "text/html").isPrefixOf t || t == ascii "UTF8_STRING" || t == ascii "TEXT" then .text
      else .none

/-- `get_copied_type`. -/
def getCopiedType : Proc CopiedType := do
  match ← xclipTargets with
  | none => return .none
  | some (targets, behind) => return typeOfTargets targets.length (cstr (targets ++ behind))

/-- `get_clipboard_text`. -/
def getClipboardText : Proc (Option Bytes) := xclipOut none

/-- `put_clipboard_text`. -/
def putClipboardText (data : Bytes) : Proc Status :=
  return Status.ofBool (← xclipUtilIn none data)

/-- Where `get_image` may take the image from. -/
inductive ImageMode
  | any
  | copiedOnly
  | screenOnly
  deriving DecidableEq, Repr

/-- An image of more than 8 bytes. -/
def properImage : Option Bytes → Option Bytes
  | some buf => if buf.length > 8 then some buf else none
  | none => none

/-- The display to capture: the one asked for if clients may select it. -/
def chosenDisplay (env : Env) (disp : UInt16) : UInt16 :=
  if disp ≤ 0 ∨ env.configuration.clientSelectsDisplay = 0 then env.configuration.display else disp

/-- `get_image`. -/
def getImage (env : Env) (mode : ImageMode) (disp : UInt16) : Proc (Option Bytes) := do
  let copied ← if mode = .screenOnly then pure none
    else xclipUtilOut (some (ascii "image/png"))
  match properImage copied with
  | some buf => return some buf
  | none =>
    if mode = .copiedOnly then return none
    else
      -- nothing usable was copied
      let shot ← screenshotUtil (chosenDisplay env disp)
      return properImage shot

/-! ### Copied files -/

/-- `get_copied_files_as_str`: the lines after the first one, which has to be `copy` or `cut`. -/
def getCopiedFilesAsStr : Proc (Option Bytes) := do
  match ← xclipTargets with
  | none => return none
  | some (targets, behind) =>
    if gnomeCopiedFiles ∉ lines (targets ++ behind) then return none
    else match ← xclipOut (some gnomeCopiedFiles) with
      | none => return none
      | some fnames =>
        match lines fnames with
        | [] => return none
        | [_] => return none
        | first :: rest =>
          if first ≠ ascii "copy" ∧ first ≠ ascii "cut" then return none
          else return some (List.intercalate [0x0a] rest)

/-- The buffer in which each line is a NUL-terminated string. -/
def lineBuffer (filePath : Bytes) : Bytes := filePath.map (fun b => if b = 0x0a then 0 else b)

/-- The number of lines. -/
def lineCount (filePath : Bytes) : Nat := 1 + filePath.count 0x0a

/-- How far to go on for the next line: past the string at the start, but not far. -/
def lineOffset (buf : Bytes) : Nat := min (cstr buf).length maxFileNameLen + 1

/-- The loop of `get_copied_files` for the `cnt` lines that are left. -/
def copiedFilesLoop : Nat → Bytes → Proc (List Bytes)
  | 0, _ => return []
  | cnt + 1, buf => do
      -- measured before the line is decoded
      let off := lineOffset buf
      match urlDecode buf with
      | none => return []
      | some s =>
        let buf := overwrite buf s
        let fname := cstr s
        match ← stat fname with
        | some .regular => do
            let lst ← copiedFilesLoop cnt (buf.drop off)
            return fname :: lst
        | _ => copiedFilesLoop cnt (buf.drop off)

/-- `get_copied_files`. -/
def getCopiedFiles : Proc (Option (List Bytes)) := do
  match ← getCopiedFilesAsStr with
  | none => return none
  | some filePath =>
    if lineCount filePath ≥ 0xFFFFFFFF then return none
    else do
      let lst ← copiedFilesLoop (lineCount filePath) (lineBuffer filePath)
      return some lst

/-- The loop of `_recurse_dir` over the entries of a directory, whose path ends in a separator:
    what the entries contribute, and whether the loop came to its end. -/
def recurseEntries (process : Bytes → Proc (List Bytes)) (path : Bytes) :
    List Name → Proc (List Bytes × Bool)
  | [] => return ([], true)
  | filename :: names => do
      if filename.length + path.length > maxFileNameLen then do
        error (ascii "Too long file name.")
        return ([], false)
      else do
        let lst ← process (path ++ filename)
        let (more, complete) ← recurseEntries process path names
        return (lst ++ more, complete)

/-- `_process_path`, given how to go into a directory. -/
def processPath (recurse : Bytes → Proc (List Bytes)) (path : Bytes) : Proc (List Bytes) := do
  match ← stat path with
  | some .dir => recurse path
  | some .regular => return [path]
  | _ => return []

/-- `_recurse_dir`; `depth` counts the levels that are still allowed. -/
def recurseDir (includeLeafDirs : Bool) : Nat → Bytes → Proc (List Bytes)
  | 0, _ => return []
  | depth + 1, dirPath => do
      match ← listDir dirPath with
      | none => return []
      | some names =>
        if dirPath.length > maxFileNameLen then do
          error (ascii "Too long file name.")
          return []
        else do
          let path := if dirPath.getLast? = some sep then dirPath else dirPath ++ [sep]
          let (lst, complete) ←
            recurseEntries (processPath (recurseDir includeLeafDirs depth)) path names
          if complete ∧ includeLeafDirs ∧ names = [] then return lst ++ [path] else return lst

def maxRecurseDepth : Nat := 256

/-- `dir_files`: paths, and how many bytes of each to leave out of its name. -/
structure DirFiles where
  pathLen : Nat
  lst : Option (List Bytes)
  deriving DecidableEq

/-- What `get_copied_dirs_files` does to the first path: a separator at the end is removed. -/
def chopSep (s : Bytes) : Bytes := if s.getLast? = some sep then s.dropLast ++ [0] else s

/-- The length of the parent directory of the first path, with its separator. -/
def parentLength (fname : Bytes) : Nat :=
  match beforeLast sep fname with
  | some p => if p = [] then 0 else p.length + 1
  | none => 0

/-- The entries that one copied path contributes. -/
def copiedPath (includeLeafDirs : Bool) (fname : Bytes) : Proc (List Bytes) := do
  match ← stat fname with
  | some .dir => recurseDir includeLeafDirs maxRecurseDepth fname
  | some .regular => return [fname]
  | _ => return []

/-- The loop of `get_copied_dirs_files` for the `cnt` lines that are left; `first` tells whether
    the current line is the first one. -/
def copiedDirsFilesLoop (includeLeafDirs : Bool) : Bool → Nat → Bytes → Proc DirFiles
  | _, 0, _ => return ⟨0, some []⟩
  | first, cnt + 1, buf => do
      -- measured before the line is decoded
      let off := lineOffset buf
      match urlDecode buf with
      | none => return ⟨0, some []⟩
      | some s =>
        if s.length = 0 ∨ s.length > maxFileNameLen then return ⟨0, some []⟩
        else do
          -- names start behind the parent of the first path, which must not end in a separator
          let s := if first then chopSep s else s
          let buf := overwrite buf s
          let fname := cstr s
          let lst ← copiedPath includeLeafDirs fname
          let rest ← copiedDirsFilesLoop includeLeafDirs false cnt (buf.drop off)
          return ⟨if first then parentLength fname else 0, rest.lst.map (lst ++ ·)⟩

/-- `get_copied_dirs_files`. -/
def getCopiedDirsFiles (includeLeafDirs : Bool) : Proc DirFiles := do
  match ← getCopiedFilesAsStr with
  | none => return ⟨0, none⟩
  | some filePath =>
    if lineCount filePath ≥ 0xFFFFFFFF then return ⟨0, none⟩
    else copiedDirsFilesLoop includeLeafDirs true (lineCount filePath) (lineBuffer filePath)

end ClipShare
