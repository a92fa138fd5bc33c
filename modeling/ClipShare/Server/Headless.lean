import ClipShare.Interaction.Stopped
import ClipShare.Server.Utils

namespace ClipShare

open Interaction Posix

/-!
# The clipboard without a desktop

With `HEADLESS`, `utils.c` keeps the clipboard in a directory: one file has the type of what was
copied, another one the text.

* `Headless.getCopiedType`, `Headless.getClipboardText` — reading the clipboard;
* `Headless.putClipboardText`, `Headless.setClipboardCutFiles` — storing into it;
* `Headless.Operation` — the operations, `Headless.perform` — their programs.

The marker file that `create_temp_file` makes beside the directory is left out.
-/

namespace Headless

/-- `CLIPBOARD_DATA_DIR CLIPBOARD_TYPE_FILE`. -/
def typeFile : Bytes := ascii "/tmp/clipshare-data/type"

/-- `CLIPBOARD_DATA_DIR CLIPBOARD_TEXT_FILE`. -/
def textFile : Bytes := ascii "/tmp/clipshare-data/text"

/-- What `fscanf` with `%7[^\n]` reads: some bytes up to the end of the line. -/
def scanLine (content : Bytes) : Option Bytes :=
  let line := (content.takeWhile (· ≠ 0x0a)).take 7
  if line = [] then none else some line

/-- The copied type that a line stands for. -/
def typeOfLine (line : Bytes) : CopiedType :=
  if cstr line = ascii "TEXT" then .text
  else if cstr line = ascii "FILE" then .file
  else if cstr line = ascii "IMAGE" then .image
  else .none

/-- `get_copied_type`. -/
def getCopiedType : Proc CopiedType := do
  match ← openRead typeFile with
  | none => return .none
  | some f =>
    match scanLine (← fread f 0 8) with
    | none => return .none
    | some line => return typeOfLine line

/-- `get_clipboard_text`: the text up to its first NUL. -/
def getClipboardText (env : Env) : Proc (Option Bytes) := do
  if (← getCopiedType) ≠ .text then return none
  else match ← openRead textFile with
    | none => return none
    | some f => do
      let sz ← getFileSize f
      if sz ≤ 0 ∨ sz > env.configuration.maxTextLength.toNat then return none
      else do
        let buf ← fread f 0 sz.toNat
        if buf.length ≠ sz.toNat ∨ buf.head? = some 0 then return none
        else return some (cstr buf)

/-- `put_clipboard_text`: the type is cleared first and written last. -/
def putClipboardText (data : Bytes) : Proc Status := do
  match ← openWrite typeFile with
  | none => return .failure
  | some ft =>
    match ← openWrite textFile with
    | none => return .failure
    | some fd => do
      let written ← fwrite fd 0 data
      if written ≠ data.length then return .failure
      else do
        let written ← fwrite ft 0 (ascii "TEXT")
        if written ≠ 4 then return .failure else return .success

/-- `set_clipboard_cut_files`: the files are those of the working directory. -/
def setClipboardCutFiles : Proc Status := do
  match ← openWrite typeFile with
  | none => return .failure
  | some ft => do
    let written ← fwrite ft 0 (ascii "FILE")
    if written ≠ 4 then return .failure else return .success

/-! ### Operations -/

/-- What the methods of the protocol do with the clipboard. -/
inductive Operation
  | putText (data : Bytes)
  | cutFiles
  | getText
  | getType
  deriving DecidableEq

/-- What they get back. -/
inductive Outcome
  | status (status : Status)
  | text (text : Option Bytes)
  | type (type : CopiedType)
  deriving DecidableEq

/-- The program of an operation. -/
def perform (env : Env) : Operation → Proc Outcome
  | .putText data => do return .status (← putClipboardText data)
  | .cutFiles => do return .status (← setClipboardCutFiles)
  | .getText => do return .text (← getClipboardText env)
  | .getType => do return .type (← getCopiedType)

/-- An operation in the session that performs it.  The session is stopped after `calls` calls, if it
    has not returned by then. -/
structure Turn where
  operation : Operation
  session : Session
  calls : Nat

/-- Operations one after the other: what they get back, and the host at the end. -/
def performAll (env : Env) : List Turn → Host → List (Option Outcome) × Host
  | [], h => ([], h)
  | turn :: turns, h =>
      let (outcome, _, h) := ((perform env turn.operation).upTo turn.calls).run respond
        (turn.session, h)
      let (outcomes, h) := performAll env turns h
      (outcome :: outcomes, h)

end Headless

end ClipShare
