import ClipShare.Server.Methods

namespace ClipShare

open Interaction Posix

/-!
# Texts in the Windows build

The Windows build keeps texts in the clipboard with CRLF.  This file has the functions of
`methods.c` that this changes; the names are those of the other builds, in a namespace of their
own.

* `crlfForm` — a CR before each LF that lacks one;
* `Windows.convertEol` — `convert_eol`, which may fail;
* `receiveText` — `_send_text_common` with its last step as a parameter;
* `Windows.sendTextCommon`, `Windows.getTextV1`, `Windows.getTextV4` — the methods.
-/

/-- The bytes of `s`, of which `prev` precedes the first one, with a CR before each LF that does
    not follow one. -/
def crlfFrom (prev : UInt8) (s : Bytes) : Bytes :=
  ((prev :: s).zip s).flatMap fun p =>
    if p.2 = 0x0a ∧ p.1 ≠ 0x0d then [0x0d, 0x0a] else [p.2]

/-- What `_convert_to_crlf` makes of a string. -/
def crlfForm (s : Bytes) : Bytes := crlfFrom 0 s

/-- `_send_text_common` up to the point where it stores the text. -/
def receiveText (env : Env) (version : Nat) (store : Bytes → Proc Status) : Proc Status := do
  if !(← writeSock [statusOk]) then return .failure
  else match ← readSize with
    | none => return .failure
    | some length =>
      if length ≤ 0 ∨ length > env.configuration.maxTextLength.toNat then return .failure
      else match ← readSock length.toNat with
        | none => return .failure
        | some data =>
          if version ≥ 4 then do
            match ← sendAck with
            | .failure => return .failure
            | .success => do
              closeSocket
              store data
          else do
            closeSocketNoWait
            store data

/-- The other builds store the text with LF. -/
theorem sendTextCommon_eq (env : Env) (version : Nat) :
    sendTextCommon env version = receiveText env version storeText := rfl

namespace Windows

/-- `convert_eol`: the string afterwards; none if it would be too long. -/
def convertEol (forceLf : Bool) (buf : Bytes) : Option Bytes :=
  let str := cstr buf
  if forceLf then some (convertToLf str)
  else if (crlfForm str).length = str.length then some str
  else if (crlfForm str).length ≥ 0xFFFFFFFF then none
  else some (crlfForm str)

/-- The end of `_send_text_common`. -/
def storeText (data : Bytes) : Proc Status := do
  if !validUtf8 data then return .failure
  else match convertEol false data with
    | none => return .failure
    | some text =>
      if text.length ≤ 0 then return .failure
      else do
        let _ ← putClipboardText text
        return .success

/-- `_send_text_common`. -/
def sendTextCommon (env : Env) (version : Nat) : Proc Status := receiveText env version storeText

/-- `get_text_v1`. -/
def getTextV1 (env : Env) : Proc Status := do
  match (← getClipboardText).filter (sendableText env) with
  | none => do
      let _ ← writeSock [statusNoData]
      closeSocketNoWait
      return .failure
  | some buf =>
      match convertEol true buf with
      | none => do
          let _ ← writeSock [statusNoData]
          return .failure
      | some text =>
        if text.length ≤ 0 then do
          let _ ← writeSock [statusNoData]
          return .failure
        else if !(← writeSock [statusOk]) then return .failure
        else sendData text

/-- `get_text_v4`. -/
def getTextV4 (env : Env) : Proc Status := thenAck (getTextV1 env)

end Windows

end ClipShare
