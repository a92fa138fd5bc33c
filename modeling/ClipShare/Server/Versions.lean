import ClipShare.Server.Methods

namespace ClipShare

open Interaction Posix

/-!
# Versions and their methods

`versions.c` and `server.c`: the negotiation of the protocol version, and for each version the
choice of the method.

* `methodFlag` / `checkMethodEnabled` — methods that the configuration disables;
* `methods1` … `methods4` — the methods of each version, and `version1` … `version4`, which
  read the method byte and run the method;
* `server` — what a session does with its connection.
-/

/-! ### Method codes -/

def methodGetText : UInt8 := 1
def methodSendText : UInt8 := 2
def methodGetFile : UInt8 := 3
def methodSendFile : UInt8 := 4
def methodGetImage : UInt8 := 5
def methodGetCopiedImage : UInt8 := 6
def methodGetScreenshot : UInt8 := 7
def methodGetAny : UInt8 := 124
def methodInfo : UInt8 := 125

/-- `STATUS_UNKNOWN_METHOD`. -/
def statusUnknownMethod : UInt8 := 3

/-- `STATUS_METHOD_NOT_IMPLEMENTED`. -/
def statusMethodNotImplemented : UInt8 := 4

/-- The option that enables a method. -/
def methodFlag (m : MethodEnabled) (method : UInt8) : Option Int8 :=
  if method = methodGetText then some m.getText
  else if method = methodSendText then some m.sendText
  else if method = methodGetFile then some m.getFiles
  else if method = methodSendFile then some m.sendFiles
  else if method = methodGetImage then some m.getImage
  else if method = methodGetCopiedImage then some m.getCopiedImage
  else if method = methodGetScreenshot then some m.getScreenshot
  else if method = methodGetAny then some m.getAny
  else if method = methodInfo then some m.info
  else none

/-- `check_method_enabled`. -/
def checkMethodEnabled (env : Env) (method : UInt8) : Proc Status := do
  if methodFlag env.configuration.methodEnabled method = some 0 then do
    let _ ← writeSock [statusMethodNotImplemented]
    closeSocketNoWait
    return .failure
  else return .success

/-! ### The methods of each version -/

/-- The methods of version 1. -/
def methods1 (method : UInt8) : Option Handler :=
  if method = methodGetText then some .getTextV1
  else if method = methodSendText then some .sendTextV1
  else if method = methodGetFile then some .getFilesV1
  else if method = methodSendFile then some .sendFileV1
  else if method = methodGetImage then some .getImageV1
  else if method = methodInfo then some .infoV1
  else none

/-- The methods of version 2. -/
def methods2 (method : UInt8) : Option Handler :=
  if method = methodGetText then some .getTextV1
  else if method = methodSendText then some .sendTextV1
  else if method = methodGetFile then some .getFilesV2
  else if method = methodSendFile then some .sendFilesV2
  else if method = methodGetImage then some .getImageV1
  else if method = methodInfo then some .infoV1
  else none

/-- The methods of version 3. -/
def methods3 (method : UInt8) : Option Handler :=
  if method = methodGetText then some .getTextV1
  else if method = methodSendText then some .sendTextV1
  else if method = methodGetFile then some .getFilesV3
  else if method = methodSendFile then some .sendFilesV3
  else if method = methodGetImage then some .getImageV1
  else if method = methodGetCopiedImage then some .getCopiedImageV3
  else if method = methodGetScreenshot then some .getScreenshotV3
  else if method = methodInfo then some .infoV1
  else none

/-- The methods of version 4. -/
def methods4 (method : UInt8) : Option Handler :=
  if method = methodGetText then some .getTextV4
  else if method = methodSendText then some .sendTextV4
  else if method = methodGetFile then some .getFilesV4
  else if method = methodSendFile then some .sendFilesV4
  else if method = methodGetImage then some .getImageV4
  else if method = methodGetCopiedImage then some .getCopiedImageV4
  else if method = methodGetScreenshot then some .getScreenshotV4
  else if method = methodGetAny then some .getAnyV4
  else if method = methodInfo then some .infoV4
  else none

/-- The methods of a version. -/
def methodsOf (version : UInt8) : UInt8 → Option Handler :=
  if version = 1 then methods1
  else if version = 2 then methods2
  else if version = 3 then methods3
  else if version = 4 then methods4
  else fun _ => none

/-- The program of a handler. -/
def handler (env : Env) : Handler → Proc Status
  | .getTextV1 => getTextV1 env
  | .sendTextV1 => sendTextV1 env
  | .getFilesV1 => getFilesV1 env
  | .sendFileV1 => sendFileV1 env
  | .getImageV1 => getImageV1 env
  | .infoV1 => infoV1
  | .getFilesV2 => getFilesV2 env
  | .sendFilesV2 => sendFilesV2 env
  | .getCopiedImageV3 => getCopiedImageV3 env
  | .getScreenshotV3 => getScreenshotV3 env
  | .getFilesV3 => getFilesV3 env
  | .sendFilesV3 => sendFilesV3 env
  | .getTextV4 => getTextV4 env
  | .sendTextV4 => sendTextV4 env
  | .getFilesV4 => getFilesV4 env
  | .sendFilesV4 => sendFilesV4 env
  | .getImageV4 => getImageV4 env
  | .getCopiedImageV4 => getCopiedImageV4 env
  | .getScreenshotV4 => getScreenshotV4 env
  | .getAnyV4 => getAnyV4 env
  | .infoV4 => infoV4 env

/-- The mark at the start of a handler. -/
def enter (hd : Handler) : Proc Unit := Prog.ask (S := Calls) (.enter hd) id

/-- What the functions `version_1` to `version_4` have in common: read the method, refuse it if
    it is disabled, and run it if the version has it.  `enter` marks the start of a handler. -/
def serveMethod (env : Env) (methods : UInt8 → Option Handler) : Proc Status := do
  match ← readSock 1 with
  | some [method] =>
    match ← checkMethodEnabled env method with
    | .failure => return .success
    | .success =>
      match methods method with
      | some hd => do
          enter hd
          handler env hd
      | none => do
          let _ ← writeSock [statusUnknownMethod]
          closeSocketNoWait
          return .failure
  | _ => return .failure

/-- `version_1`. -/
def version1 (env : Env) : Proc Status := serveMethod env methods1

/-- `version_2`. -/
def version2 (env : Env) : Proc Status := serveMethod env methods2

/-- `version_3`. -/
def version3 (env : Env) : Proc Status := serveMethod env methods3

/-- `version_4`. -/
def version4 (env : Env) : Proc Status := serveMethod env methods4

/-! ### Negotiation -/

/-- `PROTOCOL_SUPPORTED`. -/
def protocolSupported : UInt8 := 1

/-- `PROTOCOL_OBSOLETE`. -/
def protocolObsolete : UInt8 := 2

/-- `PROTOCOL_UNKNOWN`. -/
def protocolUnknown : UInt8 := 3

/-- The last part of `server`: the session in the version agreed on. -/
def serveVersion (env : Env) (version : UInt8) : Proc Unit :=
  if version = 0 then return ()
  else if version = 1 then do let _ ← version1 env
  else if version = 2 then do let _ ← version2 env
  else if version = 3 then do let _ ← version3 env
  else if version = 4 then do let _ ← version4 env
  else return ()

/-- `server`.  The second byte of an offer is the first byte of the 16-bit version. -/
def server (env : Env) : Proc Unit := do
  let minVersion := env.configuration.minProtoVersion
  let maxVersion := env.configuration.maxProtoVersion
  match ← readSock 1 with
  | some [version] =>
    if version.toNat < minVersion.toNat then do
      let _ ← writeSock [protocolObsolete]
      closeSocketNoWait
    else if version.toNat ≤ maxVersion.toNat then do
      if !(← writeSock [protocolSupported]) then return ()
      else serveVersion env version
    else if !(← writeSock [protocolUnknown]) then return ()
    else if !(← writeSock [maxVersion.toUInt8]) then return ()
    else match ← readSock 1 with
      | some [version] =>
        -- the client may not want to continue with a supported version
        if version.toNat ≠ maxVersion.toNat then closeSocketNoWait
        else serveVersion env version
      | _ => return ()
  | _ => return ()

end ClipShare
