import ClipShare.Server.Utils

namespace ClipShare

open Interaction Posix

/-!
# The methods of the protocol

`methods.c`, in the order of the file: first what the versions share, then the methods of
version 1, of version 2, and so on.  Every function answers a `Status`; the bytes it exchanges
with the client are calls on the socket.
-/

/-! ### Codes and limits -/

/-- `STATUS_OK`. -/
def statusOk : UInt8 := 1

/-- `STATUS_NO_DATA`. -/
def statusNoData : UInt8 := 2

/-- `FILE_BUF_SZ`. -/
def fileBufSz : Nat := 65536

/-- `MAX_IMAGE_SIZE`. -/
def maxImageSize : Nat := 1073741824

/-- `bad_path`: `/../`. -/
def badPath : Bytes := [0x2f, 0x2e, 0x2e, 0x2f]

/-- `INFO_NAME`. -/
def infoName : Bytes := ascii "clip_share"

/-! ### Shared functions -/

/-- `_send_data`: the length first and then the data. -/
def sendData (data : Bytes) : Proc Status := do
  if !(← sendSize data.length) then return .failure
  else if !(← writeSock data) then return .failure
  else return .success

/-- `_send_ack`. -/
def sendAck : Proc Status := return Status.ofBool (← writeSock [1])

/-- `_read_ack`. -/
def readAck : Proc Status := do
  match ← readSock 1 with
  | none => return .failure
  | some ack => if ack ≠ [1] then return .failure else return .success

/-- The end of the methods of version 4 that wait for an acknowledgement. -/
def thenAck (method : Proc Status) : Proc Status := do
  match ← method with
  | .failure => return .failure
  | .success =>
    match ← readAck with
    | .failure => return .failure
    | .success => do
      closeSocketNoWait
      return .success

/-- `_transfer_regular_file` after the size was sent: `off` bytes have been read and `fileSize`
    are left.  An empty read is tried again. -/
def transferContent (s : Stream) : Nat → Nat → Int → Proc Status
  | 0, _, _ => Prog.spin
  | fuel + 1, off, fileSize => do
      if fileSize ≤ 0 then return .success
      else do
        -- a whole buffer is asked for, however little is left
        let data ← fread s off fileBufSz
        if data = [] then transferContent s fuel off fileSize
        else if !(← writeSock data) then return .failure
        else transferContent s fuel (off + data.length) (fileSize - data.length)

/-- `_transfer_regular_file`. -/
def transferRegularFile (env : Env) (filePath filename : Bytes) : Proc Status := do
  match ← openRead filePath with
  | none => do
      error (ascii "Couldn't open some files")
      return .failure
  | some s => do
      let fileSize ← getFileSize s
      if fileSize < 0 ∨ fileSize > env.configuration.maxFileSize then return .failure
      else match ← sendData filename with
        | .failure => return .failure
        | .success =>
          if !(← sendSize fileSize) then return .failure
          else transferContent s env.fuel 0 fileSize

/-- `_transfer_directory`. -/
def transferDirectory (filename : Bytes) : Proc Status := do
  match ← sendData filename with
  | .failure => return .failure
  | .success => return Status.ofBool (← sendSize (-1))

/-- The name under which `_transfer_single_file` sends a path. -/
def transferName (version : Nat) (filePath : Bytes) (pathLen : Nat) : Bytes :=
  if version = 1 then afterLast sep filePath else filePath.drop pathLen

/-- `_transfer_single_file`. -/
def transferSingleFile (env : Env) (version : Nat) (filePath : Bytes) (pathLen : Nat) :
    Proc Status := do
  let filename := transferName version filePath pathLen
  if filename.length ≤ 0 ∨ filename.length > maxFileNameLen then do
    error (ascii "Invalid file name length.")
    return .failure
  -- a separator at the end stands for an empty directory
  else if filename.getLast? = some sep then transferDirectory filename.dropLast
  else transferRegularFile env filePath filename

/-- The loop over the files, in `_get_files_common` and `_respond_any_files`. -/
def transferFiles (env : Env) (version : Nat) (pathLen : Nat) : List Bytes → Proc Status
  | [] => return .success
  | filePath :: files => do
      match ← transferSingleFile env version filePath pathLen with
      | .failure => return .failure
      | .success => transferFiles env version pathLen files

/-- Is the number of files one that is sent? -/
def sendableFiles (env : Env) (files : List Bytes) : Bool :=
  files.length ≠ 0 ∧ ¬ files.length > env.configuration.maxFileCount.toNat

/-- `_get_files_common`. -/
def getFilesCommon (env : Env) (version : Nat) (fileList : Option (List Bytes)) (pathLen : Nat) :
    Proc Status := do
  match fileList.filter (sendableFiles env) with
  | none => do
      let _ ← writeSock [statusNoData]
      closeSocketNoWait
      return .failure
  | some files =>
      if !(← writeSock [statusOk]) then return .failure
      else if !(← sendSize files.length) then return .failure
      else transferFiles env version pathLen files

/-- The loop of `_save_file_common`: `off` bytes have been written and `fileSize` are left. -/
def saveContent (fileName : Bytes) (file : Nat) : Nat → Nat → Nat → Proc Status
  | 0, _, _ => return .success
  | fuel + 1, off, fileSize => do
      if fileSize = 0 then return .success
      else do
        let readLen := if fileSize < fileBufSz then fileSize else fileBufSz
        match ← readSock readLen with
        | none => do
            let _ ← removeFile fileName
            return .failure
        | some data => do
            let written ← fwrite file off data
            -- a short write
            if written < readLen then do
              let _ ← removeFile fileName
              return .failure
            else saveContent fileName file fuel (off + readLen) (fileSize - readLen)

/-- The loop asks for something, and for no more than is left. -/
theorem readLen_bounds {fileSize : Nat} (h : fileSize ≠ 0) :
    0 < (if fileSize < fileBufSz then fileSize else fileBufSz) ∧
      (if fileSize < fileBufSz then fileSize else fileBufSz) ≤ fileSize := by
  have hbuf : 0 < fileBufSz := by decide
  split <;> omega

/-- `_save_file_common`. -/
def saveFileCommon (env : Env) (version : Nat) (fileName : Bytes) : Proc Status := do
  match ← readSize with
  | none => return .failure
  | some fileSize =>
    if fileSize > env.configuration.maxFileSize then return .failure
    -- the size that stands for a directory
    else if fileSize = -1 ∧ version ≥ 3 then mkdirs fileName
    else if fileSize < 0 then return .failure
    else match ← openWrite fileName with
      | none => do
          error (ascii "Couldn't create some files")
          return .failure
      | some file => saveContent fileName file fileSize.toNat 0 fileSize.toNat

/-- `_is_valid_fname`: the UTF-8 check covers all the bytes, the loop stops at a NUL. -/
def isValidFname (fname : Bytes) : Bool :=
  validUtf8 fname ∧ cstr fname ≠ [] ∧ !(cstr fname).any (· < 32)

/-! ### Text -/

/-- A text that is sent: not empty, and not longer than `max_text_length`. -/
def sendableText (env : Env) (buf : Bytes) : Bool :=
  buf.length ≠ 0 ∧ ¬ buf.length > env.configuration.maxTextLength.toNat

/-- `get_text_v1`. -/
def getTextV1 (env : Env) : Proc Status := do
  match (← getClipboardText).filter (sendableText env) with
  | none => do
      let _ ← writeSock [statusNoData]
      closeSocketNoWait
      return .failure
  | some buf =>
      let text := convertEol buf
      if text.length ≤ 0 then do
        let _ ← writeSock [statusNoData]
        return .failure
      else if !(← writeSock [statusOk]) then return .failure
      else sendData text

/-- The end of `_send_text_common`, once the data is there and the socket is closed. -/
def storeText (data : Bytes) : Proc Status := do
  if !validUtf8 data then return .failure
  else
    let text := convertEol data
    if text.length ≤ 0 then return .failure
    else do
      let _ ← putClipboardText text
      return .success

/-- `_send_text_common`. -/
def sendTextCommon (env : Env) (version : Nat) : Proc Status := do
  if !(← writeSock [statusOk]) then return .failure
  else match ← readSize with
    | none => return .failure
    | some length =>
      if length ≤ 0 ∨ length > env.configuration.maxTextLength.toNat then return .failure
      else match ← readSock length.toNat with
        | none => return .failure
        | some data =>
          if version ≥ 4 then do
            match ← sendAck with
            | .failure => return .failure
            | .success => do
              -- wait until the client closes the connection
              closeSocket
              storeText data
          else do
            closeSocketNoWait
            storeText data

/-- `send_text_v1`. -/
def sendTextV1 (env : Env) : Proc Status := sendTextCommon env 1

/-! ### Files in version 1 -/

/-- `_get_base_name`. -/
def getBaseName (fileName : Bytes) : Bytes := afterLast sep fileName

/-- `.` and a separator. -/
def hereDir : Bytes := [0x2e, 0x2f]

/-- The first name that is tried for a file: `clipshare.conf` gets a number if the working
    directory is the one the configuration file is in. -/
def firstCandidate (env : Env) (fileName : Bytes) : Bytes :=
  if env.configuration.workingDir ≠ none ∨ fileName ≠ configFile then hereDir ++ fileName
  else hereDir ++ ascii "1_" ++ fileName

theorem length_firstCandidate (env : Env) (f : Bytes) :
    (firstCandidate env f).length ≤ f.length + 9 := by
  unfold firstCandidate
  split <;> simp [hereDir, ascii]

/-- The further names that are tried. -/
def candidate (n : Nat) (fileName : Bytes) : Bytes := hereDir ++ decimal n ++ 0x5f :: fileName

/-- A number of six digits makes a name nine bytes longer. -/
theorem length_candidate {n : Nat} {f : Bytes} (hn : n < 1000000) :
    (candidate n f).length ≤ f.length + 9 := by
  have hdigits : (decimal n).length ≤ 6 := by
    unfold decimal
    rw [List.length_map]
    exact (Nat.length_toDigits_le_iff (by omega) (by omega)).mpr hn
  have hdir : hereDir.length = 2 := rfl
  unfold candidate
  rw [List.length_append, List.length_append, List.length_cons]
  omega

/-- The loop of `_rename_if_exists` and `_check_and_rename`: the first candidate that is not
    there.  `left` candidates are left, the next one is number `1000000 - left`; `size` is the
    size of the buffer. -/
def freeName (size : Nat) (fileName : Bytes) : Nat → Bytes → Proc (Option Bytes)
  | 0, tmp => do
      if ← fileExists tmp then return none else return some tmp
  | left + 1, tmp => do
      if ← fileExists tmp then
        match snprintfCheck size (candidate (1000000 - (left + 1)) fileName) with
        | none => return none
        | some tmp => freeName size fileName left tmp
      else return some tmp

/-- `_rename_if_exists`: the file name to use, for a buffer of `maxLen` bytes. -/
def renameIfExists (env : Env) (fileName : Bytes) (maxLen : Nat) : Proc (Option Bytes) :=
  match snprintfCheck maxLen (firstCandidate env fileName) with
  | none => return none
  | some tmp => freeName maxLen fileName 999999 tmp

/-- `get_files_v1`. -/
def getFilesV1 (env : Env) : Proc Status := do
  let fileList ← getCopiedFiles
  getFilesCommon env 1 fileList 0

/-- The end of the upload methods: with `cut_sent_files`, the files go to the clipboard. -/
def cutSentFiles (env : Env) (paths : List Bytes) : Proc Status := do
  if env.configuration.cutSentFiles ≠ 0 then return Status.ofBool (← setClipboardCutFiles paths)
  else return .success

/-- The second half of `send_file_v1`, once the name is known. -/
def storeFile (env : Env) (fileName : Bytes) (nameMaxLen : Nat) : Proc Status := do
  match ← renameIfExists env fileName nameMaxLen with
  | none => return .failure
  | some fileName =>
    match ← saveFileCommon env 1 fileName with
    | .failure => return .failure
    | .success => do
      closeSocketNoWait
      cutSentFiles env [env.cwd ++ sep :: fileName]

/-- `send_file_v1`. -/
def sendFileV1 (env : Env) : Proc Status := do
  if !(← writeSock [statusOk]) then return .failure
  else match ← readSize with
    | none => return .failure
    | some nameLength =>
      if nameLength ≤ 0 ∨ nameLength > maxFileNameLen then return .failure
      else
        -- room for a number in front of the name
        let nameMaxLen := nameLength.toNat + 16
        if nameMaxLen > maxFileNameLen then do
          error (ascii "Too long file name.")
          return .failure
        else match ← readSock nameLength.toNat with
          | none => return .failure
          | some fileName =>
            if !isValidFname fileName then return .failure
            else
              let fileName := getBaseName (cstr fileName)
              -- what is left of the name must not be a path
              if sep ∈ fileName then return .failure
              else storeFile env fileName nameMaxLen

/-! ### Images and the server information -/

/-- An image that is sent. -/
def sendableImage (buf : Bytes) : Bool := buf.length ≠ 0 ∧ ¬ buf.length > maxImageSize

/-- `_get_image_common`. -/
def getImageCommon (env : Env) (mode : ImageMode) (disp : UInt16) : Proc Status := do
  match (← getImage env mode disp).filter sendableImage with
  | none => do
      let _ ← writeSock [statusNoData]
      closeSocketNoWait
      return .failure
  | some buf =>
      if !(← writeSock [statusOk]) then return .failure
      else sendData buf

/-- `get_image_v1`. -/
def getImageV1 (env : Env) : Proc Status := getImageCommon env .any 0

/-- `info_v1`. -/
def infoV1 : Proc Status := do
  if !(← writeSock [statusOk]) then return .failure
  else sendData infoName

/-! ### Uploads of files and directories -/

/-- `_make_directories`: the parent directories of a path. -/
def makeDirectories (path : Bytes) : Proc Status :=
  match beforeLast sep path with
  | none => return .failure
  | some parent => mkdirs parent

/-- The path at which `save_file` stores a name: one separator at its end is dropped. -/
def uploadPath (dirname fileName : Bytes) : Option Bytes :=
  let name := cstr (if fileName.getLast? = some sep then fileName.dropLast else fileName)
  snprintfCheck (fileName.length + 20)
    (if name.head? = some sep then dirname ++ name else dirname ++ sep :: name)

/-- The end of `save_file`, once the path is known. -/
def saveNewFile (env : Env) (version : Nat) (newPath : Bytes) : Proc Status := do
  match ← makeDirectories newPath with
  | .failure => return .failure
  | .success =>
    if ← fileExists newPath then return .failure
    else saveFileCommon env version newPath

/-- `save_file`. -/
def saveFile (env : Env) (version : Nat) (dirname : Bytes) : Proc Status := do
  match ← readSize with
  | none => return .failure
  | some fnameSize =>
    if fnameSize ≤ 0 ∨ fnameSize > maxFileNameLen then return .failure
    else match ← readSock fnameSize.toNat with
      | none => return .failure
      | some fileName =>
        if !isValidFname fileName then return .failure
        else match uploadPath dirname fileName with
          | none => return .failure
          | some newPath =>
            -- the path must not go to a parent directory
            if badPath <:+: newPath then return .failure
            else saveNewFile env version newPath

/-- `_check_and_rename`: the final path of an entry of the temporary directory. -/
def checkAndRename (env : Env) (filename dirname : Bytes) : Proc (Option Bytes) := do
  if filename.length > maxFileNameLen then do
    error (ascii "Too long file name.")
    return none
  else
    let nameMaxLen := filename.length + 20
    match snprintfCheck nameMaxLen (dirname ++ sep :: filename) with
    | none => return none
    | some oldPath =>
      match snprintfCheck nameMaxLen (firstCandidate env filename) with
      | none => return none
      | some newPath =>
        match ← freeName nameMaxLen filename 999999 newPath with
        | none => return none
        | some newPath =>
          if !(← renameFile oldPath newPath) then return none
          else return some (env.cwd ++ sep :: newPath.drop 2)

/-- The loop of `clean_temp_dir`: the final paths, and whether all entries were moved. -/
def moveFiles (env : Env) (tmpDir : Bytes) : List Name → Proc (List Bytes × Status)
  | [] => return ([], .success)
  | filename :: files => do
      let newPath ← checkAndRename env filename tmpDir
      -- the loop goes on after an entry that could not be moved
      let (destFiles, status) ← moveFiles env tmpDir files
      match newPath with
      | none => return (destFiles, .failure)
      | some path => return (path :: destFiles, status)

/-- `clean_temp_dir`. -/
def cleanTempDir (env : Env) (tmpDir : Bytes) (files : List Name) : Proc (Option (List Bytes)) := do
  let (destFiles, status) ← moveFiles env tmpDir files
  if status = .success then
    if ← removeDirectory tmpDir then return some destFiles else return none
  else return none

/-- The path of the temporary directory with a given number. -/
def tempName (id : UInt32) : Bytes := hereDir ++ hex id

/-- The loop of `_send_files_dirs` that looks for a directory name. -/
def freeTempName : Nat → UInt32 → Proc (Option Bytes)
  | 0, _ => Prog.spin
  | fuel + 1, id => do
      match snprintfCheck 17 (tempName id) with
      | none => return none
      | some dirname => do
          -- the next number is drawn in any case
          let id ← rand
          if ← fileExists dirname then freeTempName fuel id else return some dirname

/-- The loop of `_send_files_dirs` over the files that the client announced. -/
def saveFiles (env : Env) (version : Nat) (dirname : Bytes) : Nat → Proc Status
  | 0 => return .success
  | cnt + 1 => do
      match ← saveFile env version dirname with
      | .failure => return .failure
      | .success => saveFiles env version dirname cnt

/-- `_send_files_dirs`, once all files are saved or one has failed: acknowledge and close. -/
def finishUpload (version : Nat) (status : Status) : Proc Status := do
  if status = .success ∧ version ≥ 4 then do
    let status ← sendAck
    closeSocket
    return status
  else do
    closeSocketNoWait
    return status

/-- The end of `_send_files_dirs`: the saved files leave the temporary directory.  When the
    directory cannot be listed, `free_list` is called on a null pointer and the process dies. -/
def settleUpload (env : Env) (dirname : Bytes) (status : Status) : Proc Status := do
  match ← listDir dirname with
  | none => Prog.spin
  | some files =>
    -- nothing was saved
    if files.length = 0 then do
      let _ ← removeDirectory dirname
      return .failure
    else match status with
      | .failure => return .failure
      | .success =>
        match ← cleanTempDir env dirname files with
        -- entries that could not be moved stay where they are
        | none => return .success
        | some destFiles => cutSentFiles env destFiles

/-- `_send_files_dirs`. -/
def sendFilesDirs (env : Env) (version : Nat) : Proc Status := do
  if !(← writeSock [statusOk]) then return .failure
  else match ← readSize with
    | none => return .failure
    | some cnt =>
      if cnt ≤ 0 ∨ cnt > env.configuration.maxFileCount.toNat then return .failure
      else do
        let id ← time
        match ← freeTempName env.fuel id with
        | none => return .failure
        | some dirname =>
          match ← mkdirs dirname with
          | .failure => return .failure
          | .success => do
            let status ← saveFiles env version dirname cnt.toNat
            let status ← finishUpload version status
            settleUpload env dirname status

/-! ### Version 2 -/

/-- `get_files_v2`. -/
def getFilesV2 (env : Env) : Proc Status := do
  let copied ← getCopiedDirsFiles false
  getFilesCommon env 2 copied.lst copied.pathLen

/-- `send_files_v2`. -/
def sendFilesV2 (env : Env) : Proc Status := sendFilesDirs env 2

/-! ### Version 3 -/

/-- `_get_screenshot_common`. -/
def getScreenshotCommon (env : Env) : Proc Status := do
  if !(← writeSock [statusOk]) then return .failure
  else match ← readSize with
    | none => return .failure
    | some disp =>
      let disp := if disp ≤ 0 ∨ disp > 65536 then 0 else disp
      getImageCommon env .screenOnly (UInt16.ofNat disp.toNat)

/-- `get_copied_image_v3`. -/
def getCopiedImageV3 (env : Env) : Proc Status := getImageCommon env .copiedOnly 0

/-- `get_screenshot_v3`. -/
def getScreenshotV3 (env : Env) : Proc Status := getScreenshotCommon env

/-- `get_files_v3`. -/
def getFilesV3 (env : Env) : Proc Status := do
  let copied ← getCopiedDirsFiles true
  getFilesCommon env 3 copied.lst copied.pathLen

/-- `send_files_v3`. -/
def sendFilesV3 (env : Env) : Proc Status := sendFilesDirs env 3

/-! ### Version 4 -/

/-- `get_text_v4`. -/
def getTextV4 (env : Env) : Proc Status := thenAck (getTextV1 env)

/-- `send_text_v4`. -/
def sendTextV4 (env : Env) : Proc Status := sendTextCommon env 4

/-- `get_files_v4`. -/
def getFilesV4 (env : Env) : Proc Status := do
  let copied ← getCopiedDirsFiles true
  thenAck (getFilesCommon env 4 copied.lst copied.pathLen)

/-- `send_files_v4`. -/
def sendFilesV4 (env : Env) : Proc Status := sendFilesDirs env 4

/-- `get_image_v4`. -/
def getImageV4 (env : Env) : Proc Status := thenAck (getImageV1 env)

/-- `get_copied_image_v4`. -/
def getCopiedImageV4 (env : Env) : Proc Status := thenAck (getImageCommon env .copiedOnly 0)

/-- `get_screenshot_v4`. -/
def getScreenshotV4 (env : Env) : Proc Status := thenAck (getScreenshotCommon env)

/-- `_get_any_text`. -/
def getAnyText (env : Env) : Proc Status := do
  match (← getClipboardText).filter (sendableText env) with
  | none => do
      let _ ← writeSock [statusNoData]
      return .failure
  | some buf =>
      let text := convertEol buf
      if text.length ≤ 0 then do
        let _ ← writeSock [statusNoData]
        return .failure
      else if !(← writeSock [statusOk]) then return .failure
      else if !(← writeSock [CopiedType.text.code]) then return .failure
      else sendData text

/-- `_respond_any_files`. -/
def respondAnyFiles (env : Env) (files : List Bytes) (pathLen : Nat) : Proc Status := do
  if !(← writeSock [statusOk]) then return .failure
  else if !(← writeSock [CopiedType.file.code]) then return .failure
  else if !(← sendSize files.length) then return .failure
  else transferFiles env 4 pathLen files

/-- `_get_any_files`. -/
def getAnyFiles (env : Env) : Proc Status := do
  let copied ← getCopiedDirsFiles true
  match copied.lst.filter (sendableFiles env) with
  | none => do
      let _ ← writeSock [statusNoData]
      return .failure
  | some files => respondAnyFiles env files copied.pathLen

/-- `_get_any_image`. -/
def getAnyImage (env : Env) : Proc Status := do
  match (← getImage env .copiedOnly 0).filter sendableImage with
  | none => do
      let _ ← writeSock [statusNoData]
      return .failure
  | some buf =>
      if !(← writeSock [statusOk]) then return .failure
      else if !(← writeSock [CopiedType.image.code]) then return .failure
      else sendData buf

/-- The end of `get_any_v4`. -/
def finishAny (method : Proc Status) : Proc Status := do
  let res ← method
  let res ← match res with
    | .success => readAck
    | .failure => pure .failure
  closeSocketNoWait
  return res

/-- `get_any_v4`. -/
def getAnyV4 (env : Env) : Proc Status := do
  match ← getCopiedType with
  | .text => finishAny (getAnyText env)
  | .file => finishAny (getAnyFiles env)
  | .image => finishAny (getAnyImage env)
  | .none => do
      let _ ← writeSock [statusNoData]
      return .failure

/-- The payload of `info_v4`: the server name is added if it fits the buffer. -/
def infoPayload (env : Env) : Bytes :=
  match env.configuration.infoName with
  | none => infoName
  | some name =>
      infoName ++ (snprintfCheck (4097 - (infoName.length + 1))
        (ascii "\nserver_name=" ++ name)).getD []

/-- `info_v4`. -/
def infoV4 (env : Env) : Proc Status := thenAck do
  if !(← writeSock [statusOk]) then return .failure
  else sendData (infoPayload env)

end ClipShare
