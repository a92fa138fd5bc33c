import ClipShare.Interaction.Confined
import ClipShare.Server.Versions
import ClipShare.Verify.Resources

namespace ClipShare

open Interaction Posix

/-!
# What the enabled methods give access to

A client chooses a version, a method and all that it sends.  What its session can touch is decided
by the methods that the configuration leaves enabled.  The server's own error log and the file that
`create_temp_file` makes are set aside: neither is in the tree.

* `Config.Grants` — what the methods that are not disabled give access to;
* `server_granted` — every call of a session touches what is granted;
* `sessions_leave` — no interleaving of sessions changes what no method may change;
* `sessions_blind` — no interleaving of sessions depends on what no method may read;
* `sessions_alone` — if the methods write nothing that they can read, every client is served as if
  it were alone.
-/

/-- The target of images. -/
def imagePng : Bytes := ascii "image/png"

/-- **The rights.**  What the methods that are not disabled give access to. -/
def Config.Grants (c : Config) : Resource → Prop
  | .own => True
  | .clipboard none => c.methodEnabled.getText ≠ 0 ∨ c.methodEnabled.getAny ≠ 0
  | .clipboard (some t) =>
      t = imagePng ∧ (c.methodEnabled.getImage ≠ 0 ∨ c.methodEnabled.getCopiedImage ≠ 0 ∨
        c.methodEnabled.getAny ≠ 0) ∨
      (t = targetsName ∨ t = gnomeCopiedFiles) ∧
        (c.methodEnabled.getFiles ≠ 0 ∨ c.methodEnabled.getAny ≠ 0)
  | .text => c.methodEnabled.sendText ≠ 0
  | .cut => c.methodEnabled.sendFiles ≠ 0 ∧ c.cutSentFiles ≠ 0
  | .screen => c.methodEnabled.getImage ≠ 0 ∨ c.methodEnabled.getScreenshot ≠ 0
  | .names => c.methodEnabled.getFiles ≠ 0 ∨ c.methodEnabled.getAny ≠ 0 ∨
      c.methodEnabled.sendFiles ≠ 0
  | .contents => c.methodEnabled.getFiles ≠ 0 ∨ c.methodEnabled.getAny ≠ 0
  | .tree => c.methodEnabled.sendFiles ≠ 0
  | .written => c.methodEnabled.sendFiles ≠ 0

/-! ### Programs that stay within some resources -/

/-- Every call touches one of the resources. -/
abbrev Stays {α : Type} (R : Resource → Prop) (p : Proc α) : Prop :=
  p.Only fun c : Call => R c.touches

section Stays

variable {R : Resource → Prop} {α : Type} {method : Proc Status} (hown : R .own)
include hown

theorem stays_writeSock (data : Bytes) : Stays R (writeSock data) := ⟨hown, fun _ => trivial⟩

theorem stays_readSock (n : Nat) : Stays R (readSock n) := ⟨hown, fun _ => trivial⟩

theorem stays_closeSocketNoWait : Stays R closeSocketNoWait := ⟨hown, fun _ => trivial⟩

theorem stays_closeSocket : Stays R closeSocket := ⟨hown, fun _ => trivial⟩

theorem stays_error (msg : Bytes) : Stays R (error msg) := ⟨hown, fun _ => trivial⟩

theorem stays_readSize : Stays R readSize := by
  refine (stays_readSock hown 8).bind fun r => ?_
  cases r <;> trivial

theorem stays_sendData (data : Bytes) : Stays R (sendData data) := by
  refine (stays_writeSock hown _).bind fun r => ?_
  cases r with
  | false => trivial
  | true =>
    refine (stays_writeSock hown _).bind fun r => ?_
    cases r <;> trivial

theorem stays_sendAck : Stays R sendAck := ⟨hown, fun _ => trivial⟩

theorem stays_readAck : Stays R readAck := by
  refine (stays_readSock hown 1).bind fun r => ?_
  cases r with
  | none => trivial
  | some ack =>
    show Prog.Only _ (if ack ≠ [1] then _ else _)
    split <;> trivial

/-- The answer to a request for which there is no data. -/
theorem stays_noData :
    Stays R (writeSock [statusNoData] >>= fun _ => closeSocketNoWait >>= fun _ =>
      (.ret .failure : Proc Status)) :=
  (stays_writeSock hown _).bind fun _ => (stays_closeSocketNoWait hown).bind fun _ =>
    Prog.only_ret _

/-- What follows a status that was sent. -/
theorem stays_status {code : UInt8} {rest : Proc Status} (hrest : Stays R rest) :
    Stays R (writeSock [code] >>= fun sent =>
      if !sent then (.ret .failure : Proc Status) else rest) := by
  refine (stays_writeSock hown _).bind fun sent => ?_
  cases sent with
  | false => trivial
  | true => exact hrest

theorem stays_thenAck (hmethod : Stays R method) : Stays R (thenAck method) := by
  refine hmethod.bind fun status => ?_
  cases status with
  | failure => trivial
  | success =>
    refine (stays_readAck hown).bind fun status => ?_
    cases status with
    | failure => trivial
    | success => exact (stays_closeSocketNoWait hown).bind fun _ => trivial

theorem stays_finishAny (hmethod : Stays R method) : Stays R (finishAny method) := by
  refine hmethod.bind fun status => ?_
  have hclose : ∀ res : Status, Stays R (closeSocketNoWait >>= fun _ => .ret res) :=
    fun res => (stays_closeSocketNoWait hown).bind fun _ => Prog.only_ret res
  cases status with
  | success => exact (stays_readAck hown).bind hclose
  | failure => exact hclose .failure

/-! ### Texts and images -/

omit hown in
theorem stays_xclipUtilOut {target : Option Bytes} (ht : R (.clipboard target)) :
    Stays R (xclipUtilOut target) := ⟨ht, fun _ => trivial⟩

omit hown in
theorem stays_xclipOut {target : Option Bytes} (ht : R (.clipboard target)) :
    Stays R (xclipOut target) := by
  refine (stays_xclipUtilOut ht).bind fun r => ?_
  cases r with
  | none => trivial
  | some buf =>
    show Prog.Only _ (if buf = [] then _ else _)
    split <;> trivial

omit hown in
theorem stays_xclipTargets (ht : R (.clipboard (some targetsName))) : Stays R xclipTargets := by
  have hask : Stays R xclipUtilTargets := ⟨ht, fun _ => trivial⟩
  refine hask.bind fun r => ?_
  rcases r with _ | ⟨targets, behind⟩
  · trivial
  · show Prog.Only _ (if targets = [] then _ else _)
    split <;> trivial

omit hown in
theorem stays_getCopiedType (ht : R (.clipboard (some targetsName))) : Stays R getCopiedType := by
  refine (stays_xclipTargets ht).bind fun r => ?_
  rcases r with _ | ⟨targets, behind⟩ <;> trivial

theorem stays_getTextV1 (ht : R (.clipboard none)) (env : Env) : Stays R (getTextV1 env) := by
  refine (stays_xclipOut ht).bind fun text => ?_
  cases text.filter (sendableText env) with
  | none => exact stays_noData hown
  | some buf =>
    simp only
    split
    · exact (stays_writeSock hown _).bind fun _ => Prog.only_ret _
    · exact stays_status hown (stays_sendData hown _)

theorem stays_getAnyText (ht : R (.clipboard none)) (env : Env) : Stays R (getAnyText env) := by
  refine (stays_xclipOut ht).bind fun text => ?_
  cases text.filter (sendableText env) with
  | none => exact (stays_writeSock hown _).bind fun _ => Prog.only_ret _
  | some buf =>
    simp only
    split
    · exact (stays_writeSock hown _).bind fun _ => Prog.only_ret _
    · exact stays_status hown (stays_status hown (stays_sendData hown _))

omit hown in
theorem stays_storeText (ht : R .text) (data : Bytes) : Stays R (storeText data) := by
  unfold storeText
  simp only
  split_ifs
  · trivial
  · trivial
  · exact ⟨ht, fun _ => trivial⟩

theorem stays_sendTextCommon (ht : R .text) (env : Env) (version : Nat) :
    Stays R (sendTextCommon env version) := by
  refine stays_status hown ?_
  refine (stays_readSize hown).bind fun r => ?_
  cases r with
  | none => trivial
  | some length =>
    simp only
    split
    · trivial
    · refine (stays_readSock hown _).bind fun r => ?_
      cases r with
      | none => trivial
      | some data =>
        simp only
        split
        · refine (stays_sendAck hown).bind fun status => ?_
          cases status with
          | failure => trivial
          | success => exact (stays_closeSocket hown).bind fun _ => stays_storeText ht data
        · exact (stays_closeSocketNoWait hown).bind fun _ => stays_storeText ht data

omit hown in
/-- A screenshot is taken unless the mode asks for a copied image. -/
theorem stays_getImage {mode : ImageMode}
    (ht : mode ≠ .screenOnly → R (.clipboard (some imagePng)))
    (hs : mode ≠ .copiedOnly → R .screen) (env : Env) (disp : UInt16) :
    Stays R (getImage env mode disp) := by
  cases mode with
  | any =>
    refine (stays_xclipUtilOut (ht nofun)).bind fun copied => ?_
    dsimp only
    cases properImage copied with
    | some buf => trivial
    | none => exact ⟨hs nofun, fun _ => trivial⟩
  | copiedOnly =>
    refine (stays_xclipUtilOut (ht nofun)).bind fun copied => ?_
    dsimp only
    cases properImage copied <;> trivial
  | screenOnly => exact ⟨hs nofun, fun _ => trivial⟩

theorem stays_getImageCommon {mode : ImageMode}
    (ht : mode ≠ .screenOnly → R (.clipboard (some imagePng)))
    (hs : mode ≠ .copiedOnly → R .screen) (env : Env) (disp : UInt16) :
    Stays R (getImageCommon env mode disp) := by
  refine (stays_getImage ht hs env disp).bind fun image => ?_
  cases image.filter sendableImage with
  | none => exact stays_noData hown
  | some buf => exact stays_status hown (stays_sendData hown _)

theorem stays_getScreenshotCommon (hs : R .screen) (env : Env) :
    Stays R (getScreenshotCommon env) := by
  refine stays_status hown ?_
  refine (stays_readSize hown).bind fun r => ?_
  cases r with
  | none => trivial
  | some disp => exact stays_getImageCommon hown nofun (fun _ => hs) env _

theorem stays_getAnyImage (ht : R (.clipboard (some imagePng))) (env : Env) :
    Stays R (getAnyImage env) := by
  refine (stays_getImage (fun _ => ht) nofun env 0).bind fun image => ?_
  cases image.filter sendableImage with
  | none => exact (stays_writeSock hown _).bind fun _ => Prog.only_ret _
  | some buf => exact stays_status hown (stays_status hown (stays_sendData hown _))

/-! ### Files that are sent -/

omit hown in
theorem stays_fileExists (hn : R .names) (fileName : Bytes) : Stays R (fileExists fileName) := by
  unfold fileExists
  split
  · trivial
  · exact ⟨hn, fun _ => trivial⟩

omit hown in
theorem stays_isDirectory (hn : R .names) (path : Bytes) : Stays R (isDirectory path) := by
  unfold isDirectory
  split
  · trivial
  · refine ⟨hn, fun kind => ?_⟩
    cases kind with
    | none => trivial
    | some kind => cases kind <;> trivial

omit hown in
theorem stays_getCopiedFilesAsStr (ht : R (.clipboard (some targetsName)))
    (hf : R (.clipboard (some gnomeCopiedFiles))) : Stays R getCopiedFilesAsStr := by
  refine (stays_xclipTargets ht).bind fun r => ?_
  rcases r with _ | ⟨targets, behind⟩
  · trivial
  · dsimp only
    split
    · trivial
    · refine (stays_xclipOut hf).bind fun fnames => ?_
      cases fnames with
      | none => trivial
      | some fnames =>
        dsimp only
        split
        · trivial
        · trivial
        · split <;> trivial

omit hown in
theorem stays_copiedFilesLoop (hn : R .names) (cnt : Nat) (buf : Bytes) :
    Stays R (copiedFilesLoop cnt buf) := by
  induction cnt generalizing buf with
  | zero => trivial
  | succ cnt ih =>
    unfold copiedFilesLoop
    cases urlDecode buf with
    | none => trivial
    | some s =>
      refine ⟨hn, fun kind => ?_⟩
      rcases kind with _ | _ | _ | _
      · exact ih _
      · exact ih _
      · exact (ih _).bind fun _ => trivial
      · exact ih _

omit hown in
theorem stays_getCopiedFiles (ht : R (.clipboard (some targetsName)))
    (hf : R (.clipboard (some gnomeCopiedFiles))) (hn : R .names) : Stays R getCopiedFiles := by
  refine (stays_getCopiedFilesAsStr ht hf).bind fun filePath => ?_
  cases filePath with
  | none => trivial
  | some filePath =>
    dsimp only
    split
    · trivial
    · exact (stays_copiedFilesLoop hn _ _).bind fun _ => trivial

theorem stays_recurseEntries {process : Bytes → Proc (List Bytes)}
    (hprocess : ∀ path, Stays R (process path)) (path : Bytes) (names : List Name) :
    Stays R (recurseEntries process path names) := by
  induction names with
  | nil => trivial
  | cons filename names ih =>
    unfold recurseEntries
    split
    · exact (stays_error hown _).bind fun _ => Prog.only_ret _
    · exact (hprocess _).bind fun _ => ih.bind fun _ => Prog.only_ret _

omit hown in
theorem stays_processPath {recurse : Bytes → Proc (List Bytes)}
    (hrecurse : ∀ path, Stays R (recurse path)) (hn : R .names) (path : Bytes) :
    Stays R (processPath recurse path) := by
  refine ⟨hn, fun kind => ?_⟩
  rcases kind with _ | _ | _ | _
  · trivial
  · exact hrecurse path
  · trivial
  · trivial

theorem stays_recurseDir (hn : R .names) (leaf : Bool) (depth : Nat) (dirPath : Bytes) :
    Stays R (recurseDir leaf depth dirPath) := by
  induction depth generalizing dirPath with
  | zero => trivial
  | succ depth ih =>
    refine ⟨hn, fun names => ?_⟩
    cases names with
    | none => trivial
    | some names =>
      show Prog.Only _ (if dirPath.length > maxFileNameLen then _ else _)
      split
      · exact (stays_error hown _).bind fun _ => Prog.only_ret _
      · refine (stays_recurseEntries hown (stays_processPath ih hn) _ _).bind fun r => ?_
        dsimp only
        split <;> trivial

theorem stays_copiedPath (hn : R .names) (leaf : Bool) (fname : Bytes) :
    Stays R (copiedPath leaf fname) := by
  refine ⟨hn, fun kind => ?_⟩
  rcases kind with _ | _ | _ | _
  · trivial
  · exact stays_recurseDir hown hn leaf _ fname
  · trivial
  · trivial

theorem stays_copiedDirsFilesLoop (hn : R .names) (leaf first : Bool) (cnt : Nat) (buf : Bytes) :
    Stays R (copiedDirsFilesLoop leaf first cnt buf) := by
  induction cnt generalizing first buf with
  | zero => trivial
  | succ cnt ih =>
    unfold copiedDirsFilesLoop
    cases urlDecode buf with
    | none => trivial
    | some s =>
      dsimp only
      split
      · trivial
      · exact (stays_copiedPath hown hn _ _).bind fun _ =>
          (ih _ _).bind fun _ => Prog.only_ret _

theorem stays_getCopiedDirsFiles (ht : R (.clipboard (some targetsName)))
    (hf : R (.clipboard (some gnomeCopiedFiles))) (hn : R .names) (leaf : Bool) :
    Stays R (getCopiedDirsFiles leaf) := by
  refine (stays_getCopiedFilesAsStr ht hf).bind fun filePath => ?_
  cases filePath with
  | none => trivial
  | some filePath =>
    dsimp only
    split
    · trivial
    · exact stays_copiedDirsFilesLoop hown hn _ _ _ _

theorem stays_transferContent (hc : R .contents) (file : Stream) (fuel off : Nat) (size : Int) :
    Stays R (transferContent file fuel off size) := by
  induction fuel generalizing off size with
  | zero => trivial
  | succ fuel ih =>
    unfold transferContent
    split
    · trivial
    · refine ⟨hc, fun data => ?_⟩
      show Prog.Only _ (if data = [] then _ else _)
      split
      · exact ih _ _
      · refine (stays_writeSock hown _).bind fun sent => ?_
        cases sent with
        | false => trivial
        | true => exact ih _ _

theorem stays_transferRegularFile (hc : R .contents) (env : Env) (filePath filename : Bytes) :
    Stays R (transferRegularFile env filePath filename) := by
  refine ⟨hc, fun file => ?_⟩
  cases file with
  | none => exact (stays_error hown _).bind fun _ => Prog.only_ret _
  | some file =>
    refine ⟨hc, fun size => ?_⟩
    show Prog.Only _ (if size < 0 ∨ size > env.configuration.maxFileSize then _ else _)
    split
    · trivial
    · refine (stays_sendData hown _).bind fun status => ?_
      cases status with
      | failure => trivial
      | success =>
        refine (stays_writeSock hown _).bind fun sent => ?_
        cases sent with
        | false => trivial
        | true => exact stays_transferContent hown hc _ _ _ _

theorem stays_transferSingleFile (hc : R .contents) (env : Env) (version : Nat)
    (filePath : Bytes) (pathLen : Nat) :
    Stays R (transferSingleFile env version filePath pathLen) := by
  unfold transferSingleFile
  dsimp only
  split_ifs
  · exact (stays_error hown _).bind fun _ => Prog.only_ret _
  · refine (stays_sendData hown _).bind fun status => ?_
    cases status with
    | failure => trivial
    | success => exact (stays_writeSock hown _).bind fun _ => Prog.only_ret _
  · exact stays_transferRegularFile hown hc _ _ _

theorem stays_transferFiles (hc : R .contents) (env : Env) (version pathLen : Nat)
    (files : List Bytes) : Stays R (transferFiles env version pathLen files) := by
  induction files with
  | nil => trivial
  | cons filePath files ih =>
    refine (stays_transferSingleFile hown hc env version filePath pathLen).bind fun status => ?_
    cases status with
    | failure => trivial
    | success => exact ih

theorem stays_getFilesCommon (hc : R .contents) (env : Env) (version : Nat)
    (fileList : Option (List Bytes)) (pathLen : Nat) :
    Stays R (getFilesCommon env version fileList pathLen) := by
  unfold getFilesCommon
  cases fileList.filter (sendableFiles env) with
  | none => exact stays_noData hown
  | some files =>
    refine stays_status hown ((stays_writeSock hown _).bind fun sent => ?_)
    cases sent with
    | false => trivial
    | true => exact stays_transferFiles hown hc _ _ _ _

theorem stays_getAnyFiles (ht : R (.clipboard (some targetsName)))
    (hf : R (.clipboard (some gnomeCopiedFiles))) (hn : R .names) (hc : R .contents) (env : Env) :
    Stays R (getAnyFiles env) := by
  refine (stays_getCopiedDirsFiles hown ht hf hn true).bind fun copied => ?_
  cases copied.lst.filter (sendableFiles env) with
  | none => exact (stays_writeSock hown _).bind fun _ => Prog.only_ret _
  | some files =>
    refine stays_status hown (stays_status hown ((stays_writeSock hown _).bind fun sent => ?_))
    cases sent with
    | false => trivial
    | true => exact stays_transferFiles hown hc _ _ _ _

/-! ### Files that are received -/

omit hown in
theorem stays_mkdirCheck (hn : R .names) (ht : R .tree) (path : Bytes) :
    Stays R (mkdirCheck path) := by
  refine (stays_fileExists hn path).bind fun found => ?_
  cases found with
  | true =>
    refine (stays_isDirectory hn path).bind fun kind => ?_
    split <;> trivial
  | false => exact ⟨ht, fun _ => trivial⟩

omit hown in
theorem stays_mkdirsLoop (hn : R .names) (ht : R .tree) (done rest : Bytes) :
    Stays R (mkdirsLoop done rest) := by
  induction rest generalizing done with
  | nil => exact stays_mkdirCheck hn ht done
  | cons c rest ih =>
    unfold mkdirsLoop
    split
    · refine (stays_mkdirCheck hn ht done).bind fun status => ?_
      cases status with
      | failure => trivial
      | success => exact ih _
    · exact ih _

theorem stays_mkdirs (hn : R .names) (ht : R .tree) (dirPath : Bytes) :
    Stays R (mkdirs dirPath) := by
  unfold mkdirs
  split
  · trivial
  · refine (stays_fileExists hn dirPath).bind fun found => ?_
    cases found with
    | true =>
      refine (stays_isDirectory hn dirPath).bind fun kind => ?_
      split <;> trivial
    | false =>
      show Prog.Only _ (if dirPath.length > maxFileNameLen then _ else _)
      split
      · exact (stays_error hown _).bind fun _ => Prog.only_ret _
      · exact stays_mkdirsLoop hn ht _ _

omit hown in
theorem stays_removeFile (ht : R .tree) (fileName : Bytes) :
    Stays R (removeFile fileName >>= fun _ => (.ret .failure : Proc Status)) :=
  ⟨ht, fun _ => trivial⟩

theorem stays_saveContent (ht : R .tree) (hw : R .written) (fileName : Bytes)
    (file fuel off fileSize : Nat) :
    Stays R (saveContent fileName file fuel off fileSize) := by
  induction fuel generalizing off fileSize with
  | zero => trivial
  | succ fuel ih =>
    unfold saveContent
    dsimp only
    generalize (if fileSize < fileBufSz then fileSize else fileBufSz) = readLen
    split
    · trivial
    · refine (stays_readSock hown _).bind fun r => ?_
      cases r with
      | none => exact stays_removeFile ht fileName
      | some data =>
        refine ⟨hw, fun written => ?_⟩
        show Prog.Only _ (if written < _ then _ else _)
        split
        · exact stays_removeFile ht fileName
        · exact ih _ _

theorem stays_saveFileCommon (hn : R .names) (ht : R .tree) (hw : R .written) (env : Env)
    (version : Nat) (fileName : Bytes) : Stays R (saveFileCommon env version fileName) := by
  refine (stays_readSize hown).bind fun r => ?_
  cases r with
  | none => trivial
  | some fileSize =>
    dsimp only
    split_ifs
    · trivial
    · exact stays_mkdirs hown hn ht fileName
    · trivial
    · refine ⟨hw, fun file => ?_⟩
      cases file with
      | none => exact (stays_error hown _).bind fun _ => Prog.only_ret _
      | some file => exact stays_saveContent hown ht hw _ _ _ _ _

omit hown in
theorem stays_freeName (hn : R .names) (size : Nat) (fileName : Bytes) (left : Nat)
    (tmp : Bytes) : Stays R (freeName size fileName left tmp) := by
  induction left generalizing tmp with
  | zero =>
    refine (stays_fileExists hn tmp).bind fun found => ?_
    cases found <;> trivial
  | succ left ih =>
    refine (stays_fileExists hn tmp).bind fun found => ?_
    cases found with
    | true =>
      rw [if_pos rfl]
      cases snprintfCheck size (candidate (1000000 - (left + 1)) fileName) with
      | none => trivial
      | some tmp => exact ih tmp
    | false => trivial

omit hown in
theorem stays_cutSentFiles {env : Env} (hcut : env.configuration.cutSentFiles ≠ 0 → R .cut)
    (paths : List Bytes) : Stays R (cutSentFiles env paths) := by
  unfold cutSentFiles
  split
  · rename_i h
    exact ⟨hcut h, fun _ => trivial⟩
  · trivial

theorem stays_storeFile {env : Env} (hn : R .names) (ht : R .tree) (hw : R .written)
    (hcut : env.configuration.cutSentFiles ≠ 0 → R .cut) (fileName : Bytes) (nameMaxLen : Nat) :
    Stays R (storeFile env fileName nameMaxLen) := by
  unfold storeFile renameIfExists
  cases snprintfCheck nameMaxLen (firstCandidate env fileName) with
  | none => trivial
  | some tmp =>
    refine (stays_freeName hn _ _ _ _).bind fun r => ?_
    cases r with
    | none => trivial
    | some name =>
      refine (stays_saveFileCommon hown hn ht hw env 1 name).bind fun status => ?_
      cases status with
      | failure => trivial
      | success =>
        exact (stays_closeSocketNoWait hown).bind fun _ => stays_cutSentFiles hcut _

theorem stays_sendFileV1 {env : Env} (hn : R .names) (ht : R .tree) (hw : R .written)
    (hcut : env.configuration.cutSentFiles ≠ 0 → R .cut) : Stays R (sendFileV1 env) := by
  refine stays_status hown ?_
  refine (stays_readSize hown).bind fun r => ?_
  cases r with
  | none => trivial
  | some nameLength =>
    dsimp only
    split_ifs
    · trivial
    · exact (stays_error hown _).bind fun _ => Prog.only_ret _
    · refine (stays_readSock hown _).bind fun r => ?_
      cases r with
      | none => trivial
      | some fileName =>
        dsimp only
        split_ifs
        · trivial
        · trivial
        · exact stays_storeFile hown hn ht hw hcut _ _

theorem stays_saveNewFile (hn : R .names) (ht : R .tree) (hw : R .written) (env : Env)
    (version : Nat) (newPath : Bytes) : Stays R (saveNewFile env version newPath) := by
  unfold saveNewFile makeDirectories
  cases beforeLast sep newPath with
  | none => trivial
  | some parent =>
    refine (stays_mkdirs hown hn ht parent).bind fun status => ?_
    cases status with
    | failure => trivial
    | success =>
      refine (stays_fileExists hn newPath).bind fun found => ?_
      cases found with
      | true => trivial
      | false => exact stays_saveFileCommon hown hn ht hw env version newPath

theorem stays_saveFile (hn : R .names) (ht : R .tree) (hw : R .written) (env : Env)
    (version : Nat)
    (dirname : Bytes) : Stays R (saveFile env version dirname) := by
  refine (stays_readSize hown).bind fun r => ?_
  cases r with
  | none => trivial
  | some fnameSize =>
    dsimp only
    split
    · trivial
    · refine (stays_readSock hown _).bind fun r => ?_
      cases r with
      | none => trivial
      | some fileName =>
        dsimp only
        split
        · trivial
        · cases uploadPath dirname fileName with
          | none => trivial
          | some newPath =>
            dsimp only
            split
            · trivial
            · exact stays_saveNewFile hown hn ht hw env version newPath

theorem stays_saveFiles (hn : R .names) (ht : R .tree) (hw : R .written) (env : Env)
    (version : Nat)
    (dirname : Bytes) (cnt : Nat) : Stays R (saveFiles env version dirname cnt) := by
  induction cnt with
  | zero => trivial
  | succ cnt ih =>
    refine (stays_saveFile hown hn ht hw env version dirname).bind fun status => ?_
    cases status with
    | failure => trivial
    | success => exact ih

theorem stays_checkAndRename (hn : R .names) (ht : R .tree) (env : Env)
    (filename dirname : Bytes) : Stays R (checkAndRename env filename dirname) := by
  unfold checkAndRename
  dsimp only
  split
  · exact (stays_error hown _).bind fun _ => Prog.only_ret _
  · cases snprintfCheck (filename.length + 20) (dirname ++ sep :: filename) with
    | none => trivial
    | some oldPath =>
      dsimp only
      cases snprintfCheck (filename.length + 20) (firstCandidate env filename) with
      | none => trivial
      | some newPath =>
        refine (stays_freeName hn _ _ _ _).bind fun r => ?_
        cases r with
        | none => trivial
        | some newPath =>
          refine ⟨ht, fun moved => ?_⟩
          cases moved <;> trivial

theorem stays_moveFiles (hn : R .names) (ht : R .tree) (env : Env) (tmpDir : Bytes)
    (names : List Name) : Stays R (moveFiles env tmpDir names) := by
  induction names with
  | nil => trivial
  | cons filename names ih =>
    refine (stays_checkAndRename hown hn ht env filename tmpDir).bind fun newPath => ?_
    refine ih.bind fun moved => ?_
    cases newPath <;> trivial

theorem stays_settleUpload {env : Env} (hn : R .names) (ht : R .tree)
    (hcut : env.configuration.cutSentFiles ≠ 0 → R .cut) (dirname : Bytes) (status : Status) :
    Stays R (settleUpload env dirname status) := by
  refine ⟨hn, fun names => ?_⟩
  cases names with
  | none => trivial
  | some names =>
    show Prog.Only _ (if names.length = 0 then _ else _)
    split
    · exact ⟨ht, fun _ => trivial⟩
    · cases status with
      | failure => trivial
      | success =>
        refine Prog.Only.bind ?_ fun moved => ?_
        · refine (stays_moveFiles hown hn ht env dirname names).bind fun moved => ?_
          dsimp only
          split
          · refine ⟨ht, fun removed => ?_⟩
            cases removed <;> trivial
          · trivial
        · cases moved with
          | none => trivial
          | some destFiles => exact stays_cutSentFiles hcut destFiles

theorem stays_freeTempName (hn : R .names) (fuel : Nat) (id : UInt32) :
    Stays R (freeTempName fuel id) := by
  induction fuel generalizing id with
  | zero => trivial
  | succ fuel ih =>
    unfold freeTempName
    cases snprintfCheck 17 (tempName id) with
    | none => trivial
    | some dirname =>
      refine ⟨hown, fun id => ?_⟩
      refine (stays_fileExists hn dirname).bind fun found => ?_
      cases found with
      | true => exact ih _
      | false => trivial

theorem stays_sendFilesDirs {env : Env} (hn : R .names) (ht : R .tree) (hw : R .written)
    (hcut : env.configuration.cutSentFiles ≠ 0 → R .cut) (version : Nat) :
    Stays R (sendFilesDirs env version) := by
  refine stays_status hown ?_
  refine (stays_readSize hown).bind fun r => ?_
  cases r with
  | none => trivial
  | some cnt =>
    dsimp only
    split
    · trivial
    · refine ⟨hown, fun id => ?_⟩
      refine (stays_freeTempName hown hn env.fuel _).bind fun r => ?_
      cases r with
      | none => trivial
      | some dirname =>
        refine (stays_mkdirs hown hn ht dirname).bind fun status => ?_
        cases status with
        | failure => trivial
        | success =>
          refine (stays_saveFiles hown hn ht hw env version dirname _).bind fun status => ?_
          refine Prog.Only.bind ?_ fun status => stays_settleUpload hown hn ht hcut _ _
          unfold finishUpload
          split
          · refine (stays_sendAck hown).bind fun status => ?_
            exact (stays_closeSocket hown).bind fun _ => Prog.only_ret _
          · exact (stays_closeSocketNoWait hown).bind fun _ => Prog.only_ret _

end Stays

/-! ### The methods -/

/-- The option that enables a handler. -/
def Handler.flag (m : MethodEnabled) : Handler → Int8
  | .getTextV1 | .getTextV4 => m.getText
  | .sendTextV1 | .sendTextV4 => m.sendText
  | .getFilesV1 | .getFilesV2 | .getFilesV3 | .getFilesV4 => m.getFiles
  | .sendFileV1 | .sendFilesV2 | .sendFilesV3 | .sendFilesV4 => m.sendFiles
  | .getImageV1 | .getImageV4 => m.getImage
  | .getCopiedImageV3 | .getCopiedImageV4 => m.getCopiedImage
  | .getScreenshotV3 | .getScreenshotV4 => m.getScreenshot
  | .getAnyV4 => m.getAny
  | .infoV1 | .infoV4 => m.info

/-- The handlers of a method have its option. -/
theorem methodFlag_of_methodsOf {m : MethodEnabled} {version method : UInt8} {hd : Handler}
    (h : methodsOf version method = some hd) : methodFlag m method = some (hd.flag m) := by
  unfold methodsOf at h
  split_ifs at h
  · unfold methods1 at h
    split_ifs at h <;> cases h <;> subst method <;> rfl
  · unfold methods2 at h
    split_ifs at h <;> cases h <;> subst method <;> rfl
  · unfold methods3 at h
    split_ifs at h <;> cases h <;> subst method <;> rfl
  · unfold methods4 at h
    split_ifs at h <;> cases h <;> subst method <;> rfl

variable {env : Env}

/-- What a handler touches besides its connection. -/
def Handler.uses (env : Env) : Handler → List Resource
  | .getTextV1 | .getTextV4 => [.clipboard none]
  | .sendTextV1 | .sendTextV4 => [.text]
  | .getFilesV1 | .getFilesV2 | .getFilesV3 | .getFilesV4 =>
    [.clipboard (some targetsName), .clipboard (some gnomeCopiedFiles), .names, .contents]
  | .sendFileV1 | .sendFilesV2 | .sendFilesV3 | .sendFilesV4 =>
    [.names, .tree, .written] ++ if env.configuration.cutSentFiles ≠ 0 then [.cut] else []
  | .getImageV1 | .getImageV4 => [.clipboard (some imagePng), .screen]
  | .getCopiedImageV3 | .getCopiedImageV4 => [.clipboard (some imagePng)]
  | .getScreenshotV3 | .getScreenshotV4 => [.screen]
  | .getAnyV4 =>
    [.clipboard none, .clipboard (some targetsName), .clipboard (some gnomeCopiedFiles),
      .clipboard (some imagePng), .names, .contents]
  | .infoV1 | .infoV4 => []

/-- A handler touches only what it uses. -/
theorem stays_handler {R : Resource → Prop} (hown : R .own) {hd : Handler}
    (h : ∀ r ∈ hd.uses env, R r) : Stays R (handler env hd) := by
  cases hd with
  | getTextV1 => exact stays_getTextV1 hown (h _ (by simp [Handler.uses])) env
  | getTextV4 =>
    exact stays_thenAck hown (stays_getTextV1 hown (h _ (by simp [Handler.uses])) env)
  | sendTextV1 => exact stays_sendTextCommon hown (h _ (by simp [Handler.uses])) env 1
  | sendTextV4 => exact stays_sendTextCommon hown (h _ (by simp [Handler.uses])) env 4
  | getFilesV1 =>
    simp only [Handler.uses, List.forall_mem_cons] at h
    obtain ⟨htargets, hfiles, hn, hc, -⟩ := h
    exact (stays_getCopiedFiles htargets hfiles hn).bind fun _ =>
      stays_getFilesCommon hown hc env 1 _ _
  | getFilesV2 =>
    simp only [Handler.uses, List.forall_mem_cons] at h
    obtain ⟨htargets, hfiles, hn, hc, -⟩ := h
    exact (stays_getCopiedDirsFiles hown htargets hfiles hn false).bind fun _ =>
      stays_getFilesCommon hown hc env 2 _ _
  | getFilesV3 =>
    simp only [Handler.uses, List.forall_mem_cons] at h
    obtain ⟨htargets, hfiles, hn, hc, -⟩ := h
    exact (stays_getCopiedDirsFiles hown htargets hfiles hn true).bind fun _ =>
      stays_getFilesCommon hown hc env 3 _ _
  | getFilesV4 =>
    simp only [Handler.uses, List.forall_mem_cons] at h
    obtain ⟨htargets, hfiles, hn, hc, -⟩ := h
    exact (stays_getCopiedDirsFiles hown htargets hfiles hn true).bind fun _ =>
      stays_thenAck hown (stays_getFilesCommon hown hc env 4 _ _)
  | sendFileV1 =>
    simp only [Handler.uses, List.forall_mem_append, List.forall_mem_cons] at h
    obtain ⟨⟨hn, ht, hw, -⟩, hcut⟩ := h
    exact stays_sendFileV1 hown hn ht hw fun h1 => hcut _ (by simp [h1])
  | sendFilesV2 | sendFilesV3 | sendFilesV4 =>
    simp only [Handler.uses, List.forall_mem_append, List.forall_mem_cons] at h
    obtain ⟨⟨hn, ht, hw, -⟩, hcut⟩ := h
    exact stays_sendFilesDirs hown hn ht hw (fun h1 => hcut _ (by simp [h1])) _
  | getImageV1 =>
    exact stays_getImageCommon hown (fun _ => h _ (by simp [Handler.uses]))
      (fun _ => h _ (by simp [Handler.uses])) env 0
  | getImageV4 =>
    exact stays_thenAck hown (stays_getImageCommon hown (fun _ => h _ (by simp [Handler.uses]))
      (fun _ => h _ (by simp [Handler.uses])) env 0)
  | getCopiedImageV3 =>
    exact stays_getImageCommon hown (fun _ => h _ (by simp [Handler.uses])) nofun env 0
  | getCopiedImageV4 =>
    exact stays_thenAck hown
      (stays_getImageCommon hown (fun _ => h _ (by simp [Handler.uses])) nofun env 0)
  | getScreenshotV3 => exact stays_getScreenshotCommon hown (h _ (by simp [Handler.uses])) env
  | getScreenshotV4 =>
    exact stays_thenAck hown (stays_getScreenshotCommon hown (h _ (by simp [Handler.uses])) env)
  | getAnyV4 =>
    simp only [Handler.uses, List.forall_mem_cons] at h
    obtain ⟨htext, htargets, hfiles, himage, hn, hc, -⟩ := h
    refine (stays_getCopiedType htargets).bind fun type => ?_
    cases type with
    | none => exact (stays_writeSock hown _).bind fun _ => Prog.only_ret _
    | text => exact stays_finishAny hown (stays_getAnyText hown htext env)
    | file => exact stays_finishAny hown (stays_getAnyFiles hown htargets hfiles hn hc env)
    | image => exact stays_finishAny hown (stays_getAnyImage hown himage env)
  | infoV1 => exact stays_status hown (stays_sendData hown _)
  | infoV4 => exact stays_thenAck hown (stays_status hown (stays_sendData hown _))

/-- An enabled handler uses only what is granted. -/
theorem Handler.uses_granted {hd : Handler} (h : hd.flag env.configuration.methodEnabled ≠ 0) :
    ∀ r ∈ hd.uses env, env.configuration.Grants r := by
  cases hd <;> simp only [Handler.flag] at h <;> simp [Handler.uses, Config.Grants, h]

theorem serveMethod_granted (version : UInt8) :
    Stays env.configuration.Grants (serveMethod env (methodsOf version)) := by
  have hown : env.configuration.Grants .own := trivial
  refine (stays_readSock hown 1).bind fun r => ?_
  rcases r with _ | _ | ⟨method, _ | _⟩
  · trivial
  · trivial
  · dsimp only
    unfold checkMethodEnabled
    by_cases hflag : methodFlag env.configuration.methodEnabled method = some 0
    · rw [if_pos hflag]
      exact (stays_writeSock hown _).bind fun _ =>
        (stays_closeSocketNoWait hown).bind fun _ => Prog.only_ret _
    · rw [if_neg hflag]
      dsimp only [Prog.pure_eq, Prog.ret_bind]
      cases hm : methodsOf version method with
      | none =>
        exact (stays_writeSock hown _).bind fun _ =>
          (stays_closeSocketNoWait hown).bind fun _ => Prog.only_ret _
      | some hd =>
        rw [methodFlag_of_methodsOf hm] at hflag
        exact ⟨trivial, fun _ =>
          stays_handler hown (Handler.uses_granted fun h0 => hflag (congrArg some h0))⟩
  · trivial

theorem serveVersion_granted (version : UInt8) :
    Stays env.configuration.Grants (serveVersion env version) := by
  unfold serveVersion
  split_ifs with h0 h1 h2 h3 h4
  · trivial
  · exact (serveMethod_granted 1).bind fun _ => Prog.only_ret _
  · exact (serveMethod_granted 2).bind fun _ => Prog.only_ret _
  · exact (serveMethod_granted 3).bind fun _ => Prog.only_ret _
  · exact (serveMethod_granted 4).bind fun _ => Prog.only_ret _
  · trivial

/-- **Every call of a session touches what the enabled methods give access to**, whatever the client
    sends. -/
theorem server_granted (env : Env) : Stays env.configuration.Grants (server env) := by
  have hown : env.configuration.Grants .own := trivial
  have hclose : Stays env.configuration.Grants closeSocketNoWait := stays_closeSocketNoWait hown
  refine (stays_readSock hown 1).bind fun r => ?_
  rcases r with _ | _ | ⟨version, _ | _⟩
  · trivial
  · trivial
  · dsimp only
    split_ifs
    · exact (stays_writeSock hown _).bind fun _ => hclose
    · refine (stays_writeSock hown _).bind fun sent => ?_
      cases sent with
      | false => trivial
      | true => exact serveVersion_granted version
    · refine (stays_writeSock hown _).bind fun sent => ?_
      cases sent with
      | false => trivial
      | true =>
        refine (stays_writeSock hown _).bind fun sent => ?_
        cases sent with
        | false => trivial
        | true =>
          refine (stays_readSock hown 1).bind fun r => ?_
          rcases r with _ | _ | ⟨version, _ | _⟩
          · trivial
          · trivial
          · dsimp only
            split
            · exact hclose
            · exact serveVersion_granted version
          · trivial
  · trivial

/-! ### Sessions that run together -/

variable {ι : Type} [DecidableEq ι]

/-- Sessions of the clients `i`, each with what its client sends, on one host. -/
def sessions (env : Env) (input : ι → Bytes) (oracle : ι → Oracle) (h : Host) :
    Pool Calls ι Unit Session Host where
  prog _ := server env
  own i := .fresh (input i) (oracle i)
  shared := h

variable {input : ι → Bytes} {oracle : ι → Oracle} {h : Host}

omit [DecidableEq ι] in
theorem sessions_confined :
    (sessions env input oracle h).Confined fun c : Call => env.configuration.Grants c.touches :=
  fun _ => server_granted env

/-- **Read only.**  Whatever the clients send and however their sessions interleave: without
    `send_files` the file tree stays as it is, and without `send_text`, and `send_files` or
    `cut_sent_files`, so does the clipboard. -/
theorem sessions_leave (env : Env) (input : ι → Bytes) (oracle : ι → Oracle) (h : Host)
    (sched : List ι) :
    (env.configuration.methodEnabled.sendFiles = 0 →
      ((sessions env input oracle h).run respond sched).shared.fs = h.fs) ∧
    (env.configuration.methodEnabled.sendText = 0 →
      env.configuration.methodEnabled.sendFiles = 0 ∨ env.configuration.cutSentFiles = 0 →
      ((sessions env input oracle h).run respond sched).shared.desktop = h.desktop) := by
  constructor
  · intro hfiles
    refine sessions_confined.keeps (I := fun h' => h'.fs = h.fs) ?_ rfl sched
    intro c l h' hc hfs
    rw [respond_fs ?_ ?_, hfs]
    · intro htree
      rw [htree] at hc
      exact hc hfiles
    · intro hwritten
      rw [hwritten] at hc
      exact hc hfiles
  · intro htext hcut
    refine sessions_confined.keeps (I := fun h' => h'.desktop = h.desktop) ?_ rfl sched
    intro c l h' hc hd
    rw [respond_desktop ?_ ?_, hd]
    · intro ht
      rw [ht] at hc
      exact hc htext
    · intro ht
      rw [ht] at hc
      exact hcut.elim hc.1 hc.2

/-- **Confidentiality.**  Two hosts that differ only in what no enabled method gives access to: the
    same schedule makes the same sessions of them, down to every byte that a client gets.  The
    contents of files are such a difference as soon as no method may read them. -/
theorem sessions_blind {h h' : Host} (hs : h.Same env.configuration.Grants h') (input : ι → Bytes)
    (oracle : ι → Oracle) (sched : List ι) :
    ((sessions env input oracle h').run respond sched).own =
        ((sessions env input oracle h).run respond sched).own ∧
      ((sessions env input oracle h').run respond sched).prog =
        ((sessions env input oracle h).run respond sched).prog := by
  have hconfined : (sessions env input oracle h).Confined
      (fun c : Call => env.configuration.Grants c.touches) := sessions_confined
  obtain ⟨h'', hrun, -⟩ :=
    hconfined.blind (fun c l h1 h2 hc hr => Host.Same.respond hr hc l) hs sched
  have hrun' : (sessions env input oracle h').run respond sched =
      { (sessions env input oracle h).run respond sched with shared := h'' } := hrun
  rw [hrun']
  exact ⟨rfl, rfl⟩

/-- The enabled methods read nothing that an enabled method writes. -/
def Config.Separate (c : Config) : Prop :=
  c.methodEnabled.sendFiles = 0 ∧
    (c.methodEnabled.sendText = 0 ∨ ∀ target, ¬ c.Grants (.clipboard target))

/-- The effect of a call cannot be seen. -/
theorem Config.Separate.respond {c : Config} (hc : c.Separate) {call : Call}
    (hcall : c.Grants call.touches) (l : Session) (h : Host) :
    h.Same c.Grants (ClipShare.respond call (l, h)).2.2 := by
  have htree : call.touches ≠ .tree := by
    intro ht
    rw [ht] at hcall
    exact hcall hc.1
  have hwritten : call.touches ≠ .written := by
    intro ht
    rw [ht] at hcall
    exact hcall hc.1
  have hcut : call.touches ≠ .cut := by
    intro ht
    rw [ht] at hcall
    exact hcall.1 hc.1
  by_cases htext : call.touches = .text
  · rcases hc.2 with hno | hno
    · rw [htext] at hcall
      exact absurd hno hcall
    · rcases respond_cases call l with ⟨r, hr⟩ | hr
      · rw [hr]
        exact .refl c.Grants h
      · rw [hr]
        cases call <;> simp [Call.touches] at htext
        exact ⟨rfl, fun _ => .refl h.fs, fun _ => rfl, fun t ht => absurd ht (hno t), fun _ => rfl,
          fun _ => rfl, fun _ => rfl⟩
  · have hdesktop := respond_desktop htext hcut l h
    have hfs := respond_fs htree hwritten l h
    exact ⟨respond_cwd call l h, fun _ => hfs ▸ .refl h.fs, fun _ => hfs,
      fun t _ => by rw [hdesktop],
      fun _ => by rw [hdesktop], fun _ => by rw [hdesktop], fun _ => by rw [hdesktop]⟩

/-- **Alone.**  If the enabled methods read nothing that an enabled method writes, every session of
    every interleaving has issued the calls and got the answers that it does alone on the same host,
    and when it is over it has gone through all of its run: clients cannot influence each other. -/
theorem sessions_alone (hc : env.configuration.Separate) (input : ι → Bytes) (oracle : ι → Oracle)
    (h : Host) (sched : List ι) (i : ι) :
    ((sessions env input oracle h).run respond sched).own i =
        (((server env).upTo (sched.count i)).run respond (.fresh (input i) (oracle i), h)).2.1 ∧
      (sessions env input oracle h).events respond sched i =
        ((server env).upTo (sched.count i)).trace respond (.fresh (input i) (oracle i), h) ∧
      (((sessions env input oracle h).run respond sched).prog i = .ret () →
        ((sessions env input oracle h).run respond sched).own i =
            ((server env).run respond (.fresh (input i) (oracle i), h)).2.1 ∧
          (sessions env input oracle h).events respond sched i =
            (server env).trace respond (.fresh (input i) (oracle i), h)) := by
  have hconfined : (sessions env input oracle h).Confined
      (fun c : Call => env.configuration.Grants c.touches) := sessions_confined
  have halone := hconfined.alone (fun c l h1 h2 hc hr => Host.Same.respond hr hc l)
    (fun c l h1 hcall => hc.respond hcall l h1) sched i
  have hends := hconfined.ends_alone (fun c l h1 h2 hc hr => Host.Same.respond hr hc l)
    (fun c l h1 hcall => hc.respond hcall l h1) sched i
  refine ⟨halone.1, halone.2, fun hret => ?_⟩
  obtain ⟨hown, hevents⟩ := hends
  rw [hret] at hown hevents
  rw [Prog.trace_ret, List.append_nil] at hevents
  exact ⟨hown, hevents⟩

/-! ### An example -/

/-- Only files can be sent, and only the server information can be asked for. -/
def dropBox : Env where
  configuration := { Env.default.configuration with
    methodEnabled := ⟨0, 0, 0, 1, 0, 0, 0, 0, 1⟩ }
  cwd := ascii "/"
  fuel := 16

/-- A host with a text in the clipboard. -/
def holding (text : Bytes) : Host :=
  { Host.empty with desktop.clipboard := fun t => if t = none then some text else none }

/-- A file in the root directory. -/
def noteWith (data : Bytes) : FileSystem :=
  FileSystem.bare.add [] (ascii "note") (.file 4 data) 5 FileSystem.bare.root rfl (by decide)
    (by simp) (by simp [FileSystem.bare])

theorem noteWith_outline (data data' : Bytes) : (noteWith data).SameOutline (noteWith data') := by
  refine ⟨fun p => ?_, rfl, rfl⟩
  show Option.map Node.outline (if p = [ascii "note"] then _ else _) =
    Option.map Node.outline (if p = [ascii "note"] then _ else _)
  split <;> rfl

/-- `sessions_leave` for two clients that try to send a text. -/
theorem sessions_leave_dropBox :
    ((sessions dropBox (fun _ => [4, 2] ++ sizeBytes 8 5 ++ ascii "hello") (fun _ => .calm)
      (holding (ascii "old"))).run respond [(0 : Fin 2), 1, 0, 1, 1, 0, 0, 1]).shared.desktop =
        (holding (ascii "old")).desktop :=
  (sessions_leave dropBox _ _ _ _).2 rfl (.inr rfl)

/-- One client asks for the text, the other one sends a file. -/
def askAndSend : Fin 2 → Bytes
  | 0 => [4, 1]
  | 1 => [4, 4] ++ sizeBytes 8 1 ++ sizeBytes 8 4 ++ ascii "note" ++ sizeBytes 8 1 ++ [0x62]

/-- `sessions_blind` for two hosts that differ in the text and in what is in a file. -/
theorem sessions_blind_dropBox :
    ((sessions dropBox askAndSend (fun _ => .calm)
        { holding (ascii "secret") with fs := noteWith (ascii "secret") }).run respond
          [(0 : Fin 2), 1, 0, 1, 1, 0, 0, 1, 1, 1]).own =
      ((sessions dropBox askAndSend (fun _ => .calm)
        { Host.empty with fs := noteWith (ascii "public") }).run respond
          [(0 : Fin 2), 1, 0, 1, 1, 0, 0, 1, 1, 1]).own := by
  have hs : Host.Same dropBox.configuration.Grants
      { Host.empty with fs := noteWith (ascii "public") }
      { holding (ascii "secret") with fs := noteWith (ascii "secret") } := by
    refine ⟨rfl, fun _ => noteWith_outline _ _, ?_, ?_, fun _ => rfl, fun _ => rfl, fun _ => rfl⟩
    · exact fun hg => hg.elim (absurd rfl) (absurd rfl)
    · intro target hg
      cases target with
      | none => exact hg.elim (absurd rfl) (absurd rfl)
      | some t => rfl
  exact (sessions_blind hs _ _ _).1

/-- Texts can be asked for, and nothing can be sent. -/
def readOnly : Env where
  configuration := { Env.default.configuration with
    methodEnabled := ⟨1, 0, 1, 0, 1, 1, 1, 1, 1⟩ }
  cwd := ascii "/"
  fuel := 16

/-- `sessions_alone` for a client that asks for the text while another one sends nonsense. -/
theorem sessions_alone_readOnly :
    ((sessions readOnly (fun i => if i = 0 then [4, 1] else [9]) (fun _ => .calm)
        (holding (ascii "text"))).run respond [(0 : Fin 2), 1, 0, 1, 1, 0, 0, 1]).own 0 =
      (((server readOnly).upTo 4).run respond
        (.fresh [4, 1] .calm, holding (ascii "text"))).2.1 ∧
    (sessions readOnly (fun i => if i = 0 then [4, 1] else [9]) (fun _ => .calm)
        (holding (ascii "text"))).events respond [(0 : Fin 2), 1, 0, 1, 1, 0, 0, 1] 0 =
      ((server readOnly).upTo 4).trace respond (.fresh [4, 1] .calm, holding (ascii "text")) := by
  have hc : readOnly.configuration.Separate := ⟨rfl, .inl rfl⟩
  have halone := sessions_alone hc (fun i : Fin 2 => if i = 0 then [4, 1] else [9])
    (fun _ => .calm) (holding (ascii "text")) [0, 1, 0, 1, 1, 0, 0, 1] 0
  exact ⟨halone.1, halone.2.1⟩

end ClipShare
