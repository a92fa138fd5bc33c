import ClipShare.Verify.Exchange
import ClipShare.Verify.Text

namespace ClipShare

open Interaction Posix

/-!
# Replies

The bytes that the server sends after the negotiation, as a language.

* `reply` / `payload` / `answers` — the grammar of replies: of a method, and of a version;
* `Sends.noData` / `Sends.ok` / … — the parts of a reply;
* `transferContent_sends` — the content of a file, as long as the file does not change;
* `handler_sends` — every handler keeps to its grammar;
* `serveMethod_framed` — so does a session, and it exchanges nothing after closing.
-/

/-! ### The grammar -/

/-- A length of 8 bytes, and that many bytes. -/
def counted (lo hi : Nat) : Language UInt8 :=
  {w | ∃ data : Bytes, lo ≤ data.length ∧ data.length ≤ hi ∧ w = sizeBytes 8 data.length ++ data}

/-- The text, the image or the information that a reply carries. -/
def textWords (c : Config) : Language UInt8 := counted 1 c.maxTextLength.toNat

def imageWords : Language UInt8 := counted 1 maxImageSize

def infoWords : Language UInt8 := counted 1 4096

/-- A file: its name, and its content or the mark of a directory. -/
def frameWords (c : Config) : Language UInt8 :=
  counted 0 maxFileNameLen * (counted 0 c.maxFileSize.toNat + {sizeBytes 8 (-1)})

/-- Files: how many, and each of them. -/
def filesWords (c : Config) : Language UInt8 :=
  {w | ∃ n : Nat, 1 ≤ n ∧ n ≤ c.maxFileCount.toNat ∧ w ∈ {sizeBytes 8 n} * frameWords c ^ n}

/-- A reply: there is no data, or there is and it follows. -/
def reply (payload : Language UInt8) : Language UInt8 :=
  {[statusNoData]} + {[statusOk]} * payload

/-- What follows the status of each method. -/
def payload (c : Config) : Handler → Language UInt8
  | .getTextV1 | .getTextV4 => textWords c
  | .sendTextV1 | .sendFileV1 | .sendFilesV2 | .sendFilesV3 => 1
  | .sendTextV4 | .sendFilesV4 => {[1]}
  | .getFilesV1 | .getFilesV2 | .getFilesV3 | .getFilesV4 => filesWords c
  | .getImageV1 | .getImageV4 | .getCopiedImageV3 | .getCopiedImageV4 => imageWords
  | .getScreenshotV3 | .getScreenshotV4 => reply imageWords
  | .getAnyV4 => {[CopiedType.text.code]} * textWords c + {[CopiedType.file.code]} * filesWords c +
      {[CopiedType.image.code]} * imageWords
  | .infoV1 | .infoV4 => infoWords

/-- The replies of a version to a method: the method is disabled, unknown, or answered. -/
def answers (c : Config) (version method : UInt8) : Language UInt8 :=
  if methodFlag c.methodEnabled method = some 0 then {[statusMethodNotImplemented]}
  else match methodsOf version method with
    | none => {[statusUnknownMethod]}
    | some hd => reply (payload c hd)

theorem counted_mem {lo hi : Nat} {data : Bytes} (hlo : lo ≤ data.length) (hhi : data.length ≤ hi) :
    sizeBytes 8 data.length ++ data ∈ counted lo hi := ⟨data, hlo, hhi, rfl⟩

theorem counted_nonempty {lo hi : Nat} (h : lo ≤ hi) : ∃ w, w ∈ counted lo hi :=
  ⟨_, @counted_mem _ _ (List.replicate lo 0) (by simp) (by simpa using h)⟩

theorem frameWords_nonempty (c : Config) : ∃ w, w ∈ frameWords c := by
  obtain ⟨u, hu⟩ := counted_nonempty (Nat.zero_le maxFileNameLen)
  exact ⟨u ++ sizeBytes 8 (-1), Language.append_mem_mul hu (.inr rfl)⟩

theorem pow_nonempty {L : Language UInt8} (hL : ∃ w, w ∈ L) (n : Nat) : ∃ w, w ∈ L ^ n := by
  obtain ⟨w, hw⟩ := hL
  induction n with
  | zero => exact ⟨[], rfl⟩
  | succ n ih =>
    obtain ⟨u, hu⟩ := ih
    exact ⟨w ++ u, pow_succ' L n ▸ Language.append_mem_mul hw hu⟩

/-! ### Parts of a reply -/

namespace Sends

variable {stays : Bool} {h : Host} {p q : Proc Status} {L L' : Language UInt8}

/-- A program that leaves the socket open may also close it. -/
theorem forget (hp : Sends true h p L) : Sends false h p L := fun l hopen hw =>
  (hp l hopen hw).mono fun _ _ _ hsent => ⟨hsent.oracle, nofun, hsent.words⟩

/-- The pattern in which a write that fails ends the method. -/
theorem writeOr {data : Bytes} (hq : Sends stays h q L) :
    Sends stays h (do if !(← writeSock data) then return .failure else q) ({data} * L) :=
  write hq

/-- Bytes from the client. -/
theorem readThen {n : Nat} {f : Option Bytes → Proc Status} (hf : ∀ r, Sends stays h (f r) L) :
    Sends stays h (readSock n >>= f) L :=
  read hf

/-- A call that is not on the socket, and what follows. -/
theorem askThen {α : Type} {c : Call} {g : c.Resp → α} {f : α → Proc Status}
    (hc : c.onSocket = false) (hf : ∀ l : Session,
      Sends stays (respond c (l, h)).2.2 (f (g (respond c (l, h)).1)) L) :
    Sends stays h (Prog.ask (S := Calls) c g >>= f) L :=
  call hc hf

/-- The status `NO_DATA` before quitting. -/
theorem noData (hq : Quits q) :
    Sends stays h (do let _ ← writeSock [statusNoData]; q) (reply L) := by
  have hw : Sends stays h (do let _ ← writeSock [statusNoData]; q) ({[statusNoData]} * 1) :=
    write (quit hq ⟨[], rfl⟩)
  rw [mul_one] at hw
  exact hw.mono fun _ hmem => .inl hmem

/-- The status `OK` and what follows. -/
theorem ok (hq : Sends stays h q L) :
    Sends stays h (do if !(← writeSock [statusOk]) then return .failure else q) (reply L) :=
  (writeOr hq).mono fun _ hmem => .inr hmem

/-- A size field from the client. -/
theorem readSize {k : Option Int → Proc Status} (hk : ∀ r, Sends stays h (k r) L) :
    Sends stays h (readSize >>= k) L := by
  refine read fun r => ?_
  cases r with
  | none => exact hk none
  | some buf => exact hk (some (sizeOfBytes buf))

/-- Data with its length before it. -/
theorem sendData {data : Bytes} {f : Status → Proc Status} (hf : Sends stays h (f .success) L) :
    Sends stays h (sendData data >>= f) ({sizeBytes 8 data.length ++ data} * L) := by
  have hw : Sends stays h (ClipShare.sendData data >>= f)
    ({sizeBytes 8 data.length} * ({data} * L)) :=
    write (write hf)
  rw [← mul_assoc] at hw
  refine hw.mono (mul_le_mul_left ?_ L)
  rintro w ⟨_, rfl, _, rfl, rfl⟩
  rfl

/-- Data with its length before it, at the end of a method. -/
theorem sendData_end {data : Bytes} {lo hi : Nat} (hlo : lo ≤ data.length)
    (hhi : data.length ≤ hi) : Sends true h (ClipShare.sendData data) (counted lo hi) := by
  have hw : Sends true h (ClipShare.sendData data)
      ({sizeBytes 8 data.length} * ({data} * 1)) := write (write (success rfl))
  rw [mul_one] at hw
  refine hw.mono ?_
  rintro w ⟨_, rfl, _, rfl, rfl⟩
  exact counted_mem hlo hhi

/-- Waiting for the acknowledgement of the client. -/
theorem thenAck (hp : Sends true h p L) : Sends false h (thenAck p) L := by
  refine mono (L := L * 1) (bind hp quits_failure (fun h' => ?_) ⟨[], rfl⟩) (mul_one L).le
  refine read fun r => ?_
  rcases r with _ | ack
  · exact quit quits_failure ⟨[], rfl⟩
  · show Sends false h' ((if ack ≠ [1] then .ret .failure else .ret .success : Proc Status) >>= _) 1
    split
    · exact quit quits_failure ⟨[], rfl⟩
    · exact close (.ret _) rfl

end Sends

/-! ### Files -/

/-- Reading, measuring and opening leave the tree as it is. -/
theorem respond_host_of_read {c : Call} {l : Session} {h : Host}
    (hc : (∃ path, c = .openRead path) ∨ (∃ s, c = .fileSize s) ∨ ∃ s off n, c = .fread s off n) :
    (respond c (l, h)).2.2 = h := by
  rcases hc with ⟨path, rfl⟩ | ⟨s, rfl⟩ | ⟨s, off, n, rfl⟩ <;>
  · simp only [respond]
    cases l.fault <;> rfl

/-- What is left of a file starts with what is read from it. -/
theorem drop_eq_chunk_append (data : Bytes) (off n : Nat) : data.drop off
    = (data.drop off).take n ++ data.drop (off + ((data.drop off).take n).length) := by
  rw [← List.drop_drop]
  exact (List.prefix_iff_eq_append.mp (List.take_prefix ..)).symm

/-- **The content of a file.**  From position `off` on, the program sends the rest of the file. -/
theorem transferContent_sends {h : Host} {ino : Nat} {data : Bytes}
    (hdata : h.fs.dataOf ino = some data) (fuel : Nat) {off : Nat} (hoff : off ≤ data.length) :
    Sends true h (transferContent (.regular ino) fuel off (data.length - off : Nat))
      {data.drop off} := by
  induction fuel generalizing off with
  | zero => exact .quit quits_spin ⟨_, rfl⟩
  | succ fuel ih =>
    unfold transferContent
    split
    · -- everything has been sent
      have hnil : data.drop off = [] := List.drop_eq_nil_of_le (by omega)
      rw [hnil]
      exact .success rfl
    · refine .call rfl fun l => ?_
      rw [respond_host_of_read (.inr (.inr ⟨_, _, _, rfl⟩))]
      -- a read delivers nothing or the next part of the file
      have hread : (respond (.fread (.regular ino) off fileBufSz) (l, h)).1 = [] ∨
          (respond (.fread (.regular ino) off fileBufSz) (l, h)).1
            = (data.drop off).take fileBufSz := by
        simp only [respond, Call.failed]
        cases l.fault with
        | false => right; simp [execute, freadOf, hdata]
        | true => exact .inl rfl
      generalize (respond (.fread (.regular ino) off fileBufSz) (l, h)).1 = chunk at hread ⊢
      show Sends true h (if chunk = [] then _ else _) _
      split
      · -- an empty read is tried again
        exact ih hoff
      · rename_i hne
        have hchunk : chunk = (data.drop off).take fileBufSz := hread.resolve_left hne
        have hlen : chunk.length ≤ data.length - off := by
          rw [hchunk, List.length_take, List.length_drop]
          omega
        have hsplit : data.drop off = chunk ++ data.drop (off + chunk.length) := by
          rw [hchunk]
          exact drop_eq_chunk_append data off fileBufSz
        -- what is left of the size is what is left of the file
        have hrest := @ih (off + chunk.length) (by omega)
        have hcast : ((data.length - (off + chunk.length) : Nat) : Int)
            = ((data.length - off : Nat) : Int) - chunk.length := by omega
        rw [hcast] at hrest
        refine (Sends.writeOr hrest).mono ?_
        rintro w ⟨_, rfl, _, rfl, rfl⟩
        exact hsplit.symm

variable {h : Host} (env : Env)

/-- A file is sent as a frame. -/
theorem transferRegularFile_sends (filePath : Bytes) {filename : Bytes}
    (hname : filename.length ≤ maxFileNameLen) :
    Sends true h (transferRegularFile env filePath filename) (frameWords env.configuration) := by
  have hquit : Sends true h (.ret .failure) (frameWords env.configuration) :=
    .quit quits_failure (frameWords_nonempty _)
  refine .call rfl fun l => ?_
  rw [respond_host_of_read (.inl ⟨_, rfl⟩)]
  generalize (respond (.openRead filePath) (l, h)).1 = opened
  rcases opened with _ | s
  · exact .call rfl fun l => .quit quits_failure (frameWords_nonempty _)
  · refine .call rfl fun l => ?_
    rw [respond_host_of_read (.inr (.inl ⟨_, rfl⟩))]
    obtain ⟨fileSize, hresp⟩ : ∃ z : Int, (respond (.fileSize s) (l, h)).1 = z := ⟨_, rfl⟩
    -- a call that fails gives -1, which is refused
    have hsize : fileSize = -1 ∨ fileSize = fileSizeOf h s := by
      rw [← hresp]
      simp only [respond, Call.failed]
      cases l.fault with
      | false => exact .inr rfl
      | true => exact .inl rfl
    rw [hresp]
    show Sends true h (if fileSize < 0 ∨ fileSize > env.configuration.maxFileSize then _ else _) _
    split
    · exact hquit
    · -- the size is the one of a regular file
      rename_i hbounds
      simp only [not_or, not_lt] at hbounds
      obtain ⟨ino, data, rfl, hdata, rfl⟩ : ∃ ino data, s = .regular ino ∧
          h.fs.dataOf ino = some data ∧ fileSize = data.length := by
        have hval : fileSize = fileSizeOf h s := hsize.resolve_left (by omega)
        cases s with
        | other =>
          simp only [fileSizeOf] at hval
          omega
        | regular ino =>
          simp only [fileSizeOf] at hval
          cases hd : h.fs.dataOf ino with
          | none => rw [hd] at hval; simp only at hval; omega
          | some data => rw [hd] at hval; exact ⟨ino, data, rfl, hd, hval⟩
      have hcontent := transferContent_sends hdata env.fuel (Nat.zero_le _)
      refine (Sends.sendData (Sends.writeOr hcontent)).mono ?_
      rintro w ⟨u, rfl, v, ⟨_, rfl, _, rfl, rfl⟩, rfl⟩
      refine Language.append_mem_mul (counted_mem (Nat.zero_le _) hname) (.inl ?_)
      exact counted_mem (Nat.zero_le _) (by omega)

/-- A directory is sent as a frame. -/
theorem transferDirectory_sends (c : Config) {filename : Bytes}
    (hname : filename.length ≤ maxFileNameLen) :
    Sends true h (transferDirectory filename) (frameWords c) := by
  have hmark : Sends true h (do return Status.ofBool (← sendSize (-1))) ({sizeBytes 8 (-1)} * 1) :=
    .write (.success rfl)
  rw [mul_one] at hmark
  refine (Sends.sendData hmark).mono ?_
  rintro w ⟨u, rfl, v, rfl, rfl⟩
  exact Language.append_mem_mul (counted_mem (Nat.zero_le _) hname) (.inr rfl)

theorem transferSingleFile_sends (version : Nat) (filePath : Bytes) (pathLen : Nat) :
    Sends true h (transferSingleFile env version filePath pathLen)
      (frameWords env.configuration) := by
  unfold transferSingleFile
  dsimp only
  split
  · exact .call rfl fun l => .quit quits_failure (frameWords_nonempty _)
  · rename_i hlen
    simp only [not_or, not_lt, not_le] at hlen
    split
    · refine transferDirectory_sends _ ?_
      rw [List.length_dropLast]
      omega
    · exact transferRegularFile_sends env filePath (by omega)

/-- **Run lemma.**  The loop over the files sends one frame for each. -/
theorem transferFiles_sends (version pathLen : Nat) (files : List Bytes) :
    Sends true h (transferFiles env version pathLen files)
      (frameWords env.configuration ^ files.length) := by
  induction files generalizing h with
  | nil => exact .success rfl
  | cons filePath files ih =>
    rw [List.length_cons, pow_succ']
    exact .bind (transferSingleFile_sends env version filePath pathLen) quits_failure
      (fun h' => ih) (pow_nonempty (frameWords_nonempty _) _)

/-- The number of files and the files. -/
theorem countedFiles_sends (version pathLen : Nat) {files : List Bytes}
    (hfiles : sendableFiles env files = true) :
    Sends true h (do
      if !(← sendSize files.length) then return .failure
      else transferFiles env version pathLen files) (filesWords env.configuration) := by
  simp only [sendableFiles, not_lt, decide_eq_true_eq, ne_eq] at hfiles
  refine (Sends.writeOr (transferFiles_sends env version pathLen files)).mono fun w hw => ?_
  exact ⟨files.length, Nat.pos_of_ne_zero hfiles.1, hfiles.2, hw⟩

theorem getFilesCommon_sends (version : Nat) (fileList : Option (List Bytes)) (pathLen : Nat) :
    Sends true h (getFilesCommon env version fileList pathLen)
      (reply (filesWords env.configuration)) := by
  unfold getFilesCommon
  split
  · exact .noData (.close quits_failure)
  · rename_i files hfiles
    exact .ok (countedFiles_sends env version pathLen (Option.filter_eq_some_iff.mp hfiles).2)

/-! ### Texts, images and information -/

/-- A text that is sent has a length in range, before and after the conversion. -/
theorem getTextV1_sends : Sends true h (getTextV1 env) (reply (textWords env.configuration)) := by
  refine .offSocket (.xclipOut none) (fun buf h' => ?_) ⟨[statusNoData], .inl rfl⟩
  dsimp only
  split
  · exact .noData (.close quits_failure)
  · rename_i buf hbuf
    have hmax := (Option.filter_eq_some_iff.mp hbuf).2
    simp only [sendableText, not_lt, decide_eq_true_eq] at hmax
    split
    · exact .noData quits_failure
    · rename_i hpos
      refine .ok (.sendData_end (by omega) ?_)
      calc (convertEol buf).length ≤ (cstr buf).length := length_convertToLf_le _
        _ ≤ buf.length := cstr_length_le _
        _ ≤ env.configuration.maxTextLength.toNat := hmax.2

theorem getImageCommon_sends (mode : ImageMode) (disp : UInt16) :
    Sends true h (getImageCommon env mode disp) (reply imageWords) := by
  refine .offSocket (.getImage env mode disp) (fun buf h' => ?_) ⟨[statusNoData], .inl rfl⟩
  split
  · exact .noData (.close quits_failure)
  · rename_i buf hbuf
    have hmax := (Option.filter_eq_some_iff.mp hbuf).2
    simp only [sendableImage, not_lt, decide_eq_true_eq] at hmax
    exact .ok (.sendData_end (Nat.pos_of_ne_zero hmax.1) hmax.2)

theorem getScreenshotCommon_sends :
    Sends true h (getScreenshotCommon env) (reply (reply imageWords)) := by
  refine .ok (.readSize fun r => ?_)
  rcases r with _ | disp
  · exact .quit quits_failure ⟨[statusNoData], .inl rfl⟩
  · exact getImageCommon_sends env _ _

/-- The information fits its buffer. -/
theorem infoPayload_length : 1 ≤ (infoPayload env).length ∧ (infoPayload env).length ≤ 4096 := by
  have hname : infoName.length = 10 := by decide
  unfold infoPayload
  split
  · rw [hname]; omega
  · rename_i name _
    rw [List.length_append, hname]
    unfold snprintfCheck
    split
    · rename_i hfit
      simp only [Option.getD_some]
      omega
    · simp

theorem infoV1_sends : Sends true h infoV1 (reply infoWords) :=
  .ok (.sendData_end (by decide) (by decide))

/-! ### Receiving -/

theorem sendTextCommon_sends (version : Nat) : Sends false h (sendTextCommon env version)
    (reply (if version ≥ 4 then {[1]} else 1)) := by
  have hne : ∃ w, w ∈ (if version ≥ 4 then {[1]} else 1 : Language UInt8) := by
    split
    · exact ⟨[1], rfl⟩
    · exact ⟨[], rfl⟩
  refine .ok (.readSize fun r => ?_)
  rcases r with _ | length
  · exact .quit quits_failure hne
  · dsimp only
    split
    · exact .quit quits_failure hne
    · refine .read fun r => ?_
      rcases r with _ | data
      · exact .quit quits_failure hne
      · show Sends false h (if version ≥ 4 then _ else _) _
        split
        · exact .mono (L := {[1]} * 1) (.write (.close (.storeText data) rfl)) (mul_one _).le
        · exact .close (.storeText data) rfl

/-- Reading a file into the tree sends nothing. -/
theorem saveContent_sends (fileName : Bytes) (file fuel off fileSize : Nat) :
    Sends true h (saveContent fileName file fuel off fileSize) 1 := by
  induction fuel generalizing h off fileSize with
  | zero => exact .success rfl
  | succ fuel ih =>
    unfold saveContent
    split
    · exact .success rfl
    · dsimp only
      generalize (if fileSize < fileBufSz then fileSize else fileBufSz) = readLen
      refine .readThen fun r => ?_
      rcases r with _ | data
      · exact .call rfl fun l => .quit quits_failure ⟨[], rfl⟩
      · refine .askThen rfl fun l => ?_
        dsimp only
        split
        · exact .call rfl fun l => .quit quits_failure ⟨[], rfl⟩
        · exact ih _ _

/-- A program off the socket that returns a status. -/
theorem OffSocket.sends {p : Proc Status} (hp : OffSocket p) : Sends true h p 1 := by
  intro l hopen _
  refine (hp.sat l h).mono fun a l' _ ⟨_, hout, hclosed, horacle⟩ => ?_
  exact ⟨horacle, fun _ _ => hclosed.trans hopen, [], by rw [hout, List.append_nil], .of_mem rfl⟩

theorem saveFileCommon_sends (version : Nat) (fileName : Bytes) :
    Sends true h (saveFileCommon env version fileName) 1 := by
  have hquit : ∀ h', Sends true h' (.ret .failure) 1 := fun h' => .quit quits_failure ⟨[], rfl⟩
  refine .readSize fun r => ?_
  rcases r with _ | fileSize
  · exact hquit h
  · dsimp only
    split
    · exact hquit h
    · split
      · exact (OffSocket.mkdirs fileName).sends
      · split
        · exact hquit h
        · refine .offSocket (.ask rfl _) (fun r h' => ?_) ⟨[], rfl⟩
          rcases r with _ | file
          · exact .call rfl fun l => hquit _
          · exact saveContent_sends _ _ _ _ _

theorem saveFile_sends (version : Nat) (dirname : Bytes) :
    Sends true h (saveFile env version dirname) 1 := by
  have hquit : ∀ h', Sends true h' (.ret .failure) 1 := fun h' => .quit quits_failure ⟨[], rfl⟩
  refine .readSize fun r => ?_
  rcases r with _ | fnameSize
  · exact hquit h
  · dsimp only
    split
    · exact hquit h
    · refine .readThen fun r => ?_
      rcases r with _ | fileName
      · exact hquit h
      · dsimp only
        split
        · exact hquit h
        · split
          · exact hquit h
          · split
            · exact hquit h
            · refine .offSocket (.makeDirectories _) (fun s h' => ?_) ⟨[], rfl⟩
              cases s with
              | failure => exact hquit h'
              | success =>
                refine .offSocket (.fileExists _) (fun b h' => ?_) ⟨[], rfl⟩
                split
                · exact hquit h'
                · exact saveFileCommon_sends env version _

theorem saveFiles_sends (version : Nat) (dirname : Bytes) (cnt : Nat) :
    Sends true h (saveFiles env version dirname cnt) 1 := by
  induction cnt generalizing h with
  | zero => exact .success rfl
  | succ cnt ih =>
    have hseq : Sends true h (saveFiles env version dirname (cnt + 1)) (1 * 1) :=
      .bind (saveFile_sends env version dirname) quits_failure (fun h' => ih) ⟨[], rfl⟩
    rwa [one_mul] at hseq

/-- A failed upload does not become a success. -/
theorem settleUpload_quits (dirname : Bytes) : Quits (settleUpload env dirname .failure) := by
  refine .offSocket (.ask rfl _) ?_
  rintro (_ | files)
  · exact quits_spin
  · dsimp only
    split
    · exact .offSocket (.ask rfl _) fun _ => quits_failure
    · exact quits_failure

/-- The end of an upload: an acknowledgement from version 4 on. -/
theorem finishUpload_sends (version : Nat) (dirname : Bytes) :
    Sends false h (do
      let status ← finishUpload version .success
      settleUpload env dirname status) (if version ≥ 4 then {[1]} else 1) := by
  unfold finishUpload
  by_cases hv : version ≥ 4
  · have hack : Sends false h (.call (.writeSock [1]) fun r =>
        .call (.closeSocket true true) fun _ => settleUpload env dirname (.ofBool r)) ({[1]} * 1) :=
      .write (.close (.settleUpload env dirname .success) rfl)
    rw [mul_one] at hack
    simpa [hv, sendAck, writeSock, closeSocket] using hack
  · simpa [hv, closeSocketNoWait] using
      (Sends.close (.settleUpload env dirname .success) rfl : Sends false h
        (.call (.closeSocket false true) fun _ => settleUpload env dirname .success) 1)

theorem sendFilesDirs_sends (version : Nat) : Sends false h (sendFilesDirs env version)
    (reply (if version ≥ 4 then {[1]} else 1)) := by
  have hne : ∃ w, w ∈ (if version ≥ 4 then {[1]} else 1 : Language UInt8) := by
    split
    · exact ⟨[1], rfl⟩
    · exact ⟨[], rfl⟩
  have hquit : ∀ h', Sends false h' (.ret .failure) (if version ≥ 4 then {[1]} else 1) :=
    fun h' => .quit quits_failure hne
  refine .ok (.readSize fun r => ?_)
  rcases r with _ | cnt
  · exact hquit h
  · dsimp only
    split
    · exact hquit h
    · refine .askThen rfl fun l => .offSocket (.freeTempName _ _) (fun r h' => ?_) hne
      rcases r with _ | dirname
      · exact hquit h'
      · refine .offSocket (.mkdirs dirname) (fun s h' => ?_) hne
        cases s with
        | failure => exact hquit h'
        | success =>
          have hfail : Quits (do
              let status ← finishUpload version .failure
              settleUpload env dirname status) := by
            simpa [finishUpload, closeSocketNoWait] using (settleUpload_quits env dirname).close
          have hseq : Sends false h' (do
              let status ← saveFiles env version dirname cnt.toNat
              let status ← finishUpload version status
              settleUpload env dirname status) (1 * if version ≥ 4 then {[1]} else 1) :=
            .bind (saveFiles_sends env version dirname cnt.toNat) hfail
              (fun h' => finishUpload_sends env version dirname) hne
          rwa [one_mul] at hseq

theorem sendFileV1_sends : Sends false h (sendFileV1 env) (reply 1) := by
  have hquit : ∀ h', Sends false h' (.ret .failure) 1 := fun h' => .quit quits_failure ⟨[], rfl⟩
  refine .ok (.readSize fun r => ?_)
  rcases r with _ | nameLength
  · exact hquit h
  dsimp only
  split
  · exact hquit h
  split
  · exact .call rfl fun l => hquit _
  refine .readThen fun r => ?_
  rcases r with _ | fileName
  · exact hquit h
  dsimp only
  split
  · exact hquit h
  split
  · exact hquit h
  refine .offSocket (.renameIfExists _ _ _) (fun r h' => ?_) ⟨[], rfl⟩
  rcases r with _ | fileName
  · exact hquit h'
  -- once the file is saved, the socket is closed and nothing else is sent
  exact .mono (L := 1 * 1) (.bind (saveFileCommon_sends env 1 fileName) quits_failure
    (fun h' => .close (.cutSentFiles env _) rfl) ⟨[], rfl⟩) (mul_one _).le

/-! ### Any data -/

theorem getAnyText_sends : Sends true h (getAnyText env)
    (reply ({[CopiedType.text.code]} * textWords env.configuration)) := by
  refine .offSocket (.xclipOut none) (fun buf h' => ?_) ⟨[statusNoData], .inl rfl⟩
  dsimp only
  split
  · exact .noData quits_failure
  · rename_i buf hbuf
    have hmax := (Option.filter_eq_some_iff.mp hbuf).2
    simp only [sendableText, not_lt, decide_eq_true_eq] at hmax
    split
    · exact .noData quits_failure
    · rename_i hpos
      refine .ok (.writeOr (.sendData_end (by omega) ?_))
      calc (convertEol buf).length ≤ (cstr buf).length := length_convertToLf_le _
        _ ≤ buf.length := cstr_length_le _
        _ ≤ env.configuration.maxTextLength.toNat := hmax.2

theorem getAnyFiles_sends : Sends true h (getAnyFiles env)
    (reply ({[CopiedType.file.code]} * filesWords env.configuration)) := by
  refine .offSocket (.getCopiedDirsFiles true) (fun copied h' => ?_) ⟨[statusNoData], .inl rfl⟩
  split
  · exact .noData quits_failure
  · rename_i files hfiles
    exact .ok (.writeOr
      (countedFiles_sends env 4 copied.pathLen (Option.filter_eq_some_iff.mp hfiles).2))

theorem getAnyImage_sends : Sends true h (getAnyImage env)
    (reply ({[CopiedType.image.code]} * imageWords)) := by
  refine .offSocket (.getImage env .copiedOnly 0) (fun buf h' => ?_) ⟨[statusNoData], .inl rfl⟩
  split
  · exact .noData quits_failure
  · rename_i buf hbuf
    have hmax := (Option.filter_eq_some_iff.mp hbuf).2
    simp only [sendableImage, not_lt, decide_eq_true_eq] at hmax
    exact .ok (.writeOr (.sendData_end (Nat.pos_of_ne_zero hmax.1) hmax.2))

/-- The acknowledgement of the client ends the method. -/
theorem finishAny_sends {p : Proc Status} {L : Language UInt8} (hp : Sends true h p L) :
    Sends false h (finishAny p) L := by
  have hack : ∀ h', Sends false h' (do
      let res ← readAck
      closeSocketNoWait
      return res) 1 := by
    refine fun h' => .read fun r => ?_
    rcases r with _ | ack
    · exact .quit (Quits.close quits_failure) ⟨[], rfl⟩
    · show Sends false h'
        ((if ack ≠ [1] then .ret .failure else .ret .success : Proc Status) >>= _) 1
      split
      · exact .quit (Quits.close quits_failure) ⟨[], rfl⟩
      · exact .close (.ret _) rfl
  have hseq : Sends false h (finishAny p) (L * 1) :=
    .bind hp (Quits.close quits_failure) hack ⟨[], rfl⟩
  rwa [mul_one] at hseq

theorem reply_mono {L L' : Language UInt8} (hL : L ≤ L') : reply L ≤ reply L' :=
  add_le_add le_rfl (mul_le_mul_right hL _)

theorem getAnyV4_sends :
    Sends false h (getAnyV4 env) (reply (payload env.configuration .getAnyV4)) := by
  refine .offSocket .getCopiedType (fun copied h' => ?_) ⟨[statusNoData], .inl rfl⟩
  have htext : {[CopiedType.text.code]} * textWords env.configuration
      ≤ payload env.configuration .getAnyV4 := fun _ hw => .inl (.inl hw)
  have hfile : {[CopiedType.file.code]} * filesWords env.configuration
      ≤ payload env.configuration .getAnyV4 := fun _ hw => .inl (.inr hw)
  have himage : {[CopiedType.image.code]} * imageWords
      ≤ payload env.configuration .getAnyV4 := fun _ hw => .inr hw
  cases copied with
  | none => exact .noData quits_failure
  | text => exact (finishAny_sends (getAnyText_sends env)).mono (reply_mono htext)
  | file => exact (finishAny_sends (getAnyFiles_sends env)).mono (reply_mono hfile)
  | image => exact (finishAny_sends (getAnyImage_sends env)).mono (reply_mono himage)

/-! ### Handlers and versions -/

/-- **Every handler keeps to its grammar.** -/
theorem handler_sends (hd : Handler) :
    Sends false h (handler env hd) (reply (payload env.configuration hd)) := by
  have hne : ∀ L : Language UInt8, ∃ w, w ∈ reply L := fun L => ⟨[statusNoData], .inl rfl⟩
  cases hd with
  | getTextV1 => exact (getTextV1_sends env).forget
  | sendTextV1 => exact sendTextCommon_sends env 1
  | getFilesV1 =>
    exact .offSocket .getCopiedFiles (fun r h' => (getFilesCommon_sends env 1 r 0).forget) (hne _)
  | sendFileV1 => exact sendFileV1_sends env
  | getImageV1 => exact (getImageCommon_sends env .any 0).forget
  | infoV1 => exact infoV1_sends.forget
  | getFilesV2 =>
    exact .offSocket (.getCopiedDirsFiles false)
      (fun r h' => (getFilesCommon_sends env 2 r.lst r.pathLen).forget) (hne _)
  | sendFilesV2 => exact sendFilesDirs_sends env 2
  | getCopiedImageV3 => exact (getImageCommon_sends env .copiedOnly 0).forget
  | getScreenshotV3 => exact (getScreenshotCommon_sends env).forget
  | getFilesV3 =>
    exact .offSocket (.getCopiedDirsFiles true)
      (fun r h' => (getFilesCommon_sends env 3 r.lst r.pathLen).forget) (hne _)
  | sendFilesV3 => exact sendFilesDirs_sends env 3
  | getTextV4 => exact .thenAck (getTextV1_sends env)
  | sendTextV4 => exact sendTextCommon_sends env 4
  | getFilesV4 =>
    exact .offSocket (.getCopiedDirsFiles true)
      (fun r h' => .thenAck (getFilesCommon_sends env 4 r.lst r.pathLen)) (hne _)
  | sendFilesV4 => exact sendFilesDirs_sends env 4
  | getImageV4 => exact .thenAck (getImageCommon_sends env .any 0)
  | getCopiedImageV4 => exact .thenAck (getImageCommon_sends env .copiedOnly 0)
  | getScreenshotV4 => exact .thenAck (getScreenshotCommon_sends env)
  | getAnyV4 => exact getAnyV4_sends env
  | infoV4 =>
    obtain ⟨hlo, hhi⟩ := infoPayload_length env
    exact .thenAck (.ok (.sendData_end hlo hhi))

theorem answers_nonempty (c : Config) (version method : UInt8) :
    ∃ w, w ∈ answers c version method := by
  unfold answers
  split
  · exact ⟨_, rfl⟩
  · split
    · exact ⟨_, rfl⟩
    · exact ⟨[statusNoData], .inl rfl⟩

/-- What `serveMethod` does once it has read the method. -/
theorem method_sends (version method : UInt8) : Sends false h (do
    match ← checkMethodEnabled env method with
    | .failure => return .success
    | .success =>
      match methodsOf version method with
      | some hd => do
          enter hd
          handler env hd
      | none => do
          let _ ← writeSock [statusUnknownMethod]
          closeSocketNoWait
          return .failure) (answers env.configuration version method) := by
  unfold answers checkMethodEnabled
  split
  · have hw : Sends false h (.call (.writeSock [statusMethodNotImplemented]) fun _ =>
        .call (.closeSocket false true) fun _ => .ret .success)
        ({[statusMethodNotImplemented]} * 1) := .write (.close (.ret _) rfl)
    rwa [mul_one] at hw
  · show Sends false h (match methodsOf version method with | some hd => _ | none => _) _
    split
    · rename_i hd hm
      rw [hm]
      exact .call rfl fun l => handler_sends env hd
    · rename_i hm
      rw [hm]
      have hw : Sends false h (.call (.writeSock [statusUnknownMethod]) fun _ =>
          .call (.closeSocket false true) fun _ => .ret .failure)
          ({[statusUnknownMethod]} * 1) := .write (.close (.ret _) rfl)
      rwa [mul_one] at hw

/-- A session sends a word of the grammar, or a prefix of one, for the method that it reads. -/
theorem serveMethod_sat (version : UInt8) {l : Session} (hopen : l.closed = false)
    (hw : l.Writable) : (serveMethod env (methodsOf version)).Sat respond quiet l h (fun a l' _ =>
      Sent false (answers env.configuration version (l.input.headD 0)) l a l') := by
  rintro h' rfl
  refine ⟨fun _ => hopen, ?_⟩
  have hclosed := respond_closed (.readSock 1) l h
  rw [respond_readSock] at hclosed ⊢
  have horacle : (l.readSock 1).2.oracle = l.oracle := by
    unfold Session.readSock
    split_ifs <;> rfl
  have hout : (l.readSock 1).2.output = l.output := l.readSock_output 1
  rcases l.readSock_byte with ⟨l1, hread⟩ | ⟨m, l1, hin, -, hread⟩
  · rw [hread] at horacle hout ⊢
    exact ⟨horacle, nofun, [], by rw [hout, List.append_nil], answers_nonempty _ _ _⟩
  · rw [hread] at hclosed horacle hout ⊢
    rw [hin, List.headD_cons]
    have hopen1 : l1.closed = false := by rw [hclosed, hopen]; rfl
    have hw1 : l1.Writable := fun k => by rw [horacle]; exact hw k
    refine (method_sends env version m l1 hopen1 hw1).mono fun a l' _ hsent => ?_
    obtain ⟨w, hout', hword⟩ := hsent.words
    exact ⟨hsent.oracle.trans horacle, nofun, w, by rw [hout', hout], hword⟩

/-- **Framing of replies.**  In any version and for any client, configuration, clipboard and file
    tree, on a connection whose writes never fail, a session sends a prefix of one word of the
    reply grammar, and the whole word if its handler succeeds; it exchanges nothing with the
    client once it has closed the socket. -/
theorem serveMethod_framed (version : UInt8) (l : Session) (h : Host) (hopen : l.closed = false)
    (hw : ∀ k, l.oracle.write k = none) :
    (∃ w word, ((serveMethod env (methodsOf version)).run respond (l, h)).2.1.output
        = l.output ++ w ∧ w <+: word ∧
      word ∈ answers env.configuration version (l.input.headD 0) ∧
      (((serveMethod env (methodsOf version)).run respond (l, h)).1 = some .success → w = word)) ∧
    QuietTrace false ((serveMethod env (methodsOf version)).trace respond (l, h)) := by
  have hsat := serveMethod_sat env (h := h) version hopen hw
  refine ⟨?_, hopen ▸ Sat.quietTrace hsat⟩
  obtain ⟨w, hout, hword⟩ := hsat.run.words
  by_cases hs : ((serveMethod env (methodsOf version)).run respond (l, h)).1 = some .success
  · rw [hs] at hword
    exact ⟨w, w, hout, List.prefix_rfl, hword, fun _ => rfl⟩
  · obtain ⟨v, hv⟩ := hword.exists_append
    exact ⟨w, w ++ v, hout, List.prefix_append w v, hv, fun h => absurd h hs⟩

/-- A client of version 4 that asks for the server information. -/
theorem serveMethod_framed_info :
    (∃ w word, ((serveMethod .default (methodsOf 4)).run respond
        (.fresh [methodInfo, 1] .calm, .empty)).2.1.output = [] ++ w ∧ w <+: word ∧
      word ∈ answers Env.default.configuration 4 methodInfo ∧
      (((serveMethod .default (methodsOf 4)).run respond
        (.fresh [methodInfo, 1] .calm, .empty)).1 = some .success → w = word)) ∧
    QuietTrace false ((serveMethod .default (methodsOf 4)).trace respond
      (.fresh [methodInfo, 1] .calm, .empty)) :=
  serveMethod_framed .default 4 (.fresh [methodInfo, 1] .calm) .empty rfl fun _ => rfl

end ClipShare
