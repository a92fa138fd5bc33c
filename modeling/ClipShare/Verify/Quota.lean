import ClipShare.Interaction.Budget
import ClipShare.Verify.Rights
import ClipShare.Verify.Text

namespace ClipShare

open Interaction Posix

/-!
# What clients can fill

The configuration limits the length of a text, the size of a file and the number of files of an
upload.  A session keeps to the limits, whatever it is sent, and so do any number of sessions.  The
limits are not about the server's own error log and the file that `create_temp_file` makes.

* `Config.tariff` — the calls that keep to the limits; a new file costs one;
* `server_spends` — a session makes no more files than one upload may have;
* `WithinQuota` — what all sessions keep of the host;
* `sessions_quota` — what any interleaving of sessions can add to a host.
-/

/-- Reading delivers as many bytes as were asked for, if any. -/
def Call.Delivers : (c : Call) → c.Resp → Prop
  | .readSock n, r => ∀ data, r = some data → data.length = n
  | _, _ => True

/-- The calls that keep to the limits; a new file costs one. -/
def Config.tariff (c : Config) : Tariff Calls where
  answers := Call.Delivers
  allows
    | .fwrite _ off data => off + data.length ≤ c.maxFileSize.toNat
    | .xclipIn _ data => data.length ≤ c.maxTextLength.toNat
    | _ => True
  cost
    | .openWrite _ => 1
    | _ => 0

/-! ### Sessions -/

section Session

variable {env : Env} {n : Nat} {α : Type}

/-- Neither files nor texts are written. -/
def Resource.Free (r : Resource) : Prop := r ≠ .written ∧ r ≠ .text

theorem spends_of_stays {p : Proc α} (hp : Stays Resource.Free p) :
    p.Spends env.configuration.tariff n fun _ => True := by
  refine Prog.Spends.of_only hp fun c hc => ?_
  cases c with
  | openWrite | fwrite => exact absurd rfl hc.1
  | xclipIn => exact absurd rfl hc.2
  | _ => exact ⟨trivial, rfl⟩

theorem free_own : Resource.Free .own := ⟨nofun, nofun⟩

theorem free_names : Resource.Free .names := ⟨nofun, nofun⟩

theorem free_tree : Resource.Free .tree := ⟨nofun, nofun⟩

theorem free_cut : Resource.Free .cut := ⟨nofun, nofun⟩

theorem spends_readSock (k : Nat) :
    (readSock k).Spends env.configuration.tariff 0
      fun r => ∀ data, r = some data → data.length = k :=
  Prog.spends_call trivial rfl fun _ hr => hr

theorem spends_readSize : readSize.Spends env.configuration.tariff 0 fun _ => True :=
  spends_of_stays (stays_readSize free_own)

/-- A status that is sent. -/
theorem spends_status {code : UInt8} {rest : Proc Status}
    (hrest : rest.Spends env.configuration.tariff n fun _ => True) :
    (writeSock [code] >>= fun sent => if !sent then (.ret .failure : Proc Status) else rest).Spends
      env.configuration.tariff n fun _ => True := by
  refine (spends_of_stays (stays_writeSock free_own _)).bind_free fun sent _ => ?_
  cases sent with
  | false => trivial
  | true => exact hrest

theorem spends_storeText {data : Bytes} (h : data.length ≤ env.configuration.maxTextLength.toNat) :
    (storeText data).Spends env.configuration.tariff n fun _ => True := by
  have hlen : (convertEol data).length ≤ env.configuration.maxTextLength.toNat := by
    calc (convertEol data).length ≤ (cstr data).length := length_convertToLf_le _
      _ ≤ data.length := (List.takeWhile_prefix _).length_le
      _ ≤ env.configuration.maxTextLength.toNat := h
  unfold storeText
  dsimp only
  split_ifs
  · trivial
  · trivial
  · exact Prog.spends_call hlen rfl fun _ _ => trivial

theorem spends_sendTextCommon (version : Nat) :
    (sendTextCommon env version).Spends env.configuration.tariff n fun _ => True := by
  refine spends_status (spends_readSize.bind_free fun r _ => ?_)
  cases r with
  | none => trivial
  | some length =>
    dsimp only
    split
    · trivial
    · refine (spends_readSock _).bind_free fun r hr => ?_
      cases r with
      | none => trivial
      | some data =>
        have hdata : data.length ≤ env.configuration.maxTextLength.toNat := by
          have := hr data rfl
          omega
        dsimp only
        split
        · refine (spends_of_stays (stays_sendAck free_own)).bind_free fun status _ => ?_
          cases status with
          | failure => trivial
          | success =>
            exact (spends_of_stays (stays_closeSocket free_own)).bind_free fun _ _ =>
              spends_storeText hdata
        · exact (spends_of_stays (stays_closeSocketNoWait free_own)).bind_free fun _ _ =>
            spends_storeText hdata

/-- The loop writes no further than to the size that was announced. -/
theorem spends_saveContent (fileName : Bytes) (file fuel off fileSize : Nat)
    (h : off + fileSize ≤ env.configuration.maxFileSize.toNat) :
    (saveContent fileName file fuel off fileSize).Spends env.configuration.tariff n
      fun _ => True := by
  induction fuel generalizing off fileSize with
  | zero => trivial
  | succ fuel ih =>
    unfold saveContent
    dsimp only
    by_cases h0 : fileSize = 0
    · rw [if_pos h0]
      trivial
    · rw [if_neg h0]
      obtain ⟨-, hle⟩ := readLen_bounds h0
      generalize (if fileSize < fileBufSz then fileSize else fileBufSz) = readLen at hle ⊢
      refine (spends_readSock readLen).bind_free fun r hr => ?_
      cases r with
      | none => exact spends_of_stays (stays_removeFile free_tree fileName)
      | some data =>
        have hdata := hr data rfl
        refine Prog.spends_call (show off + data.length ≤ _ by omega) rfl fun written _ => ?_
        show Prog.Spends _ (if written < _ then _ else _) _ _
        split
        · exact spends_of_stays (stays_removeFile free_tree fileName)
        · exact ih _ _ (by omega)

theorem spends_saveFileCommon (version : Nat) (fileName : Bytes) :
    (saveFileCommon env version fileName).Spends env.configuration.tariff 1 fun _ => True := by
  refine spends_readSize.bind_free fun r _ => ?_
  cases r with
  | none => trivial
  | some fileSize =>
    dsimp only
    split_ifs with hmax
    · trivial
    · exact spends_of_stays (stays_mkdirs free_own free_names free_tree fileName)
    · trivial
    · refine ⟨trivial, le_rfl, fun file _ => ?_⟩
      cases file with
      | none => exact spends_of_stays ((stays_error free_own _).bind fun _ => Prog.only_ret _)
      | some file => exact spends_saveContent _ _ _ _ _ (by omega)

theorem spends_sendFileV1 :
    (sendFileV1 env).Spends env.configuration.tariff 1 fun _ => True := by
  refine spends_status (spends_readSize.bind_free fun r _ => ?_)
  cases r with
  | none => trivial
  | some nameLength =>
    dsimp only
    split_ifs
    · trivial
    · exact spends_of_stays ((stays_error free_own _).bind fun _ => Prog.only_ret _)
    · refine (spends_readSock _).bind_free fun r _ => ?_
      cases r with
      | none => trivial
      | some fileName =>
        dsimp only
        split_ifs
        · trivial
        · trivial
        · unfold storeFile renameIfExists
          cases snprintfCheck _ (firstCandidate env _) with
          | none => trivial
          | some tmp =>
            refine (spends_of_stays (stays_freeName free_names _ _ _ _)).bind_free fun r _ => ?_
            cases r with
            | none => trivial
            | some name =>
              refine ((spends_saveFileCommon 1 name).bind fun status _ => ?_).mono
                (le_refl (1 + 0)) fun _ h => h
              cases status with
              | failure => trivial
              | success =>
                exact spends_of_stays ((stays_closeSocketNoWait free_own).bind fun _ =>
                  stays_cutSentFiles (fun _ => free_cut) _)

theorem spends_saveFile (version : Nat) (dirname : Bytes) :
    (saveFile env version dirname).Spends env.configuration.tariff 1 fun _ => True := by
  refine spends_readSize.bind_free fun r _ => ?_
  cases r with
  | none => trivial
  | some fnameSize =>
    dsimp only
    split
    · trivial
    · refine (spends_readSock _).bind_free fun r _ => ?_
      cases r with
      | none => trivial
      | some fileName =>
        dsimp only
        split
        · trivial
        · cases uploadPath dirname fileName with
          | none => trivial
          | some newPath =>
            dsimp only
            split
            · trivial
            · unfold saveNewFile makeDirectories
              cases beforeLast sep newPath with
              | none => trivial
              | some parent =>
                have hmkdirs := stays_mkdirs free_own free_names free_tree parent
                refine (spends_of_stays hmkdirs).bind_free fun status _ => ?_
                cases status with
                | failure => trivial
                | success =>
                  refine (spends_of_stays (stays_fileExists free_names newPath)).bind_free
                    fun found _ => ?_
                  cases found with
                  | true => trivial
                  | false => exact spends_saveFileCommon version newPath

/-- Every file that is announced costs one. -/
theorem spends_saveFiles (version : Nat) (dirname : Bytes) (cnt : Nat) :
    (saveFiles env version dirname cnt).Spends env.configuration.tariff cnt fun _ => True := by
  induction cnt with
  | zero => trivial
  | succ cnt ih =>
    refine ((spends_saveFile version dirname).bind fun status _ => ?_).mono
      (Nat.add_comm 1 cnt).le fun _ h => h
    cases status with
    | failure => trivial
    | success => exact ih

theorem spends_sendFilesDirs (version : Nat) :
    (sendFilesDirs env version).Spends env.configuration.tariff
      env.configuration.maxFileCount.toNat fun _ => True := by
  refine spends_status (spends_readSize.bind_free fun r _ => ?_)
  cases r with
  | none => trivial
  | some cnt =>
    dsimp only
    split
    · trivial
    · rename_i hcnt
      refine Prog.spends_call trivial rfl fun id _ => ?_
      refine (spends_of_stays (stays_freeTempName free_own free_names env.fuel _)).bind_free
        fun r _ => ?_
      cases r with
      | none => trivial
      | some dirname =>
        refine (spends_of_stays (stays_mkdirs free_own free_names free_tree dirname)).bind_free
          fun status _ => ?_
        cases status with
        | failure => trivial
        | success =>
          refine ((spends_saveFiles version dirname cnt.toNat).bind fun status _ => ?_).mono
            (show cnt.toNat + 0 ≤ _ by omega) fun _ h => h
          refine spends_of_stays (Prog.Only.bind ?_ fun status =>
            stays_settleUpload free_own free_names free_tree (fun _ => free_cut) _ _)
          unfold finishUpload
          split
          · exact (stays_sendAck free_own).bind fun _ =>
              (stays_closeSocket free_own).bind fun _ => Prog.only_ret _
          · exact (stays_closeSocketNoWait free_own).bind fun _ => Prog.only_ret _

/-- The number of files that one session may make: a single file needs no limit. -/
def Config.fileLimit (c : Config) : Nat := max 1 c.maxFileCount.toNat

theorem spends_handler (hd : Handler) : (handler env hd).Spends env.configuration.tariff
    env.configuration.fileLimit fun _ => True := by
  have hmany : env.configuration.maxFileCount.toNat ≤ env.configuration.fileLimit :=
    Nat.le_max_right _ _
  cases hd with
  | sendTextV1 => exact spends_sendTextCommon 1
  | sendTextV4 => exact spends_sendTextCommon 4
  | sendFileV1 => exact spends_sendFileV1.mono (Nat.le_max_left _ _) fun _ h => h
  | sendFilesV2 => exact (spends_sendFilesDirs 2).mono hmany fun _ h => h
  | sendFilesV3 => exact (spends_sendFilesDirs 3).mono hmany fun _ h => h
  | sendFilesV4 => exact (spends_sendFilesDirs 4).mono hmany fun _ h => h
  | _ =>
    refine spends_of_stays (stays_handler free_own ?_)
    simp [Handler.uses, Resource.Free]

theorem spends_serveMethod (methods : UInt8 → Option Handler) :
    (serveMethod env methods).Spends env.configuration.tariff env.configuration.fileLimit
      fun _ => True := by
  have hclose : ∀ (code : UInt8) (status : Status), Prog.Spends env.configuration.tariff
      (writeSock [code] >>= fun _ => closeSocketNoWait >>= fun _ => .ret status)
      env.configuration.fileLimit fun _ => True := fun code status =>
    spends_of_stays ((stays_writeSock free_own _).bind fun _ =>
      (stays_closeSocketNoWait free_own).bind fun _ => Prog.only_ret _)
  refine (spends_readSock 1).bind_free fun r _ => ?_
  rcases r with _ | _ | ⟨method, _ | _⟩
  · trivial
  · trivial
  · dsimp only
    unfold checkMethodEnabled
    split
    · exact hclose _ _
    · dsimp only [Prog.pure_eq, Prog.ret_bind]
      cases methods method with
      | none => exact hclose _ _
      | some hd => exact Prog.spends_call trivial rfl fun _ _ => spends_handler hd
  · trivial

theorem spends_serveVersion (version : UInt8) :
    (serveVersion env version).Spends env.configuration.tariff env.configuration.fileLimit
      fun _ => True := by
  have hserve : ∀ methods, Prog.Spends env.configuration.tariff
      (serveMethod env methods >>= fun _ => .ret ()) env.configuration.fileLimit fun _ => True := by
    intro methods
    refine ((spends_serveMethod methods).bind fun _ _ => ?_).mono (le_refl (_ + 0)) fun _ h => h
    trivial
  unfold serveVersion
  split_ifs
  · trivial
  · exact hserve methods1
  · exact hserve methods2
  · exact hserve methods3
  · exact hserve methods4
  · trivial

/-- **A session keeps to the limits**, whatever the client sends. -/
theorem server_spends (env : Env) : (server env).Spends env.configuration.tariff
    env.configuration.fileLimit fun _ => True := by
  have hclose : ∀ n, closeSocketNoWait.Spends env.configuration.tariff n fun _ => True :=
    fun n => spends_of_stays (stays_closeSocketNoWait free_own)
  have hwrite : ∀ code, (writeSock code).Spends env.configuration.tariff 0 fun _ => True :=
    fun code => spends_of_stays (stays_writeSock free_own code)
  refine (spends_readSock 1).bind_free fun r _ => ?_
  rcases r with _ | _ | ⟨version, _ | _⟩
  · trivial
  · trivial
  · dsimp only
    split_ifs
    · exact (hwrite _).bind_free fun _ _ => hclose _
    · refine (hwrite _).bind_free fun sent _ => ?_
      cases sent with
      | false => trivial
      | true => exact spends_serveVersion version
    · refine (hwrite _).bind_free fun sent _ => ?_
      cases sent with
      | false => trivial
      | true =>
        refine (hwrite _).bind_free fun sent _ => ?_
        cases sent with
        | false => trivial
        | true =>
          refine (spends_readSock 1).bind_free fun r _ => ?_
          rcases r with _ | _ | ⟨version, _ | _⟩
          · trivial
          · trivial
          · dsimp only
            split
            · exact hclose _
            · exact spends_serveVersion version
          · trivial
  · trivial

end Session

/-! ### Hosts -/

/-- No file is longer than a bound for its inode. -/
def FilesWithin (bound : Nat → Nat) (fs : FileSystem) : Prop :=
  ∀ p ino d, fs.node p = some (.file ino d) → d.length ≤ bound ino

section Host

variable {bound : Nat → Nat} {fs fs' : FileSystem}

/-- A change that brings no new contents. -/
theorem FilesWithin.of_sub (hfs : FilesWithin bound fs)
    (h : ∀ q ino d, fs'.node q = some (.file ino d) → ∃ p, fs.node p = some (.file ino d)) :
    FilesWithin bound fs' := by
  intro q ino d hq
  obtain ⟨p, hp⟩ := h q ino d hq
  exact hfs p ino d hp

/-- A directory that appears, and a node that goes away. -/
theorem FilesWithin.of_update (hfs : FilesWithin bound fs) {p : Path} {nd : Option Node}
    (h : ∀ q, fs'.node q = if q = p then nd else fs.node q)
    (hnd : ∀ ino d, nd = some (.file ino d) → d = []) : FilesWithin bound fs' := by
  intro q ino d hq
  rw [h] at hq
  split at hq
  · rw [hnd ino d hq]
    exact Nat.zero_le _
  · exact hfs q ino d hq

theorem FilesWithin.modify (hfs : FilesWithin bound fs) {ino : Nat} {f : Bytes → Bytes}
    (hf : ∀ d, d.length ≤ bound ino → (f d).length ≤ bound ino) :
    FilesWithin bound (fs.modify ino f) := by
  intro q i d hq
  unfold FileSystem.modify at hq
  dsimp only at hq
  split at hq
  · rename_i j e hj
    cases hq
    have hle := hfs q i e hj
    split
    · rename_i hi
      subst hi
      exact hf e hle
    · exact hle
  · rename_i hno
    exact absurd hq (hno i d)

/-- The contents after a write. -/
theorem length_patch (off : Nat) (data old : Bytes) :
    (FileSystem.patch off data old).length = max old.length (off + data.length) := by
  simp only [FileSystem.patch, List.length_append, List.length_take, List.length_replicate,
    List.length_drop]
  omega

theorem FilesWithin.renameAt {src par : Path} {n : Name} (hfs : FilesWithin bound fs)
    (h : fs.renameAt src par n = some fs') : FilesWithin bound fs' ∧ fs'.nextIno = fs.nextIno := by
  by_cases hsrc : src = par ++ [n]
  · unfold FileSystem.renameAt at h
    rw [if_pos hsrc] at h
    split at h
    · cases h
      exact ⟨hfs, rfl⟩
    · cases h
  · obtain ⟨-, -, -, -, hino, hnode⟩ := FileSystem.renameAt_eq_some h hsrc
    refine ⟨hfs.of_sub fun q ino d hq => ?_, hino⟩
    rw [hnode] at hq
    split at hq
    · exact ⟨_, hq⟩
    · split at hq
      · cases hq
      · exact ⟨q, hq⟩

/-- A file that is made or emptied. -/
theorem FilesWithin.createAt {p : Path} {n : Name} {ino : Nat} (hfs : FilesWithin bound fs)
    (h : fs.createAt p n = some (ino, fs')) :
    FilesWithin bound fs' ∧ fs'.nextIno ≤ fs.nextIno + 1 := by
  unfold FileSystem.createAt at h
  split at h
  · cases h
    exact ⟨hfs.modify fun _ _ => Nat.zero_le _, Nat.le_succ _⟩
  · cases h
  · split at h
    · cases h
      refine ⟨hfs.of_update (fun _ => rfl) ?_, le_rfl⟩
      rintro _ _ ⟨⟩
      rfl
    · cases h

end Host

/-- How long a file may be: no longer than `max_file_size`, unless it was before. -/
def Config.sizeLimit (c : Config) (fs : FileSystem) (ino : Nat) : Nat :=
  max c.maxFileSize.toNat ((fs.dataOf ino).getD []).length

/-- What all sessions keep of a host `h0`: the lengths of the files, and a clipboard that holds what
    it held, a text within the limit, or files. -/
structure WithinQuota (c : Config) (h0 h : Host) : Prop where
  files : FilesWithin (c.sizeLimit h0.fs) h.fs
  offer : h.desktop.offer = h0.desktop.offer
  cut : h.desktop.cut = h0.desktop.cut
  clipboard : h.desktop.clipboard = h0.desktop.clipboard ∨
    (∃ target data, data.length ≤ c.maxTextLength.toNat ∧
      h.desktop.clipboard = h0.desktop.offer target data) ∨
    ∃ paths, h.desktop.clipboard = h0.desktop.cut paths

section WithinQuota

variable {c : Config} {h0 h : Host}

theorem withinQuota_refl (c : Config) (h : Host) : WithinQuota c h h where
  files p ino d hp := by simp [Config.sizeLimit, h.fs.dataOf_eq hp]
  offer := rfl
  cut := rfl
  clipboard := .inl rfl

/-- A change of the files. -/
theorem WithinQuota.withFs (hk : WithinQuota c h0 h) {fs : FileSystem}
    (hfs : FilesWithin (c.sizeLimit h0.fs) fs) : WithinQuota c h0 (h.withFs fs) :=
  { hk with files := hfs }

/-- **Step lemma.**  An allowed call keeps the host, and makes no more files than it costs. -/
theorem WithinQuota.execute (hk : WithinQuota c h0 h) {call : Call}
    (hcall : c.tariff.allows call) (l : Session) :
    WithinQuota c h0 (ClipShare.execute call (l, h)).2.2 ∧
      (ClipShare.execute call (l, h)).2.2.fs.nextIno ≤ h.fs.nextIno + c.tariff.cost call := by
  cases call with
  -- the session only remembers the name
  | access path =>
    unfold ClipShare.execute
    dsimp only
    split <;> exact ⟨hk, le_rfl⟩
  -- a directory comes or goes, and the files stay what they are
  | mkdir path =>
    simp only [ClipShare.execute]
    cases hof : mkdirOf h path with
    | none => exact ⟨hk, le_rfl⟩
    | some r =>
      simp only [mkdirOf, Option.bind_eq_bind, Option.bind_eq_some_iff] at hof
      obtain ⟨⟨p, n⟩, -, fs, hfs, ⟨⟩⟩ := hof
      obtain ⟨-, -, hino, hnode⟩ := FileSystem.mkdirAt_eq_some hfs
      exact ⟨hk.withFs (hk.files.of_update hnode (by simp)), hino.le⟩
  | rmdir path =>
    simp only [ClipShare.execute]
    cases hof : rmdirOf h path with
    | none => exact ⟨hk, le_rfl⟩
    | some r =>
      simp only [rmdirOf, Option.bind_eq_bind, Option.bind_eq_some_iff] at hof
      obtain ⟨p, -, fs, hfs, ⟨⟩⟩ := hof
      obtain ⟨-, -, -, hino, hnode⟩ := FileSystem.rmdirAt_eq_some hfs
      exact ⟨hk.withFs (hk.files.of_update hnode (by simp)), hino.le⟩
  -- a file goes, or moves with its inode and its data
  | remove path =>
    simp only [ClipShare.execute]
    cases hof : removeOf h path with
    | none => exact ⟨hk, le_rfl⟩
    | some r =>
      simp only [removeOf, Option.bind_eq_bind, Option.bind_eq_some_iff] at hof
      obtain ⟨p, -, fs, hfs, ⟨⟩⟩ := hof
      obtain ⟨-, -, hino, hnode⟩ := FileSystem.removeAt_eq_some hfs
      exact ⟨hk.withFs (hk.files.of_update hnode (by simp)), hino.le⟩
  | rename old new =>
    simp only [ClipShare.execute]
    cases hof : renameOf h old new with
    | none => exact ⟨hk, le_rfl⟩
    | some r =>
      simp only [renameOf, Option.bind_eq_bind, Option.bind_eq_some_iff] at hof
      obtain ⟨src, -, ⟨p, n⟩, -, fs, hfs, ⟨⟩⟩ := hof
      obtain ⟨hwithin, hino⟩ := hk.files.renameAt hfs
      exact ⟨hk.withFs hwithin, hino.le⟩
  -- the one call that may make a file, which is empty
  | openWrite path =>
    simp only [ClipShare.execute]
    cases hof : openWriteOf h path with
    | none => exact ⟨hk, Nat.le_succ _⟩
    | some r =>
      unfold openWriteOf at hof
      split at hof
      · cases hof
      · simp only [Option.bind_eq_bind, Option.bind_eq_some_iff] at hof
        obtain ⟨⟨p, n⟩, -, ⟨ino, fs⟩, hfs, ⟨⟩⟩ := hof
        obtain ⟨hwithin, hino⟩ := hk.files.createAt hfs
        exact ⟨hk.withFs hwithin, hino⟩
  -- what is written ends below the limit, and so does the file if it was not longer before
  | fwrite ino off data =>
    refine ⟨hk.withFs (hk.files.modify fun d hd => ?_), le_rfl⟩
    have hle : off + data.length ≤ c.maxFileSize.toNat := hcall
    have hlimit : c.maxFileSize.toNat ≤ c.sizeLimit h0.fs ino := Nat.le_max_left _ _
    have htake : (data.take (l.written data)).length ≤ data.length := List.length_take_le' _ _
    rw [length_patch]
    omega
  -- the clipboard offers what the session has put in
  | xclipIn target data =>
    exact ⟨⟨hk.files, hk.offer, hk.cut, .inr (.inl ⟨target, data, hcall, by
      rw [← hk.offer]
      rfl⟩)⟩, le_rfl⟩
  | cutFiles paths =>
    exact ⟨⟨hk.files, hk.offer, hk.cut, .inr (.inr ⟨paths, by
      rw [← hk.cut]
      rfl⟩)⟩, le_rfl⟩
  -- all other calls leave the host as it is
  | _ => exact ⟨hk, le_rfl⟩

theorem WithinQuota.respond (hk : WithinQuota c h0 h) {call : Call} (hcall : c.tariff.allows call)
    (l : Session) : WithinQuota c h0 (ClipShare.respond call (l, h)).2.2 ∧
      (ClipShare.respond call (l, h)).2.2.fs.nextIno ≤ h.fs.nextIno + c.tariff.cost call := by
  rcases respond_cases call l with ⟨r, hr⟩ | hr
  · rw [hr]
    exact ⟨hk, Nat.le_add_right _ _⟩
  · rw [hr]
    exact hk.execute hcall l

end WithinQuota

/-- Reading from a socket delivers what was asked for. -/
theorem respond_delivers (c : Call) (s : Session × Host) : c.Delivers (respond c s).1 := by
  cases c with
  | readSock n =>
    obtain ⟨l, h⟩ := s
    rw [respond_readSock]
    intro data hdata
    unfold Session.readSock at hdata
    split_ifs at hdata with h0 h1 h2
    · cases hdata
      exact h0.symm
    · cases hdata
      rw [List.length_take]
      omega
  | _ => trivial

/-! ### Sessions that run together -/

variable {ι : Type} [DecidableEq ι]

/-- **Quota.**  Whatever the clients send and however their sessions interleave, `k` sessions
    make at most `k` times as many files of clients as an upload may have, no file gets longer than
    `max_file_size`, and no text in the clipboard is longer than `max_text_length`. -/
theorem sessions_quota (env : Env) (input : ι → Bytes) (oracle : ι → Oracle) (h : Host)
    (sched : List ι) :
    WithinQuota env.configuration h ((sessions env input oracle h).run respond sched).shared ∧
      ((sessions env input oracle h).run respond sched).shared.fs.nextIno ≤
        h.fs.nextIno + sched.toFinset.card * env.configuration.fileLimit := by
  have hs : (sessions env input oracle h).Budgeted env.configuration.tariff
      fun _ => env.configuration.fileLimit := fun _ => server_spends env
  have hrun := hs.run (m := respond) (I := WithinQuota env.configuration h)
    (μ := fun h' => h'.fs.nextIno)
    respond_delivers (fun call l h' hcall hk => hk.respond hcall l) (withinQuota_refl _ h) sched
  rw [Finset.sum_const_nat fun _ _ => rfl] at hrun
  exact hrun

end ClipShare
