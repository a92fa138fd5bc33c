import ClipShare.Server.Config

namespace ClipShare

open Posix

/-!
# Properties of the configuration

What holds of every configuration that `parseConf` delivers, and what `applyDefaultConf` makes
of it.

* `Setting.Keeps` — a setting preserves a property of configurations, with one rule for each
  kind of setting;
* `parseConf_keeps` — what every setting keeps holds of every parsed configuration;
* `parseConf_flags` / `applyDefaultConf_flags` — flags are -1 (unset), 0 or 1, and 0 or 1 once the
  defaults are applied;
* `applyDefaultConf_versions` — the protocol versions are in range and in order;
* `parseConf_limits` / `effective_in_range` — the limits, and with them the whole effective
  configuration, are in range.
-/

/-! ### Properties that settings keep -/

/-- The setting preserves `P` whenever it succeeds. -/
def Setting.Keeps (P : Config → Prop) (set : Setting) : Prop :=
  ∀ value c c', set value c = .ok c' → P c → P c'

variable {P : Config → Prop}

/-- A setting whose parsed value does not matter for `P`. -/
theorem keeps_setWith {β : Type} {parse : Bytes → Except Stop β} {set : Config → β → Config}
    (h : ∀ c v, P c → P (set c v)) : Setting.Keeps P (setWith parse set) := by
  intro value c c' hset hc
  unfold setWith at hset
  cases hp : parse value with
  | error e => rw [hp] at hset; cases hset
  | ok v => rw [hp] at hset; cases hset; exact h c v hc

theorem keeps_setAddress {sur : Surroundings} {msg short : Bytes} {set : Config → InAddr → Config}
    (h : ∀ c a, P c → P (set c a)) : Setting.Keeps P (setAddress sur msg short set) := by
  intro value c c' hset hc
  unfold setAddress at hset
  split at hset
  · cases hset; exact h c _ hc
  · cases hset

/-- The working directory, which is taken as it is written. -/
theorem keeps_setWorkingDir (h : ∀ c v, P c → P { c with workingDir := some v }) :
    Setting.Keeps P fun v c => .ok { c with workingDir := some v } := by
  intro value c c' hset hc
  cases hset
  exact h c value hc

theorem keeps_setInfoName (h : ∀ c v, P c → P { c with infoName := some v }) :
    Setting.Keeps P setInfoName := by
  intro value c c' hset hc
  unfold setInfoName at hset
  split at hset
  · cases hset; exact h c _ hc
  · cases hset

/-- A value that a flag gets from the file: 0 or 1. -/
def IsBool (v : Int8) : Prop := v = 0 ∨ v = 1

theorem setIsTrue_isBool {str : Bytes} {v : Int8} (h : setIsTrue str = .ok v) : IsBool v := by
  unfold setIsTrue at h
  split at h
  · cases h; exact .inr rfl
  · split at h
    · cases h; exact .inl rfl
    · cases h

/-- A boolean setting. -/
theorem keeps_setFlag {set : Config → Int8 → Config} (h : ∀ c v, IsBool v → P c → P (set c v)) :
    Setting.Keeps P (setWith setIsTrue set) := by
  intro value c c' hset hc
  unfold setWith at hset
  cases hp : setIsTrue value with
  | error e => rw [hp] at hset; cases hset
  | ok v => rw [hp] at hset; cases hset; exact h c v (setIsTrue_isBool hp) hc

/-! ### Lines and files -/

variable {sur : Surroundings} {web : Bool}

/-- A line whose setting keeps `P` keeps it. -/
theorem parseLine_keeps (h : ∀ e ∈ settings sur web, Setting.Keeps P e.2) {line : Bytes}
    {c c' : Config} (hl : parseLine sur web line c = .ok c') (hc : P c) : P c' := by
  simp only [parseLine] at hl
  split at hl
  · cases hl; exact hc
  · split at hl
    · cases hl; exact hc
    · split at hl
      · cases hl
      · split at hl
        · cases hl
        · split at hl
          · rename_i set hs
            obtain ⟨e, he, rfl⟩ := Option.map_eq_some_iff.mp hs
            exact h e (List.mem_of_find?_eq_some he) _ c c' hl hc
          · cases hl; exact hc

/-- **Run lemma.**  What every setting keeps is kept by the loop over the file. -/
theorem parsePieces_keeps (h : ∀ e ∈ settings sur web, Setting.Keeps P e.2) {fileName : Bytes}
    {fuel : Nat} {s : Bytes} {c c' : Config}
    (hp : parsePieces sur web fileName fuel s c = .ok c') (hc : P c) : P c' := by
  induction fuel generalizing s c with
  | zero => cases hp; exact hc
  | succ fuel ih =>
    cases s with
    | nil => cases hp; exact hc
    | cons x s =>
      simp only [parsePieces] at hp
      split at hp
      · cases hp
      · cases hl : parseLine sur web (cstr (fgets (lineMaxLen - 1) (x :: s)).1) c with
        | error e => rw [hl] at hp; cases hp
        | ok c1 =>
          rw [hl] at hp
          exact ih hp (parseLine_keeps h hl hc)

/-- What holds of the configuration without options and is kept by every setting holds of every
    configuration that is read. -/
theorem parseConf_keeps (h : ∀ e ∈ settings sur web, Setting.Keeps P e.2) (h0 : P Config.unset)
    {fileName : Option Bytes} {c : Config} (hp : parseConf sur web fileName = .ok c) : P c := by
  unfold parseConf at hp
  split at hp
  · cases hp; exact h0
  · split at hp
    · cases hp; exact h0
    · cases hp; exact h0
    · exact parsePieces_keeps h hp h0

/-! ### Flags -/

/-- A flag is unset, 0 or 1. -/
def IsFlag (v : Int8) : Prop := v = -1 ∨ IsBool v

/-- All flags of a configuration satisfy a property. -/
structure Config.Flags (F : Int8 → Prop) (c : Config) : Prop where
  insecure : F c.insecureModeEnabled
  secure : F c.secureModeEnabled
  udp : F c.udpServerEnabled
  web : F c.webModeEnabled
  restart : F c.restart
  cut : F c.cutSentFiles
  display : F c.clientSelectsDisplay
  getText : F c.methodEnabled.getText
  sendText : F c.methodEnabled.sendText
  getFiles : F c.methodEnabled.getFiles
  sendFiles : F c.methodEnabled.sendFiles
  getImage : F c.methodEnabled.getImage
  getCopiedImage : F c.methodEnabled.getCopiedImage
  getScreenshot : F c.methodEnabled.getScreenshot
  getAny : F c.methodEnabled.getAny
  info : F c.methodEnabled.info
  tray : F c.trayIcon

/-- Every setting keeps the flags in range. -/
theorem settings_keep_flags : ∀ e ∈ settings sur web, Setting.Keeps (Config.Flags IsFlag) e.2 := by
  have hweb : ∀ e ∈ webSettings, Setting.Keeps (Config.Flags IsFlag) e.2 := by
    simp only [webSettings, List.forall_mem_cons]
    exact ⟨keeps_setWith fun _ _ hc => { hc with restart := hc.restart },
      keeps_setFlag fun _ _ hv hc => { hc with web := .inr hv }, nofun⟩
  have hif : ∀ e ∈ if web then webSettings else [], Setting.Keeps (Config.Flags IsFlag) e.2 := by
    cases web with
    | true => exact hweb
    | false => nofun
  simp only [settings, List.forall_mem_append, List.forall_mem_cons]
  refine ⟨⟨⟨?_, ?_, ?_, ?_, ?_, ?_, nofun⟩, hif⟩, ?_, ?_, ?_, ?_, ?_, ?_, ?_, ?_, ?_, ?_, ?_, ?_,
    ?_, ?_, ?_, ?_, ?_, ?_, ?_, ?_, ?_, ?_, ?_, ?_, ?_, ?_, nofun⟩
  -- an option that is no flag changes no flag; a flag becomes 0 or 1
  · exact keeps_setWith fun _ _ hc => { hc with restart := hc.restart }
  · exact keeps_setFlag fun _ _ hv hc => { hc with insecure := .inr hv }
  · exact keeps_setWith fun _ _ hc => { hc with restart := hc.restart }
  · exact keeps_setFlag fun _ _ hv hc => { hc with secure := .inr hv }
  · exact keeps_setWith fun _ _ hc => { hc with restart := hc.restart }
  · exact keeps_setFlag fun _ _ hv hc => { hc with udp := .inr hv }
  · exact keeps_setWith fun _ _ hc => { hc with restart := hc.restart }
  · exact keeps_setWith fun _ _ hc => { hc with restart := hc.restart }
  · exact keeps_setWith fun _ _ hc => { hc with restart := hc.restart }
  · exact keeps_setWorkingDir fun _ _ hc => { hc with restart := hc.restart }
  · exact keeps_setAddress fun _ _ hc => { hc with restart := hc.restart }
  · exact keeps_setAddress fun _ _ hc => { hc with restart := hc.restart }
  · exact keeps_setFlag fun _ _ hv hc => { hc with restart := .inr hv }
  · exact keeps_setWith fun _ _ hc => { hc with restart := hc.restart }
  · exact keeps_setWith fun _ _ hc => { hc with restart := hc.restart }
  · exact keeps_setWith fun _ _ hc => { hc with restart := hc.restart }
  · exact keeps_setFlag fun _ _ hv hc => { hc with cut := .inr hv }
  · exact keeps_setFlag fun _ _ hv hc => { hc with display := .inr hv }
  · exact keeps_setWith fun _ _ hc => { hc with restart := hc.restart }
  · exact keeps_setWith fun _ _ hc => { hc with restart := hc.restart }
  · exact keeps_setWith fun _ _ hc => { hc with restart := hc.restart }
  · exact keeps_setFlag fun _ _ hv hc => { hc with getText := .inr hv }
  · exact keeps_setFlag fun _ _ hv hc => { hc with sendText := .inr hv }
  · exact keeps_setFlag fun _ _ hv hc => { hc with getFiles := .inr hv }
  · exact keeps_setFlag fun _ _ hv hc => { hc with sendFiles := .inr hv }
  · exact keeps_setFlag fun _ _ hv hc => { hc with getImage := .inr hv }
  · exact keeps_setFlag fun _ _ hv hc => { hc with getCopiedImage := .inr hv }
  · exact keeps_setFlag fun _ _ hv hc => { hc with getScreenshot := .inr hv }
  · exact keeps_setFlag fun _ _ hv hc => { hc with getAny := .inr hv }
  · exact keeps_setFlag fun _ _ hv hc => { hc with info := .inr hv }
  · exact keeps_setFlag fun _ _ hv hc => { hc with tray := .inr hv }
  · exact keeps_setInfoName fun _ _ hc => { hc with restart := hc.restart }

/-- The flags of a configuration that was read are in range. -/
theorem parseConf_flags {fileName : Option Bytes} {c : Config}
    (hp : parseConf sur web fileName = .ok c) : c.Flags IsFlag := by
  have hunset : IsFlag (-1) := .inl rfl
  refine parseConf_keeps settings_keep_flags ?_ hp
  constructor <;> exact hunset

/-- A default that is 0 or 1 makes a flag 0 or 1. -/
theorem flagDefault_isBool {dflt flag : Int8} (hd : IsBool dflt) (hf : IsFlag flag) :
    IsBool (flagDefault dflt flag) := by
  rcases hf with rfl | rfl | rfl
  · exact hd
  · exact .inl rfl
  · exact .inr rfl

/-- A flag of a configuration with defaults applied is 0 or 1, the one of the web server in a
    build that has one. -/
theorem applyDefaultConf_flags {c : Config} (h : c.Flags IsFlag) :
    (applyDefaultConf true c).Flags IsBool := by
  have on : IsBool 1 := .inr rfl
  have off : IsBool 0 := .inl rfl
  have hin : IsBool (if flagDefault 0 c.secureModeEnabled = 0 then 1 else 0) := by
    split
    · exact on
    · exact off
  exact
    { insecure := flagDefault_isBool hin h.insecure
      secure := flagDefault_isBool off h.secure
      udp := flagDefault_isBool on h.udp
      web := flagDefault_isBool off h.web
      restart := flagDefault_isBool on h.restart
      cut := flagDefault_isBool off h.cut
      display := flagDefault_isBool off h.display
      getText := flagDefault_isBool on h.getText
      sendText := flagDefault_isBool on h.sendText
      getFiles := flagDefault_isBool on h.getFiles
      sendFiles := flagDefault_isBool on h.sendFiles
      getImage := flagDefault_isBool on h.getImage
      getCopiedImage := flagDefault_isBool on h.getCopiedImage
      getScreenshot := flagDefault_isBool on h.getScreenshot
      getAny := flagDefault_isBool on h.getAny
      info := flagDefault_isBool on h.info
      tray := flagDefault_isBool on h.tray }

/-! ### Protocol versions -/

/-- **Range of the versions.**  Whatever the file says, the lowest and the highest version are
    versions of the protocol, and they are in order. -/
theorem applyDefaultConf_versions (web : Bool) (c : Config) :
    protocolMin.toNat ≤ (applyDefaultConf web c).minProtoVersion.toNat ∧
      (applyDefaultConf web c).minProtoVersion.toNat
        ≤ (applyDefaultConf web c).maxProtoVersion.toNat ∧
      (applyDefaultConf web c).maxProtoVersion.toNat ≤ protocolMax.toNat := by
  have hmin : ∀ v, protocolMin.toNat ≤ (clampMin v).toNat ∧
    (clampMin v).toNat ≤ protocolMax.toNat := by
    intro v
    simp only [clampMin, protocolMin, protocolMax, gt_iff_lt, UInt16.lt_iff_toNat_lt]
    split
    · simp
    · split
      · simp
      · simp_all; omega
  have hmax : ∀ lowest v, lowest.toNat ≤ protocolMax.toNat →
      lowest.toNat ≤ (clampMax lowest v).toNat ∧ (clampMax lowest v).toNat ≤ protocolMax.toNat := by
    intro lowest v hlow
    simp only [clampMax, gt_iff_lt, UInt16.lt_iff_toNat_lt]
    split <;> omega
  exact ⟨(hmin _).1, hmax _ _ (hmin _).2⟩

/-! ### Limits -/

/-- A number that a limit on texts or on files can be. -/
def IsCount (v : UInt32) : Prop := 1 ≤ v.toNat ∧ v.toNat ≤ 2 ^ 32 - 2

theorem setUint32_isCount {str : Bytes} {v : UInt32} (h : setUint32 str = .ok v) : IsCount v := by
  -- whatever the suffix makes of the value, it is checked once more
  have hlast : ∀ {x : Except Stop Int} {rest msg msg' : Bytes},
      (x >>= fun value => if rest.length > 1 then errorExit msg
        else if value ≤ 0 ∨ 4294967295 ≤ value then errorExit msg'
        else .ok (UInt32.ofNat value.toNat)) = .ok v → IsCount v := by
    intro x rest msg msg' hx
    obtain ⟨value, -, hvalue⟩ := bind_eq_ok.mp hx
    split at hvalue
    · cases hvalue
    · split at hvalue
      · cases hvalue
      · rename_i hrange
        cases hvalue
        have hmod : value.toNat % 2 ^ 32 = value.toNat := Nat.mod_eq_of_lt (by omega)
        show 1 ≤ (UInt32.ofNat value.toNat).toNat ∧ (UInt32.ofNat value.toNat).toNat ≤ 2 ^ 32 - 2
        rw [UInt32.toNat_ofNat', hmod]
        omega
  unfold setUint32 at h
  dsimp only at h
  split at h
  · cases h
  · split at h
    · exact hlast h
    · split at h
      · exact hlast h
      · split at h
        · exact hlast h
        · split at h
          · exact hlast h
          · cases h

/-- A name that the server can announce: 1 to 256 printable ASCII bytes other than `=`. -/
structure ServerName (name : Bytes) : Prop where
  nonempty : 1 ≤ name.length
  short : name.length ≤ 256
  printable : ∀ c ∈ name, c ≠ 0x3d ∧ 0x20 ≤ c ∧ c ≤ 0x7e

theorem validateName_iff {name : Bytes} : validateName name = true ↔ ServerName name := by
  unfold validateName
  simp only [decide_eq_true_eq, List.all_eq_true]
  constructor
  · rintro ⟨hne, hshort, hall⟩
    exact ⟨List.length_pos_iff.mpr hne, hshort, hall⟩
  · rintro ⟨hpos, hshort, hall⟩
    exact ⟨List.length_pos_iff.mp hpos, hshort, hall⟩

/-- The options that are bounded by what their values were checked for: unset or in range. -/
def Config.Limits (c : Config) : Prop :=
  (c.maxTextLength = 0 ∨ IsCount c.maxTextLength) ∧ (c.maxFileCount = 0 ∨ IsCount c.maxFileCount) ∧
    ∀ name, c.infoName = some name → ServerName name

/-- A setting whose value is checked by `setUint32`. -/
theorem keeps_setCount {set : Config → UInt32 → Config}
    (h : ∀ c v, IsCount v → P c → P (set c v)) : Setting.Keeps P (setWith setUint32 set) := by
  intro value c c' hset hc
  unfold setWith at hset
  cases hp : setUint32 value with
  | error e => rw [hp] at hset; cases hset
  | ok v => rw [hp] at hset; cases hset; exact h c v (setUint32_isCount hp) hc

theorem setInfoName_keeps_limits : Setting.Keeps Config.Limits setInfoName := by
  intro value c c' hset hc
  unfold setInfoName at hset
  split at hset
  · rename_i hvalid
    cases hset
    refine ⟨hc.1, hc.2.1, fun name hname => ?_⟩
    cases hname
    exact validateName_iff.mp hvalid
  · cases hset

/-- Every setting keeps the limits in range. -/
theorem settings_keep_limits : ∀ e ∈ settings sur web, Setting.Keeps Config.Limits e.2 := by
  have hweb : ∀ e ∈ webSettings, Setting.Keeps Config.Limits e.2 := by
    simp only [webSettings, List.forall_mem_cons]
    exact ⟨keeps_setWith fun _ _ hc => hc, keeps_setWith fun _ _ hc => hc, nofun⟩
  have hif : ∀ e ∈ if web then webSettings else [], Setting.Keeps Config.Limits e.2 := by
    cases web with
    | true => exact hweb
    | false => nofun
  have htext : Setting.Keeps Config.Limits
      (setWith setUint32 fun c v => { c with maxTextLength := v }) :=
    keeps_setCount fun _ _ hv hc => ⟨.inr hv, hc.2⟩
  have hcount : Setting.Keeps Config.Limits
      (setWith setUint32 fun c v => { c with maxFileCount := v }) :=
    keeps_setCount fun _ _ hv hc => ⟨hc.1, .inr hv, hc.2.2⟩
  have hname := setInfoName_keeps_limits
  simp only [settings, List.forall_mem_append, List.forall_mem_cons]
  -- no other option touches a limit
  refine ⟨⟨⟨?_, ?_, ?_, ?_, ?_, ?_, nofun⟩, hif⟩, ?_, ?_, ?_, ?_, ?_, ?_, ?_, htext, ?_, hcount, ?_,
    ?_, ?_, ?_, ?_, ?_, ?_, ?_, ?_, ?_, ?_, ?_, ?_, ?_, ?_, hname, nofun⟩ <;>
    first
    | exact keeps_setWith fun _ _ hc => hc
    | exact keeps_setAddress fun _ _ hc => hc
    | exact keeps_setWorkingDir fun _ _ hc => hc

/-- The limits of a configuration that was read are unset or in range. -/
theorem parseConf_limits {fileName : Option Bytes} {c : Config}
    (hp : parseConf sur web fileName = .ok c) : c.Limits :=
  parseConf_keeps settings_keep_limits ⟨.inl rfl, .inl rfl, nofun⟩ hp

/-! ### The effective configuration -/

/-- The boolean options; the one for the web server exists in a build that has one. -/
def Config.flagValues (web : Bool) (c : Config) : List Int8 :=
  [c.insecureModeEnabled, c.secureModeEnabled, c.udpServerEnabled, c.restart, c.cutSentFiles,
    c.clientSelectsDisplay, c.trayIcon, c.methodEnabled.getText, c.methodEnabled.sendText,
    c.methodEnabled.getFiles, c.methodEnabled.sendFiles, c.methodEnabled.getImage,
    c.methodEnabled.getCopiedImage, c.methodEnabled.getScreenshot, c.methodEnabled.getAny,
    c.methodEnabled.info] ++ if web then [c.webModeEnabled] else []

/-- The ports; the one of the web server exists in a build that has one. -/
def Config.portValues (web : Bool) (c : Config) : List UInt16 :=
  [c.ports.plaintext, c.ports.tls, c.ports.udp] ++ if web then [c.ports.web] else []

/-- Every option of a configuration is in range. -/
structure Config.InRange (web : Bool) (c : Config) : Prop where
  flags : ∀ flag ∈ c.flagValues web, IsBool flag
  ports : ∀ port ∈ c.portValues web, 1 ≤ port.toNat ∧ port.toNat ≤ 65535
  versions : protocolMin.toNat ≤ c.minProtoVersion.toNat ∧
    c.minProtoVersion.toNat ≤ c.maxProtoVersion.toNat ∧
    c.maxProtoVersion.toNat ≤ protocolMax.toNat
  maxTextLength : IsCount c.maxTextLength
  maxFileCount : IsCount c.maxFileCount
  maxFileSize : 1 ≤ c.maxFileSize
  display : 1 ≤ c.display.toNat
  infoName : ∀ name, c.infoName = some name → ServerName name

/-- A port that is unset gets its default. -/
theorem portDefault_pos {dflt port : UInt16} (hd : 1 ≤ dflt.toNat) :
    1 ≤ (portDefault dflt port).toNat := by
  unfold portDefault
  split
  · exact hd
  · rename_i hport
    rw [UInt16.le_iff_toNat_le] at hport
    have hzero : (0 : UInt16).toNat = 0 := rfl
    omega

/-- A count that is unset gets its default. -/
theorem countDefault_isCount {dflt count : UInt32} (hd : IsCount dflt)
    (hc : count = 0 ∨ IsCount count) : IsCount (if count ≤ 0 then dflt else count) := by
  split
  · exact hd
  · rename_i hcount
    apply hc.resolve_left
    rintro rfl
    exact hcount (UInt32.le_refl 0)

/-- **The effective configuration.**  A configuration that was read from any file is in range once
    the defaults are applied. -/
theorem effective_in_range {fileName : Option Bytes} {c : Config}
    (hp : parseConf sur web fileName = .ok c) : (applyDefaultConf web c).InRange web := by
  obtain ⟨htext, hcount, hname⟩ := parseConf_limits hp
  have hflags := applyDefaultConf_flags (parseConf_flags hp)
  refine
    { flags := ?_
      ports := ?_
      versions := applyDefaultConf_versions web c
      maxTextLength := countDefault_isCount (by unfold IsCount; decide) htext
      maxFileCount := countDefault_isCount (by unfold IsCount; decide) hcount
      maxFileSize := ?_
      display := portDefault_pos (by decide)
      infoName := hname }
  · -- the flags do not depend on the build, but for the one of the web server
    have hweb : ∀ flag ∈ if web then [(applyDefaultConf web c).webModeEnabled] else [],
        IsBool flag := by
      cases web with
      | true => exact List.forall_mem_singleton.mpr hflags.web
      | false => nofun
    simp only [Config.flagValues, List.forall_mem_append, List.forall_mem_cons]
    exact ⟨⟨hflags.insecure, hflags.secure, hflags.udp, hflags.restart, hflags.cut, hflags.display,
      hflags.tray, hflags.getText, hflags.sendText, hflags.getFiles, hflags.sendFiles,
      hflags.getImage, hflags.getCopiedImage, hflags.getScreenshot, hflags.getAny, hflags.info,
      nofun⟩, hweb⟩
  · -- the port of the web server counts only in a build with it
    intro port hport
    refine ⟨?_, Nat.le_of_lt_succ port.toNat_lt⟩
    unfold Config.portValues at hport
    cases web with
    | true =>
      simp only [applyDefaultConf, if_true, List.cons_append, List.nil_append, List.mem_cons,
        List.not_mem_nil, or_false] at hport
      obtain rfl | rfl | rfl | rfl := hport <;> exact portDefault_pos (by decide)
    | false =>
      simp only [applyDefaultConf, Bool.false_eq_true, if_false, List.append_nil, List.mem_cons,
        List.not_mem_nil, or_false] at hport
      obtain rfl | rfl | rfl := hport <;> exact portDefault_pos (by decide)
  · show 1 ≤ if c.maxFileSize ≤ 0 then 68719476736 else c.maxFileSize
    split <;> omega

/-- Surroundings in which every file has the given content. -/
def Surroundings.ofFile (content : Bytes) : Surroundings where
  openFile _ := .regular content
  inetPton4 _ := none
  inetPton6 _ := none

/-- A file that sets the versions the wrong way round is read, and brought into range. -/
theorem effective_in_range_versions :
    ∃ sur c, parseConf sur true (some (ascii "clipshare.conf")) = .ok c ∧
      c.minProtoVersion = 3 ∧ c.maxProtoVersion = 2 ∧ (applyDefaultConf true c).InRange true := by
  let sur := Surroundings.ofFile (ascii "min_proto_version=3\nmax_proto_version = 2\n")
  let c : Config := { Config.unset with minProtoVersion := 3, maxProtoVersion := 2 }
  have hparse : parseConf sur true (some (ascii "clipshare.conf")) = .ok c := by
    set_option maxRecDepth 20000 in decide
  exact ⟨sur, c, hparse, rfl, rfl, effective_in_range hparse⟩

end ClipShare
