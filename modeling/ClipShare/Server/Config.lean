import ClipShare.Posix.Strings
import Mathlib.Algebra.Order.Group.Int

namespace ClipShare

open Posix

/-!
# The configuration

What `config.c` and `_apply_default_conf` compute: the configuration file is read in pieces of
at most 2046 bytes, every piece that assigns a known key changes one option, and the options
that are still unset get their default at the end.

* `Config` — the record of options, with the machine types of the source;
* `parseLine` — one line, by looking its key up in `settings`;
* `parseConf` — the whole file;
* `applyDefaultConf` — the defaults and the clamping of the protocol versions.

Reading can end the process with a message (`error_exit`) or never end; both are `Stop`.
-/

/-- How reading the configuration can fail to deliver one. -/
inductive Stop
  | exit (msg : Bytes)
  | hang
  deriving DecidableEq, Repr

/-- What opening a file for reading gives. -/
inductive Opened
  | missing
  | irregular
  | regular (content : Bytes)
  deriving DecidableEq, Repr

/-- The files a configuration refers to, the library's address parsers, and what happens to be in
    the stack buffer of `get_client_list` before anything is read into it. -/
structure Surroundings where
  openFile : Bytes → Opened
  inetPton4 : Bytes → Option Bytes
  inetPton6 : Bytes → Option Bytes
  stackBytes : Bytes := []

/-- `in_addr_common`. -/
inductive InAddr
  | inet (addr : Bytes)
  | inet6 (addr : Bytes)
  deriving DecidableEq, Repr

/-- `data_buffer`. -/
structure DataBuffer where
  len : Int32
  data : Option Bytes
  deriving DecidableEq

structure Ports where
  plaintext : UInt16
  tls : UInt16
  udp : UInt16
  web : UInt16
  deriving DecidableEq

structure MethodEnabled where
  getText : Int8
  sendText : Int8
  getFiles : Int8
  sendFiles : Int8
  getImage : Int8
  getCopiedImage : Int8
  getScreenshot : Int8
  getAny : Int8
  info : Int8
  deriving DecidableEq

/-- `config`.  Flags hold -1 while unset; numbers hold 0 while unset. -/
structure Config where
  ports : Ports
  insecureModeEnabled : Int8
  secureModeEnabled : Int8
  udpServerEnabled : Int8
  webModeEnabled : Int8
  serverCert : DataBuffer
  caCert : DataBuffer
  allowedClients : Option (List Bytes)
  workingDir : Option Bytes
  bindAddr : InAddr
  bindAddrUdp : InAddr
  restart : Int8
  maxTextLength : UInt32
  maxFileSize : Int
  maxFileCount : UInt32
  cutSentFiles : Int8
  clientSelectsDisplay : Int8
  display : UInt16
  minProtoVersion : UInt16
  maxProtoVersion : UInt16
  methodEnabled : MethodEnabled
  trayIcon : Int8
  infoName : Option Bytes
  deriving DecidableEq

/-! ### Strings of the configuration file -/

/-- The bytes that `trim` removes: those from 0x01 to 0x20. -/
def isBlank (b : UInt8) : Bool := 0 < b && b ≤ 0x20

/-- `trim`. -/
def trim (str : Bytes) : Bytes := (str.dropWhile isBlank).rdropWhile isBlank

/-- Blank bytes before a string are trimmed away. -/
theorem trim_append_left {u : Bytes} (hu : ∀ b ∈ u, isBlank b = true) (s : Bytes) :
    trim (u ++ s) = trim s := by
  unfold trim
  rw [List.dropWhile_append_of_pos hu]

/-- Blank bytes after a string are trimmed away. -/
theorem trim_append_right (s : Bytes) {v : Bytes} (hv : ∀ b ∈ v, isBlank b = true) :
    trim (s ++ v) = trim s := by
  induction v using List.reverseRecOn with
  | nil => rw [List.append_nil]
  | append_singleton v c ih =>
    have hc : isBlank c = true := hv c (List.mem_append_right _ (List.mem_singleton_self c))
    rw [← ih fun b hb => hv b (List.mem_append_left _ hb), ← List.append_assoc]
    unfold trim
    rw [List.dropWhile_append]
    split
    · -- nothing but blanks
      rename_i hempty
      rw [List.isEmpty_iff.mp hempty, List.dropWhile_cons_of_pos hc, List.dropWhile_nil]
    · exact List.rdropWhile_concat_pos _ _ _ hc

def isSpace (b : UInt8) : Bool := b == 0x20 || (0x09 ≤ b && b ≤ 0x0d)

def isDigit (b : UInt8) : Bool := 0x30 ≤ b && b ≤ 0x39

/-- The value of a string of decimal digits. -/
def digitsValue (ds : Bytes) : Nat := ds.foldl (fun v b => v * 10 + (b.toNat - 0x30)) 0

/-- What `strtol` and `strtoull` recognise in base 10: a sign, a value and the rest; without
    digits the value is 0 and the rest is everything. -/
def scanNumber (str : Bytes) : Bool × Nat × Bytes :=
  let s := str.dropWhile isSpace
  let (neg, s) := match s with
    | 0x2d :: t => (true, t)
    | 0x2b :: t => (false, t)
    | t => (false, t)
  match s.takeWhile isDigit with
  -- without digits nothing is converted, not even the sign
  | [] => (false, 0, str)
  | ds => (neg, digitsValue ds, s.dropWhile isDigit)

/-- `strtoull` with its result read as a signed 64-bit number. -/
def strtoull (str : Bytes) : Int × Bytes :=
  let (neg, v, rest) := scanNumber str
  -- a value that is too large is saturated, and a sign negates in 64 bits
  let w := if 2 ^ 64 ≤ v then 2 ^ 64 - 1 else if neg then (2 ^ 64 - v) % 2 ^ 64 else v
  (Int.bmod w (2 ^ 64), rest)

/-- `strtol` where `long` has 64 bits. -/
def strtol (str : Bytes) : Int × Bytes :=
  let (neg, v, rest) := scanNumber str
  (if neg then max (-(v : Int)) (-2 ^ 63) else min (v : Int) (2 ^ 63 - 1), rest)

def toLower (b : UInt8) : UInt8 := if 0x41 ≤ b && b ≤ 0x5a then b + 0x20 else b

/-- Are the strings equal up to the case of their letters (`strcasecmp`)? -/
def strcaseeq (s t : Bytes) : Bool := s.map toLower == t.map toLower

/-- `error_exit`. -/
def errorExit {α : Type} (msg : Bytes) : Except Stop α := .error (.exit msg)

/-- Text that fits a buffer of `size` bytes with its NUL; none when `snprintf_check` fails. -/
def snprintfCheck (size : Nat) (s : Bytes) : Option Bytes :=
  if s.length < size then some s else none

/-- Text that fits the buffer. -/
theorem snprintfCheck_of_lt {size : Nat} {s : Bytes} (hs : s.length < size) :
    snprintfCheck size s = some s := if_pos hs

/-- A message with an argument, or a fixed one if the buffer is too small. -/
def boundedMessage (size : Nat) (msg short : Bytes) : Bytes := (snprintfCheck size msg).getD short

/-! ### Values -/

/-- `set_is_true`. -/
def setIsTrue (str : Bytes) : Except Stop Int8 :=
  if strcaseeq (ascii "true") str ∨ str = ascii "1" then .ok 1
  else if strcaseeq (ascii "false") str ∨ str = ascii "0" then .ok 0
  else errorExit (ascii "Error: invalid boolean config value")

/-- One unit suffix of `set_int64` and `set_uint32`: the value has to be within a limit before
    it is multiplied (in 64 bits). -/
def scaled (value limit factor : Int) : Except Stop Int :=
  if value > limit then errorExit (ascii "Error: config value too large")
  else .ok (Int.bmod (value * factor) (2 ^ 64))

/-- `set_int64`. -/
def setInt64 (str : Bytes) : Except Stop Int := do
  let (value, rest) := strtoull str
  let value ← match rest.head? with
    | none => pure value
    | some c =>
        if c = 0x6b ∨ c = 0x4b then scaled value 2305843009213693 1000
        else if c = 0x6d ∨ c = 0x4d then scaled value 2305843009213 1000000
        else if c = 0x67 ∨ c = 0x47 then scaled value 2305843009 1000000000
        else if c = 0x74 ∨ c = 0x54 then scaled value 2305843 1000000000000
        else errorExit (ascii "Error: config value has invalid suffix")
  if rest.length > 1 then errorExit (ascii "Error: config value has invalid suffix")
  else if value ≤ 0 then errorExit (ascii "Error: invalid config value")
  else .ok value

/-- `set_uint32`. -/
def setUint32 (str : Bytes) : Except Stop UInt32 := do
  let (value, rest) := strtoull str
  if value < 0 ∨ value > 4294967294 then
    errorExit (ascii "Error: config value not in range 0-4294967294")
  else
    let value ← match rest.head? with
      | none => pure value
      | some c =>
          if c = 0x6b ∨ c = 0x4b then scaled value 4294967 1000
          else if c = 0x6d ∨ c = 0x4d then scaled value 4294 1000000
          else if c = 0x67 ∨ c = 0x47 then scaled value 4 1000000000
          else errorExit (ascii "Error: config value has invalid suffix")
    if rest.length > 1 then errorExit (ascii "Error: config value has invalid suffix")
    else if value ≤ 0 ∨ 4294967295 ≤ value then errorExit (ascii "Error: invalid config value")
    else .ok (UInt32.ofNat value.toNat)

/-- `set_uint16`. -/
def setUint16 (str : Bytes) : Except Stop UInt16 :=
  let (value, rest) := strtol str
  if value < 0 ∨ value > 65535 then errorExit (ascii "Error: config value not in range 0-65535")
  else if rest ≠ [] then errorExit (ascii "Error: invalid config value")
  else .ok (UInt16.ofNat value.toNat)

/-- `validate_name`: 1 to 256 printable ASCII bytes other than `=`. -/
def validateName (name : Bytes) : Bool :=
  name ≠ [] ∧ name.length ≤ 256 ∧ name.all fun c => c ≠ 0x3d ∧ 0x20 ≤ c ∧ c ≤ 0x7e

/-- `parse_ip`; no string stands for the wildcard address of IPv4. -/
def parseIp (sur : Surroundings) : Option Bytes → Option InAddr
  | none => some (.inet [0, 0, 0, 0])
  | some s => match sur.inetPton4 s with
    | some a => some (.inet a)
    | none => (sur.inetPton6 s).map .inet6

/-- `load_file`. -/
def loadFile (sur : Surroundings) (fileName : Bytes) : Except Stop DataBuffer :=
  match sur.openFile fileName with
  | .missing => errorExit (ascii "Error: certificate file not found")
  | .irregular => errorExit (ascii "Error: invalid certificate file size")
  | .regular content =>
      if content.length ≤ 0 ∨ 65536 < content.length then
        errorExit (ascii "Error: invalid certificate file size")
      else .ok ⟨Int32.ofNat content.length, some content⟩

/-- `fscanf(f, "%511[^\n]%*c", client)` with the buffer as it is: none at the end of the file.
    Up to 511 bytes of a line are stored and the byte after them is skipped; in front of a newline
    the conversion fails, stores nothing and consumes nothing. -/
def fscanfClient (client : Bytes) : Bytes → Option (Bytes × Bytes)
  | [] => none
  | s@(c :: _) =>
      if c = 0x0a then some (client, s)
      else
        let line := (s.take 511).takeWhile (· ≠ 0x0a)
        some (line, s.drop (line.length + 1))

/-- The loop of `get_client_list` for at most some number of rounds: nothing if it still runs
    then, otherwise the list, or nothing for an encoding error.  The buffer keeps what the round
    before has left in it. -/
def scanClients : Nat → Bytes → Bytes → List Bytes → Option (Option (List Bytes))
  | 0, _, _, _ => none
  | fuel + 1, client, s, clients => match fscanfClient client s with
      | none => some (some clients)
      | some (client, rest) =>
          if !validUtf8 (cstr client) then some none
          else
            let client := trim (cstr client)
            -- empty lines and comments
            if client.length < 1 ∨ client.head? = some 0x23 then
              scanClients fuel client rest clients
            else scanClients fuel client rest (clients ++ [client])

/-- `get_client_list`.  A loop that runs for longer than the file has bytes never ends
    (`scanClients_hangs`). -/
def getClientList (sur : Surroundings) (fileName : Bytes) : Except Stop (List Bytes) :=
  match sur.openFile fileName with
  | .missing => errorExit (ascii "Error: allowed client list file not found")
  | .irregular => .ok []
  | .regular content =>
      match scanClients (content.length + 1) (sur.stackBytes.take 511) content [] with
      | none => .error .hang
      | some (some clients) => .ok clients
      | some none => errorExit (boundedMessage 2048
          (ascii "Error: file " ++ fileName ++ ascii " has invalid utf8 encoding")
          (ascii "Error: client list file has invalid utf8 encoding"))

/-! ### Lines -/

/-- What a value does to the configuration. -/
abbrev Setting := Bytes → Config → Except Stop Config

/-- An address option. -/
def setAddress (sur : Surroundings) (msg short : Bytes) (set : Config → InAddr → Config) :
    Setting :=
  fun value cfg => match parseIp sur (some value) with
    | some a => .ok (set cfg a)
    | none => errorExit (boundedMessage 64 (msg ++ value) short)

/-- An option whose value is parsed by `parse`. -/
def setWith {β : Type} (parse : Bytes → Except Stop β) (set : Config → β → Config) : Setting :=
  fun value cfg => (parse value).map (set cfg)

/-- The server name. -/
def setInfoName : Setting := fun value cfg =>
  if validateName value then .ok { cfg with infoName := some value }
  else errorExit (boundedMessage 64 (ascii "Error: Invalid server name " ++ value)
    (ascii "Error: Invalid server name: info_name"))

/-- The keys that only exist in a build with the web server. -/
def webSettings : List (String × Setting) :=
  [("web_port", setWith setUint16 fun c v => { c with ports.web := v }),
   ("web_mode_enabled", setWith setIsTrue fun c v => { c with webModeEnabled := v })]

/-- The known keys, in the order in which `parse_line` compares them. -/
def settings (sur : Surroundings) (web : Bool) : List (String × Setting) :=
  [("app_port", setWith setUint16 fun c v => { c with ports.plaintext := v }),
   ("insecure_mode_enabled", setWith setIsTrue fun c v => { c with insecureModeEnabled := v }),
   ("app_port_secure", setWith setUint16 fun c v => { c with ports.tls := v }),
   ("secure_mode_enabled", setWith setIsTrue fun c v => { c with secureModeEnabled := v }),
   ("udp_port", setWith setUint16 fun c v => { c with ports.udp := v }),
   ("udp_server_enabled", setWith setIsTrue fun c v => { c with udpServerEnabled := v })] ++
  (if web then webSettings else []) ++
  [("server_cert", setWith (loadFile sur) fun c v => { c with serverCert := v }),
   ("ca_cert", setWith (loadFile sur) fun c v => { c with caCert := v }),
   ("allowed_clients", setWith (getClientList sur) fun c v => { c with allowedClients := some v }),
   ("working_dir", fun v c => .ok { c with workingDir := some v }),
   ("bind_address", setAddress sur (ascii "Error: Invalid bind address ")
      (ascii "Error: Invalid bind address: bind_address") fun c a => { c with bindAddr := a }),
   ("bind_address_udp", setAddress sur (ascii "Error: Invalid UDP bind address ")
      (ascii "Error: Invalid UDP bind address: bind_address_udp")
      fun c a => { c with bindAddrUdp := a }),
   ("restart", setWith setIsTrue fun c v => { c with restart := v }),
   ("max_text_length", setWith setUint32 fun c v => { c with maxTextLength := v }),
   ("max_file_size", setWith setInt64 fun c v => { c with maxFileSize := v }),
   ("max_file_count", setWith setUint32 fun c v => { c with maxFileCount := v }),
   ("cut_sent_files", setWith setIsTrue fun c v => { c with cutSentFiles := v }),
   ("client_selects_display", setWith setIsTrue fun c v => { c with clientSelectsDisplay := v }),
   ("display", setWith setUint16 fun c v => { c with display := v }),
   ("min_proto_version", setWith setUint16 fun c v => { c with minProtoVersion := v }),
   ("max_proto_version", setWith setUint16 fun c v => { c with maxProtoVersion := v }),
   ("method_get_text_enabled",
      setWith setIsTrue fun c v => { c with methodEnabled.getText := v }),
   ("method_send_text_enabled",
      setWith setIsTrue fun c v => { c with methodEnabled.sendText := v }),
   ("method_get_files_enabled",
      setWith setIsTrue fun c v => { c with methodEnabled.getFiles := v }),
   ("method_send_files_enabled",
      setWith setIsTrue fun c v => { c with methodEnabled.sendFiles := v }),
   ("method_get_image_enabled",
      setWith setIsTrue fun c v => { c with methodEnabled.getImage := v }),
   ("method_get_copied_image_enabled",
      setWith setIsTrue fun c v => { c with methodEnabled.getCopiedImage := v }),
   ("method_get_screenshot_enabled",
      setWith setIsTrue fun c v => { c with methodEnabled.getScreenshot := v }),
   ("method_get_any_enabled",
      setWith setIsTrue fun c v => { c with methodEnabled.getAny := v }),
   ("method_info_enabled",
      setWith setIsTrue fun c v => { c with methodEnabled.info := v }),
   ("tray_icon", setWith setIsTrue fun c v => { c with trayIcon := v }),
   ("info_name", setInfoName)]

/-- The setting of a key, if it is known. -/
def settingOf (sur : Surroundings) (web : Bool) (key : Bytes) : Option Setting :=
  ((settings sur web).find? (fun e => ascii e.1 == key)).map (·.2)

def lineMaxLen : Nat := 2047

/-- `parse_line`. -/
def parseLine (sur : Surroundings) (web : Bool) (line : Bytes) (cfg : Config) :
    Except Stop Config :=
  -- lines without `=` are ignored
  if 0x3d ∉ line then .ok cfg
  else
    let key := trim (line.takeWhile (· ≠ 0x3d))
    let value := trim ((line.dropWhile (· ≠ 0x3d)).drop 1)
    if key.head? = some 0x23 then .ok cfg
    else if key.length ≤ 0 ∨ key.length ≥ lineMaxLen then
      errorExit (ascii "Error: invalid config key")
    else if value.length ≤ 0 ∨ value.length ≥ lineMaxLen then
      errorExit (ascii "Error: invalid config value")
    else match settingOf sur web key with
      | some set => set value cfg
      -- unknown keys are ignored
      | none => .ok cfg

/-! ### The file -/

/-- `fgets` into a buffer with room for `n` bytes and the NUL: up to the end of the line. -/
def fgets : Nat → Bytes → Bytes × Bytes
  | 0, s => ([], s)
  | _ + 1, [] => ([], [])
  | n + 1, c :: s =>
      if c = 0x0a then ([c], s) else (c :: (fgets n s).1, (fgets n s).2)

/-- The loop of `parse_conf` over the pieces that `fgets` delivers. -/
def parsePieces (sur : Surroundings) (web : Bool) (fileName : Bytes) :
    Nat → Bytes → Config → Except Stop Config
  | 0, _, cfg => .ok cfg
  | _ + 1, [], cfg => .ok cfg
  | fuel + 1, s@(_ :: _), cfg =>
      -- `fgets` may have cut a line
      let line := cstr (fgets (lineMaxLen - 1) s).1
      if !validUtf8 line then
        errorExit (boundedMessage 2048
          (ascii "Error: Config file " ++ fileName ++ ascii " has invalid utf8 encoding")
          ((ascii "Error: Config file " ++ fileName ++
            ascii " has invalid utf8 encoding").take 2047))
      else do
        let cfg ← parseLine sur web line cfg
        parsePieces sur web fileName fuel (fgets (lineMaxLen - 1) s).2 cfg

/-- The configuration in which no option is set. -/
def Config.unset : Config where
  ports := ⟨0, 0, 0, 0⟩
  insecureModeEnabled := -1
  secureModeEnabled := -1
  udpServerEnabled := -1
  webModeEnabled := -1
  serverCert := ⟨-1, none⟩
  caCert := ⟨-1, none⟩
  allowedClients := none
  workingDir := none
  bindAddr := .inet [0, 0, 0, 0]
  bindAddrUdp := .inet [0, 0, 0, 0]
  restart := -1
  maxTextLength := 0
  maxFileSize := 0
  maxFileCount := 0
  cutSentFiles := -1
  clientSelectsDisplay := -1
  display := 0
  minProtoVersion := 0
  maxProtoVersion := 0
  methodEnabled := ⟨-1, -1, -1, -1, -1, -1, -1, -1, -1⟩
  trayIcon := -1
  infoName := none

/-- `parse_conf`. -/
def parseConf (sur : Surroundings) (web : Bool) (fileName : Option Bytes) : Except Stop Config :=
  match fileName with
  | none => .ok Config.unset
  | some name => match sur.openFile name with
    | .missing => .ok Config.unset
    | .irregular => .ok Config.unset
    | .regular content => parsePieces sur web name content.length content Config.unset

/-! ### Defaults -/

def protocolMin : UInt16 := 1
def protocolMax : UInt16 := 4

/-- A flag that is still unset gets its default. -/
def flagDefault (dflt flag : Int8) : Int8 := if flag < 0 then dflt else flag

/-- A port, a version or a count that is still unset gets its default. -/
def portDefault (dflt port : UInt16) : UInt16 := if port ≤ 0 then dflt else port

/-- The lowest protocol version, between `PROTOCOL_MIN` and `PROTOCOL_MAX`. -/
def clampMin (v : UInt16) : UInt16 :=
  let v := if v < protocolMin then protocolMin else v
  if v > protocolMax then protocolMax else v

/-- The highest protocol version, given the lowest one. -/
def clampMax (lowest v : UInt16) : UInt16 := if v < lowest ∨ v > protocolMax then protocolMax else v

/-- `_apply_default_conf`. -/
def applyDefaultConf (web : Bool) (c : Config) : Config where
  restart := flagDefault 1 c.restart
  ports :=
    { plaintext := portDefault 4337 c.ports.plaintext
      tls := portDefault 4338 c.ports.tls
      udp := portDefault 4337 c.ports.udp
      web := if web then portDefault 4339 c.ports.web else c.ports.web }
  secureModeEnabled := flagDefault 0 c.secureModeEnabled
  udpServerEnabled := flagDefault 1 c.udpServerEnabled
  -- enabled by default if and only if the secure mode is disabled
  insecureModeEnabled :=
    flagDefault (if flagDefault 0 c.secureModeEnabled = 0 then 1 else 0) c.insecureModeEnabled
  maxTextLength := if c.maxTextLength ≤ 0 then 4194304 else c.maxTextLength
  maxFileSize := if c.maxFileSize ≤ 0 then 68719476736 else c.maxFileSize
  maxFileCount := if c.maxFileCount ≤ 0 then 0xFFFFFFFE else c.maxFileCount
  cutSentFiles := flagDefault 0 c.cutSentFiles
  clientSelectsDisplay := flagDefault 0 c.clientSelectsDisplay
  display := portDefault 1 c.display
  minProtoVersion := clampMin c.minProtoVersion
  maxProtoVersion := clampMax (clampMin c.minProtoVersion) c.maxProtoVersion
  methodEnabled :=
    { getText := flagDefault 1 c.methodEnabled.getText
      sendText := flagDefault 1 c.methodEnabled.sendText
      getFiles := flagDefault 1 c.methodEnabled.getFiles
      sendFiles := flagDefault 1 c.methodEnabled.sendFiles
      getImage := flagDefault 1 c.methodEnabled.getImage
      getCopiedImage := flagDefault 1 c.methodEnabled.getCopiedImage
      getScreenshot := flagDefault 1 c.methodEnabled.getScreenshot
      getAny := flagDefault 1 c.methodEnabled.getAny
      info := flagDefault 1 c.methodEnabled.info }
  webModeEnabled := if web then flagDefault 0 c.webModeEnabled else c.webModeEnabled
  trayIcon := flagDefault 1 c.trayIcon
  serverCert := c.serverCert
  caCert := c.caCert
  allowedClients := c.allowedClients
  workingDir := c.workingDir
  bindAddr := c.bindAddr
  bindAddrUdp := c.bindAddrUdp
  infoName := c.infoName

end ClipShare
