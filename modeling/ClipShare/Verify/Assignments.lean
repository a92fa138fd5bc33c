import ClipShare.Verify.Config

namespace ClipShare

open Posix

/-!
# Assignments of a configuration file

Every known key writes one option of its own, whatever the configuration was before, so that only
the last assignment of each key counts.

* `Config.values` — the options of a configuration as a list, one slot for each known key;
* `Setting.Assigns` — a setting replaces the value of one slot, by something that depends on the
  assigned text alone;
* `settings_assign` — every known key has a slot of its own;
* `assignment` / `lastValue` — what a line assigns, and what a file assigns last to a key;
* `parseLines_slot` / `parsePieces_slot` — what is in a slot after texts were parsed, and after a
  file was read;
* `parseConf_last_wins` — two files with the same last assignments, or with the same lines in
  another order, give the same configuration.
-/

/-! ### Slots -/

/-- The value of an option. -/
inductive Value
  | port (v : UInt16)
  | flag (v : Int8)
  | count (v : UInt32)
  | size (v : Int)
  | buffer (b : DataBuffer)
  | clients (l : Option (List Bytes))
  | text (t : Option Bytes)
  | address (a : InAddr)

/-- The options of a configuration, in the order of the keys. -/
def Config.values (c : Config) : List Value :=
  [.port c.ports.plaintext, .flag c.insecureModeEnabled, .port c.ports.tls,
    .flag c.secureModeEnabled, .port c.ports.udp, .flag c.udpServerEnabled, .port c.ports.web,
    .flag c.webModeEnabled, .buffer c.serverCert, .buffer c.caCert, .clients c.allowedClients,
    .text c.workingDir, .address c.bindAddr, .address c.bindAddrUdp, .flag c.restart,
    .count c.maxTextLength, .size c.maxFileSize, .count c.maxFileCount, .flag c.cutSentFiles,
    .flag c.clientSelectsDisplay, .port c.display, .port c.minProtoVersion,
    .port c.maxProtoVersion, .flag c.methodEnabled.getText, .flag c.methodEnabled.sendText,
    .flag c.methodEnabled.getFiles, .flag c.methodEnabled.sendFiles,
    .flag c.methodEnabled.getImage, .flag c.methodEnabled.getCopiedImage,
    .flag c.methodEnabled.getScreenshot, .flag c.methodEnabled.getAny, .flag c.methodEnabled.info,
    .flag c.trayIcon, .text c.infoName]

/-- The keys, in the same order. -/
def keys : List String :=
  ["app_port", "insecure_mode_enabled", "app_port_secure", "secure_mode_enabled", "udp_port",
    "udp_server_enabled", "web_port", "web_mode_enabled", "server_cert", "ca_cert",
    "allowed_clients", "working_dir", "bind_address", "bind_address_udp", "restart",
    "max_text_length", "max_file_size", "max_file_count", "cut_sent_files",
    "client_selects_display", "display", "min_proto_version", "max_proto_version",
    "method_get_text_enabled", "method_send_text_enabled", "method_get_files_enabled",
    "method_send_files_enabled", "method_get_image_enabled", "method_get_copied_image_enabled",
    "method_get_screenshot_enabled", "method_get_any_enabled", "method_info_enabled", "tray_icon",
    "info_name"]

/-- The slot of a key. -/
def slotOf (key : Bytes) : Nat := (keys.map ascii).idxOf key

/-- A configuration is nothing but the values of its options. -/
theorem Config.ext_values {c d : Config} (h : c.values = d.values) : c = d := by
  obtain ⟨⟨_, _, _, _⟩, _, _, _, _, _, _, _, _, _, _, _, _, _, _, _, _, _, _, _,
    ⟨_, _, _, _, _, _, _, _, _⟩, _, _⟩ := c
  obtain ⟨⟨_, _, _, _⟩, _, _, _, _, _, _, _, _, _, _, _, _, _, _, _, _, _, _, _,
    ⟨_, _, _, _, _, _, _, _, _⟩, _, _⟩ := d
  simp only [Config.values, List.cons.injEq, Value.port.injEq, Value.flag.injEq, Value.count.injEq,
    Value.size.injEq, Value.buffer.injEq, Value.clients.injEq, Value.text.injEq,
    Value.address.injEq] at h
  simp only [h]

/-- The setting replaces the value of the slot `i` by `f text`, and fails where `f` does. -/
def Setting.Assigns (i : Nat) (f : Bytes → Except Stop Value) (set : Setting) : Prop :=
  ∀ text c, (set text c).map Config.values = (f text).map (c.values.set i)

/-- The setting is an assignment to the slot of its key. -/
def Setting.Owns (key : String) (set : Setting) : Prop :=
  ascii key ∈ keys.map ascii ∧ ∃ f, set.Assigns (slotOf (ascii key)) f

theorem nodup_keys : (keys.map ascii).Nodup := by decide +kernel

/-- The slot of a key is its place in the list. -/
theorem slotOf_getElem {key : String} {i : Nat} (h : keys[i]? = some key) :
    slotOf (ascii key) = i := by
  have hmap : (keys.map ascii)[i]? = some (ascii key) := by
    rw [List.getElem?_map, h]
    rfl
  obtain ⟨hi, hget⟩ := List.getElem?_eq_some_iff.mp hmap
  unfold slotOf
  rw [← hget]
  exact nodup_keys.idxOf_getElem i hi

theorem owns_setWith {β : Type} {key : String} {parse : Bytes → Except Stop β}
    {put : Config → β → Config} (i : Nat) (hi : keys[i]? = some key)
    (g : β → Value) (h : ∀ c b, (put c b).values = c.values.set i (g b)) :
    (setWith parse put).Owns key := by
  refine ⟨List.mem_map_of_mem (List.mem_of_getElem? hi), fun text => (parse text).map g,
    fun text c => ?_⟩
  rw [slotOf_getElem hi]
  show ((parse text).map (put c)).map Config.values = ((parse text).map g).map (c.values.set i)
  cases parse text with
  | error e => rfl
  | ok b => exact congrArg Except.ok (h c b)

variable {sur : Surroundings} {web : Bool}

/-- The address that an address option is set to. -/
def parseAddress (sur : Surroundings) (msg short text : Bytes) : Except Stop InAddr :=
  match parseIp sur (some text) with
  | some a => .ok a
  | none => errorExit (boundedMessage 64 (msg ++ text) short)

theorem setAddress_eq (msg short : Bytes) (put : Config → InAddr → Config) :
    setAddress sur msg short put = setWith (parseAddress sur msg short) put := by
  funext text c
  unfold setAddress setWith parseAddress
  cases parseIp sur (some text) <;> rfl

/-- The name that the server is given. -/
def parseName (text : Bytes) : Except Stop Bytes :=
  if validateName text then .ok text
  else errorExit (boundedMessage 64 (ascii "Error: Invalid server name " ++ text)
    (ascii "Error: Invalid server name: info_name"))

theorem setInfoName_eq :
    setInfoName = setWith parseName fun c v => { c with infoName := some v } := by
  funext text c
  unfold setInfoName setWith parseName
  cases validateName text <;> rfl

theorem setWorkingDir_eq : (fun v c => .ok { c with workingDir := some v } : Setting)
    = setWith Except.ok fun c v => { c with workingDir := some v } := rfl

/-- Every known key is an assignment to a slot of its own. -/
theorem settings_assign : ∀ e ∈ settings sur web, Setting.Owns e.1 e.2 := by
  have hweb : ∀ e ∈ webSettings, Setting.Owns e.1 e.2 := by
    simp only [webSettings, List.forall_mem_cons]
    exact ⟨owns_setWith 6 rfl .port fun _ _ => rfl,
      owns_setWith 7 rfl .flag fun _ _ => rfl, List.forall_mem_nil _⟩
  have hif : ∀ e ∈ if web then webSettings else [], Setting.Owns e.1 e.2 := by
    cases web with
    | true => exact hweb
    | false => exact List.forall_mem_nil _
  -- one goal for each key, in the order of the table
  simp only [settings, setAddress_eq, setInfoName_eq, setWorkingDir_eq, List.forall_mem_append,
    List.forall_mem_cons]
  refine ⟨⟨⟨?_, ?_, ?_, ?_, ?_, ?_, List.forall_mem_nil _⟩, hif⟩, ?_, ?_, ?_, ?_, ?_, ?_, ?_, ?_,
    ?_, ?_, ?_, ?_, ?_, ?_, ?_, ?_, ?_, ?_, ?_, ?_, ?_, ?_, ?_, ?_, ?_, ?_, List.forall_mem_nil _⟩
  · exact owns_setWith 0 rfl .port fun _ _ => rfl
  · exact owns_setWith 1 rfl .flag fun _ _ => rfl
  · exact owns_setWith 2 rfl .port fun _ _ => rfl
  · exact owns_setWith 3 rfl .flag fun _ _ => rfl
  · exact owns_setWith 4 rfl .port fun _ _ => rfl
  · exact owns_setWith 5 rfl .flag fun _ _ => rfl
  · exact owns_setWith 8 rfl .buffer fun _ _ => rfl
  · exact owns_setWith 9 rfl .buffer fun _ _ => rfl
  · exact owns_setWith 10 rfl (fun l => .clients (some l)) fun _ _ => rfl
  · exact owns_setWith 11 rfl (fun t => .text (some t)) fun _ _ => rfl
  · exact owns_setWith 12 rfl .address fun _ _ => rfl
  · exact owns_setWith 13 rfl .address fun _ _ => rfl
  · exact owns_setWith 14 rfl .flag fun _ _ => rfl
  · exact owns_setWith 15 rfl .count fun _ _ => rfl
  · exact owns_setWith 16 rfl .size fun _ _ => rfl
  · exact owns_setWith 17 rfl .count fun _ _ => rfl
  · exact owns_setWith 18 rfl .flag fun _ _ => rfl
  · exact owns_setWith 19 rfl .flag fun _ _ => rfl
  · exact owns_setWith 20 rfl .port fun _ _ => rfl
  · exact owns_setWith 21 rfl .port fun _ _ => rfl
  · exact owns_setWith 22 rfl .port fun _ _ => rfl
  · exact owns_setWith 23 rfl .flag fun _ _ => rfl
  · exact owns_setWith 24 rfl .flag fun _ _ => rfl
  · exact owns_setWith 25 rfl .flag fun _ _ => rfl
  · exact owns_setWith 26 rfl .flag fun _ _ => rfl
  · exact owns_setWith 27 rfl .flag fun _ _ => rfl
  · exact owns_setWith 28 rfl .flag fun _ _ => rfl
  · exact owns_setWith 29 rfl .flag fun _ _ => rfl
  · exact owns_setWith 30 rfl .flag fun _ _ => rfl
  · exact owns_setWith 31 rfl .flag fun _ _ => rfl
  · exact owns_setWith 32 rfl .flag fun _ _ => rfl
  · exact owns_setWith 33 rfl (fun t => .text (some t)) fun _ _ => rfl

/-- Keys that are known have different slots if they differ. -/
theorem slotOf_inj {k k' : Bytes} (hk : k ∈ keys.map ascii) (h : slotOf k = slotOf k') : k = k' :=
  (List.idxOf_inj hk).mp h

/-- There is a slot for every key. -/
theorem slotOf_lt {key : Bytes} (h : key ∈ keys.map ascii) (c : Config) :
    slotOf key < c.values.length := by
  have hlen : c.values.length = keys.length := rfl
  rw [hlen, ← List.length_map]
  exact List.idxOf_lt_length_iff.mpr h

/-- What is known of the setting of a key. -/
theorem settingOf_owns {key : Bytes} {set : Setting} (h : settingOf sur web key = some set) :
    key ∈ keys.map ascii ∧ ∃ f, set.Assigns (slotOf key) f := by
  obtain ⟨e, he, rfl⟩ := Option.map_eq_some_iff.mp h
  have hfound := List.find?_some he
  have hkey : ascii e.1 = key := eq_of_beq hfound
  have howns := settings_assign e (List.mem_of_find?_eq_some he)
  unfold Setting.Owns at howns
  rw [hkey] at howns
  exact howns

/-! ### What lines assign -/

/-- What a line assigns: its key and its value, both trimmed; nothing if it has no `=` or is a
    comment. -/
def assignment (line : Bytes) : Option (Bytes × Bytes) :=
  let line := cstr line
  let key := trim (line.takeWhile (· ≠ 0x3d))
  if 0x3d ∉ line then none
  else if key.head? = some 0x23 then none
  else some (key, trim ((line.dropWhile (· ≠ 0x3d)).drop 1))

/-- The value that is assigned last to a key. -/
def lastOf (key : Bytes) : List (Bytes × Bytes) → Option Bytes
  | [] => none
  | (k, value) :: rest => (lastOf key rest).or (if k = key then some value else none)

/-- The assignments of a file, in order. -/
def assignments (content : Bytes) : List (Bytes × Bytes) :=
  (fileLines content).filterMap assignment

/-- The value that a file assigns last to a key. -/
def lastValue (content key : Bytes) : Option Bytes := lastOf key (assignments content)

theorem filterMap_assignment_cons (line : Bytes) (lines : List Bytes) :
    (line :: lines).filterMap assignment =
      (assignment line).toList ++ lines.filterMap assignment := by
  cases ha : assignment line <;> simp [ha]

/-- What follows a NUL does not matter for what a line assigns. -/
theorem assignment_cstr (line : Bytes) : assignment (cstr line) = assignment line := by
  unfold assignment
  rw [cstr_of_not_mem (zero_not_mem_cstr line)]

/-- A newline at the end of a string is trimmed away. -/
theorem trim_newline (s : Bytes) : trim (s ++ [0x0a]) = trim s := by
  apply trim_append_right
  intro b hb
  rw [List.mem_singleton.mp hb]
  decide

/-- The newline of a line does not matter for what it assigns. -/
theorem assignment_newline (line : Bytes) : assignment (line ++ [0x0a]) = assignment line := by
  by_cases hnul : (0 : UInt8) ∈ line
  · -- the string ends before the newline
    unfold assignment
    rw [cstr_append_of_mem hnul]
  · have hcstr : cstr line = line := cstr_of_not_mem hnul
    have hcstr' : cstr (line ++ [0x0a]) = line ++ [0x0a] := by
      apply cstr_of_not_mem
      rw [List.mem_append]
      exact not_or.mpr ⟨hnul, by decide⟩
    unfold assignment
    rw [hcstr, hcstr']
    by_cases heq : (0x3d : UInt8) ∈ line
    · obtain ⟨a, b, rfl, ha⟩ := List.eq_append_cons_of_mem heq
      have hassoc : (a ++ 0x3d :: b) ++ [0x0a] = a ++ 0x3d :: (b ++ [0x0a]) := by simp
      have hmem : ∀ t : Bytes, (0x3d : UInt8) ∈ a ++ 0x3d :: t := by simp
      simp only [hassoc, (cut_at ha _).1, (cut_at ha _).2, hmem, not_true_eq_false, if_false,
        List.drop_one, List.tail_cons, trim_newline]
    · have heq' : (0x3d : UInt8) ∉ line ++ [0x0a] := by
        rw [List.mem_append]
        exact not_or.mpr ⟨heq, by decide⟩
      simp only [heq, heq', not_false_eq_true, if_true]

/-! ### Runs -/

/-- A line that is accepted does what it assigns, and nothing else. -/
theorem parseLine_assigned {line : Bytes} {c d : Config}
    (h : parseLine sur web (cstr line) c = .ok d) :
    (∃ key value set, assignment line = some (key, value) ∧ settingOf sur web key = some set ∧
      set value c = .ok d) ∨
    (d = c ∧ ∀ key value, assignment line = some (key, value) → settingOf sur web key = none) := by
  unfold parseLine at h
  unfold assignment
  by_cases heq : (0x3d : UInt8) ∈ cstr line
  · simp only [heq, not_true_eq_false, if_false] at h ⊢
    split at h
    · rename_i hcomment
      cases h
      refine .inr ⟨rfl, fun key value ha => ?_⟩
      rw [if_pos hcomment] at ha
      cases ha
    · rename_i hcomment
      rw [if_neg hcomment]
      split at h
      · cases h
      · split at h
        · cases h
        · split at h
          · rename_i set hset
            exact .inl ⟨_, _, set, rfl, hset, h⟩
          · rename_i hnone
            cases h
            refine .inr ⟨rfl, fun key value ha => ?_⟩
            cases ha
            exact hnone
  · simp only [heq, not_false_eq_true, if_true] at h ⊢
    cases h
    exact .inr ⟨rfl, nofun⟩

/-- An assignment that succeeds puts a value into its slot. -/
theorem Setting.Assigns.values {i : Nat} {f : Bytes → Except Stop Value} {set : Setting}
    (hf : set.Assigns i f) {text : Bytes} {c d : Config} (h : set text c = .ok d) :
    ∃ x, f text = .ok x ∧ d.values = c.values.set i x := by
  have hmap := hf text c
  rw [h] at hmap
  cases hx : f text with
  | error e => rw [hx] at hmap; cases hmap
  | ok x =>
    rw [hx] at hmap
    exact ⟨x, rfl, Except.ok.inj hmap⟩

/-- What is in a slot after assignments whose last one, if any, was `last`. -/
def Settled (f : Bytes → Except Stop Value) (old : Option Value) :
    Option Bytes → Option Value → Prop
  | none, new => new = old
  | some text, new => ∃ x, f text = .ok x ∧ new = some x

/-- **Step lemma.**  A line settles the slot of a key by what it assigns to that key. -/
theorem parseLine_slot {key : Bytes} {set : Setting} {f : Bytes → Except Stop Value}
    (hset : settingOf sur web key = some set) (hf : set.Assigns (slotOf key) f) {line : Bytes}
    {c d : Config} (h : parseLine sur web (cstr line) c = .ok d) :
    Settled f c.values[slotOf key]? (lastOf key (assignment line).toList)
      d.values[slotOf key]? := by
  have hknown : slotOf key < c.values.length := slotOf_lt (settingOf_owns hset).1 c
  -- the line assigns a known key, or it changes nothing
  rcases parseLine_assigned h with ⟨key', value, set', ha, hset', hd⟩ | ⟨rfl, hnone⟩
  · rw [ha]
    by_cases hkey : key' = key
    · subst hkey
      rw [hset] at hset'
      cases hset'
      obtain ⟨x, hx, hvalues⟩ := hf.values hd
      have hlast : lastOf key' (some (key', value)).toList = some value := if_pos rfl
      rw [hlast]
      refine ⟨x, hx, ?_⟩
      rw [hvalues, List.getElem?_set_self hknown]
    · -- another key writes another slot
      obtain ⟨hmem, f', hf'⟩ := settingOf_owns hset'
      obtain ⟨x, -, hvalues⟩ := hf'.values hd
      have hslot : slotOf key' ≠ slotOf key := fun e => hkey (slotOf_inj hmem e)
      have hlast : lastOf key (some (key', value)).toList = none := if_neg hkey
      rw [hlast, hvalues]
      exact List.getElem?_set_ne hslot
  · have hlast : lastOf key (assignment line).toList = none := by
      cases ha : assignment line with
      | none => rfl
      | some a =>
        obtain ⟨key', value⟩ := a
        refine if_neg fun hkey => ?_
        have := hnone key' value ha
        rw [hkey, hset] at this
        cases this
    rw [hlast]
    exact rfl

/-- A line changes no slot that does not belong to a known key. -/
theorem parseLine_other {i : Nat}
    (hi : ∀ key set, settingOf sur web key = some set → slotOf key ≠ i) {line : Bytes}
    {c d : Config} (h : parseLine sur web (cstr line) c = .ok d) :
    d.values[i]? = c.values[i]? := by
  rcases parseLine_assigned h with ⟨key, value, set, -, hset, hd⟩ | ⟨rfl, -⟩
  · obtain ⟨-, f, hf⟩ := settingOf_owns hset
    obtain ⟨x, -, hvalues⟩ := hf.values hd
    rw [hvalues]
    exact List.getElem?_set_ne (hi key set hset)
  · rfl

/-- `fgets` takes a line with its newline, if the buffer has room for it. -/
theorem fgets_line {line : Bytes} (hline : (0x0a : UInt8) ∉ line) {n : Nat} (hn : line.length < n)
    (rest : Bytes) : fgets n (line ++ 0x0a :: rest) = (line ++ [0x0a], rest) := by
  induction line generalizing n with
  | nil =>
    obtain ⟨n, rfl⟩ : ∃ m, n = m + 1 := ⟨n - 1, by simp at hn; omega⟩
    exact if_pos rfl
  | cons c line ih =>
    obtain ⟨n, rfl⟩ : ∃ m, n = m + 1 := ⟨n - 1, by simp at hn; omega⟩
    have hc : c ≠ 0x0a := fun e => hline (e ▸ List.mem_cons_self ..)
    have hlen : line.length < n := by simpa using hn
    rw [List.cons_append, fgets, if_neg hc, ih (fun h => hline (List.mem_cons_of_mem c h)) hlen,
      List.cons_append]

/-- The last line may end with the file. -/
theorem fgets_last {line : Bytes} (hline : (0x0a : UInt8) ∉ line) {n : Nat}
    (hn : line.length < n) : fgets n line = (line, []) := by
  induction line generalizing n with
  | nil =>
    obtain ⟨n, rfl⟩ : ∃ m, n = m + 1 := ⟨n - 1, by simp at hn; omega⟩
    rfl
  | cons c line ih =>
    obtain ⟨n, rfl⟩ : ∃ m, n = m + 1 := ⟨n - 1, by simp at hn; omega⟩
    have hc : c ≠ 0x0a := fun e => hline (e ▸ List.mem_cons_self ..)
    have hlen : line.length < n := by simpa using hn
    rw [fgets, if_neg hc, ih (fun h => hline (List.mem_cons_of_mem c h)) hlen]

/-- The lines of a file fit the buffer of `parse_conf`. -/
def ShortLines (content : Bytes) : Prop := ∀ line ∈ fileLines content, line.length < lineMaxLen - 1

/-- One piece of a file with short lines: a line, with what follows it. -/
theorem fgets_assignments {content : Bytes} (hshort : ShortLines content) (hne : content ≠ []) :
    ∃ piece rest, fgets (lineMaxLen - 1) content = (piece, rest) ∧
      assignments content = (assignment piece).toList ++ assignments rest ∧ ShortLines rest ∧
      rest.length < content.length := by
  obtain ⟨line, hline, rfl | ⟨rest, rfl⟩⟩ := exists_line content
  · have hlen : content.length < lineMaxLen - 1 := by
      apply hshort
      rw [fileLines_of_not_mem hline]
      exact List.mem_singleton_self _
    refine ⟨content, [], fgets_last hline hlen, ?_, ?_, List.length_pos_iff.mpr hne⟩
    · have hnil : assignments [] = [] := by decide
      rw [hnil, List.append_nil]
      unfold assignments
      rw [fileLines_of_not_mem hline]
      cases ha : assignment content <;> simp [ha]
    · intro l hl
      have : l = [] := List.mem_singleton.mp hl
      rw [this]
      decide
  · unfold ShortLines at hshort
    rw [fileLines_append hline, List.forall_mem_cons] at hshort
    refine ⟨line ++ [0x0a], rest, fgets_line hline hshort.1 rest, ?_, hshort.2, ?_⟩
    · rw [assignment_newline]
      unfold assignments
      rw [fileLines_append hline]
      cases ha : assignment line <;> simp [ha]
    · rw [List.length_append, List.length_cons]
      omega

theorem lastOf_append (key : Bytes) (a b : List (Bytes × Bytes)) :
    lastOf key (a ++ b) = (lastOf key b).or (lastOf key a) := by
  induction a with
  | nil => simp [lastOf]
  | cons e a ih =>
    obtain ⟨k, value⟩ := e
    show (lastOf key (a ++ b)).or _ = (lastOf key b).or ((lastOf key a).or _)
    rw [ih, Option.or_assoc]

/-- Settling a slot twice. -/
theorem Settled.trans {f : Bytes → Except Stop Value} {old mid new : Option Value}
    {first second : Option Bytes} (h1 : Settled f old first mid) (h2 : Settled f mid second new) :
    Settled f old (second.or first) new := by
  cases second with
  | none =>
    have hnew : new = mid := h2
    rw [hnew]
    exact h1
  | some text => exact h2

/-- Parsing the given texts in turn. -/
def parseLines (sur : Surroundings) (web : Bool) (texts : List Bytes) (cfg : Config) :
    Except Stop Config :=
  texts.foldlM (fun cfg line => parseLine sur web line cfg) cfg

/-- **Run lemma.**  After some texts were parsed, the slot of a known key is settled by the last
    assignment to that key, and slots that belong to no known key are unchanged. -/
theorem parseLines_slot {texts : List Bytes} (hnul : ∀ text ∈ texts, (0 : UInt8) ∉ text)
    {c d : Config} (h : parseLines sur web texts c = .ok d) :
    (∀ key set f, settingOf sur web key = some set → set.Assigns (slotOf key) f →
      Settled f c.values[slotOf key]? (lastOf key (texts.filterMap assignment))
        d.values[slotOf key]?) ∧
    ∀ i, (∀ key set, settingOf sur web key = some set → slotOf key ≠ i) →
      d.values[i]? = c.values[i]? := by
  unfold parseLines at h
  induction texts generalizing c with
  | nil =>
    cases h
    exact ⟨fun key set f _ _ => rfl, fun i _ => rfl⟩
  | cons text texts ih =>
    rw [List.forall_mem_cons] at hnul
    rw [List.foldlM_cons] at h
    obtain ⟨c', hline, hrest⟩ := bind_eq_ok.mp h
    rw [← cstr_of_not_mem hnul.1] at hline
    obtain ⟨hslots, hothers⟩ := ih hnul.2 hrest
    refine ⟨fun key set f hset hf => ?_, fun i hi => ?_⟩
    · rw [filterMap_assignment_cons, lastOf_append]
      exact (parseLine_slot hset hf hline).trans (hslots key set f hset hf)
    · rw [hothers i hi]
      exact parseLine_other hi hline

/-- **Run lemma.**  A file with short lines is read by parsing texts that assign what its lines
    do. -/
theorem parsePieces_parseLines {fileName content : Bytes} (hshort : ShortLines content) {fuel : Nat}
    (hfuel : content.length ≤ fuel) {c d : Config}
    (h : parsePieces sur web fileName fuel content c = .ok d) :
    ∃ texts, (∀ text ∈ texts, (0 : UInt8) ∉ text) ∧
      texts.filterMap assignment = assignments content ∧ parseLines sur web texts c = .ok d := by
  have hempty : ∃ texts : List Bytes, (∀ text ∈ texts, (0 : UInt8) ∉ text) ∧
      texts.filterMap assignment = assignments [] ∧ parseLines sur web texts d = .ok d :=
    ⟨[], fun _ htext => absurd htext List.not_mem_nil, rfl, rfl⟩
  induction fuel generalizing content c with
  | zero =>
    have hnil : content = [] := List.length_eq_zero_iff.mp (by omega)
    cases h
    rw [hnil]
    exact hempty
  | succ fuel ih =>
    by_cases hne : content = []
    · rw [hne] at h ⊢
      cases h
      exact hempty
    · obtain ⟨piece, rest, hpiece, hassign, hrest, hlen⟩ := fgets_assignments hshort hne
      obtain ⟨x, s, rfl⟩ := List.exists_cons_of_ne_nil hne
      simp only [parsePieces, hpiece] at h
      split at h
      · cases h
      · obtain ⟨c', hline, h⟩ := bind_eq_ok.mp h
        obtain ⟨texts, hnul, htexts, hparse⟩ := ih hrest (by omega) h
        refine ⟨cstr piece :: texts, ?_, ?_, bind_eq_ok.mpr ⟨c', hline, hparse⟩⟩
        · rw [List.forall_mem_cons]
          exact ⟨zero_not_mem_cstr piece, hnul⟩
        · rw [hassign, ← htexts, filterMap_assignment_cons, assignment_cstr]

/-- After a file was read, the slot of a known key is settled by the last assignment to that key,
    and slots that belong to no known key are unchanged. -/
theorem parsePieces_slot {fileName content : Bytes} (hshort : ShortLines content) {fuel : Nat}
    (hfuel : content.length ≤ fuel) {c d : Config}
    (h : parsePieces sur web fileName fuel content c = .ok d) :
    (∀ key set f, settingOf sur web key = some set → set.Assigns (slotOf key) f →
      Settled f c.values[slotOf key]? (lastValue content key) d.values[slotOf key]?) ∧
    ∀ i, (∀ key set, settingOf sur web key = some set → slotOf key ≠ i) →
      d.values[i]? = c.values[i]? := by
  obtain ⟨texts, hnul, htexts, hparse⟩ := parsePieces_parseLines hshort hfuel h
  unfold lastValue
  rw [← htexts]
  exact parseLines_slot hnul hparse

/-! ### Two files -/

/-- Where no key is assigned twice, what a key is assigned last is what it is assigned. -/
theorem lastOf_eq_some_iff {key value : Bytes} {l : List (Bytes × Bytes)}
    (hl : (l.map Prod.fst).Nodup) : lastOf key l = some value ↔ (key, value) ∈ l := by
  induction l generalizing value with
  | nil => exact ⟨nofun, nofun⟩
  | cons e l ih =>
    obtain ⟨k, v⟩ := e
    obtain ⟨hk, hrest⟩ := List.nodup_cons.mp hl
    show (lastOf key l).or (if k = key then some v else none) = some value ↔ _
    rw [Option.or_eq_some_iff, ih hrest, List.mem_cons]
    constructor
    · rintro (hmem | ⟨-, hhere⟩)
      · exact .inr hmem
      · split at hhere
        · rename_i hkey
          exact .inl (by rw [hkey, Option.some.inj hhere])
        · cases hhere
    · rintro (hhere | hmem)
      · cases hhere
        refine .inr ⟨?_, if_pos rfl⟩
        -- the key is not assigned again
        apply Option.eq_none_iff_forall_ne_some.mpr
        intro v' hv'
        apply hk
        exact List.mem_map.mpr ⟨(key, v'), (ih hrest).mp hv', rfl⟩
      · exact .inl hmem

/-- Lines that assign different keys may be reordered. -/
theorem lastValue_perm {content1 content2 : Bytes}
    (hperm : (fileLines content1).Perm (fileLines content2))
    (hkeys : ((assignments content1).map Prod.fst).Nodup) (key : Bytes) :
    lastValue content1 key = lastValue content2 key := by
  have hassign : (assignments content1).Perm (assignments content2) := hperm.filterMap assignment
  have hkeys' : ((assignments content2).map Prod.fst).Nodup :=
    (hassign.map Prod.fst).nodup_iff.mp hkeys
  apply Option.ext
  intro value
  show lastOf key _ = some value ↔ lastOf key _ = some value
  rw [lastOf_eq_some_iff hkeys, lastOf_eq_some_iff hkeys']
  exact hassign.mem_iff

/-- Two files whose last assignments to every known key are the same are read as the same
    configuration. -/
theorem parseConf_same {name1 name2 content1 content2 : Bytes}
    (hopen1 : sur.openFile name1 = .regular content1)
    (hopen2 : sur.openFile name2 = .regular content2) (hshort1 : ShortLines content1)
    (hshort2 : ShortLines content2) {c1 c2 : Config}
    (hp1 : parseConf sur web (some name1) = .ok c1)
    (hp2 : parseConf sur web (some name2) = .ok c2)
    (hsame : ∀ key set, settingOf sur web key = some set →
      lastValue content1 key = lastValue content2 key) : c1 = c2 := by
  simp only [parseConf, hopen1] at hp1
  simp only [parseConf, hopen2] at hp2
  obtain ⟨hslots1, hothers1⟩ := parsePieces_slot hshort1 (le_refl _) hp1
  obtain ⟨hslots2, hothers2⟩ := parsePieces_slot hshort2 (le_refl _) hp2
  apply Config.ext_values
  apply List.ext_getElem?
  intro i
  by_cases hi : ∀ key set, settingOf sur web key = some set → slotOf key ≠ i
  · rw [hothers1 i hi, hothers2 i hi]
  · push Not at hi
    obtain ⟨key, set, hset, rfl⟩ := hi
    obtain ⟨-, f, hf⟩ := settingOf_owns hset
    have h1 := hslots1 key set f hset hf
    have h2 := hslots2 key set f hset hf
    rw [hsame key set hset] at h1
    -- both files settle the slot by the same text
    cases hlast : lastValue content2 key with
    | none =>
      rw [hlast] at h1 h2
      have hold1 : c1.values[slotOf key]? = Config.unset.values[slotOf key]? := h1
      have hold2 : c2.values[slotOf key]? = Config.unset.values[slotOf key]? := h2
      rw [hold1, hold2]
    | some text =>
      rw [hlast] at h1 h2
      obtain ⟨x, hx, h1⟩ := h1
      obtain ⟨y, hy, h2⟩ := h2
      rw [h1, h2, Except.ok.inj (hx.symm.trans hy)]

/-- **The last assignment wins.**  Two files with short lines that are accepted have the same
    effective configuration, if their last assignments to every known key are the same; in
    particular if one has the lines of the other in another order and no key is assigned twice. -/
theorem parseConf_last_wins {name1 name2 content1 content2 : Bytes}
    (hopen1 : sur.openFile name1 = .regular content1)
    (hopen2 : sur.openFile name2 = .regular content2) (hshort1 : ShortLines content1)
    (hshort2 : ShortLines content2) {c1 c2 : Config}
    (hp1 : parseConf sur web (some name1) = .ok c1)
    (hp2 : parseConf sur web (some name2) = .ok c2) :
    ((∀ key set, settingOf sur web key = some set →
        lastValue content1 key = lastValue content2 key) →
      applyDefaultConf web c1 = applyDefaultConf web c2) ∧
    ((fileLines content1).Perm (fileLines content2) →
      ((assignments content1).map Prod.fst).Nodup →
      applyDefaultConf web c1 = applyDefaultConf web c2) := by
  have hsame := parseConf_same hopen1 hopen2 hshort1 hshort2 hp1 hp2
  constructor
  · intro hlast
    rw [hsame hlast]
  · intro hperm hkeys
    rw [hsame fun key _ _ => lastValue_perm hperm hkeys key]

/-- One file assigns the display twice, the other once and after another key. -/
theorem parseConf_last_wins_display :
    ∃ sur name1 name2 c1 c2, parseConf sur false (some name1) = .ok c1 ∧
      parseConf sur false (some name2) = .ok c2 ∧ sur.openFile name1 ≠ sur.openFile name2 ∧
      applyDefaultConf false c1 = applyDefaultConf false c2 := by
  let content1 := ascii "display=1\nrestart=0\ndisplay=2"
  let content2 := ascii "# two\nrestart=0\n display = 2\n"
  let sur : Surroundings :=
    { openFile := fun name => .regular (if name = [0x61] then content1 else content2)
      inetPton4 := fun _ => none
      inetPton6 := fun _ => none }
  let c : Config := { Config.unset with display := 2, restart := 0 }
  have hp1 : parseConf sur false (some [0x61]) = .ok c := by
    set_option maxRecDepth 20000 in decide
  have hp2 : parseConf sur false (some [0x62]) = .ok c := by
    set_option maxRecDepth 20000 in decide
  have ha1 : assignments content1 =
      [(ascii "display", [0x31]), (ascii "restart", [0x30]), (ascii "display", [0x32])] := by
    set_option maxRecDepth 20000 in decide
  have ha2 : assignments content2 = [(ascii "restart", [0x30]), (ascii "display", [0x32])] := by
    set_option maxRecDepth 20000 in decide
  have hshort1 : ShortLines content1 := by
    unfold ShortLines
    set_option maxRecDepth 20000 in decide
  have hshort2 : ShortLines content2 := by
    unfold ShortLines
    set_option maxRecDepth 20000 in decide
  refine ⟨sur, [0x61], [0x62], c, c, hp1, hp2, by decide,
    (parseConf_last_wins rfl rfl hshort1 hshort2 hp1 hp2).1 fun key _ _ => ?_⟩
  unfold lastValue
  rw [ha1, ha2]
  by_cases hdisplay : ascii "display" = key
  · rw [← hdisplay]
    decide
  · by_cases hrestart : ascii "restart" = key
    · rw [← hrestart]
      decide
    · simp [lastOf, hdisplay, hrestart]

end ClipShare
