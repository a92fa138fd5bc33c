import ClipShare.Server.Config
import ClipShare.Server.Listener

namespace ClipShare

open Posix

/-!
# The allowed clients

Who may connect over TLS: the names that `get_client_list` reads, and how `check_peer_certs`
compares them with the name in a certificate.

* `clientLines` — the names in a file, as its lines are meant to be read;
* `scanClients_lines` / `scanClients_hangs` — the loop delivers them, or never ends when a line is
  empty;
* `getClientList_exact_iff` — the list is exact if and only if no line of the file is empty;
* `checkPeerCerts_sound_iff` — when a certificate that is accepted bears an allowed name.
-/

/-! ### The names in the file -/

/-- A line that names a client, once it is trimmed. -/
def isClient (line : Bytes) : Bool := line ≠ [] ∧ line.head? ≠ some 0x23

/-- The names in a file: its lines, trimmed, without empty ones and comments. -/
def clientLines (content : Bytes) : List Bytes := ((fileLines content).map trim).filter isClient

/-- No line that is ended by a newline is empty: the file does not begin with a newline, and no two
    newlines follow each other. -/
def NoEmptyLine (content : Bytes) : Prop := ∀ line ∈ (fileLines content).dropLast, line ≠ []

theorem clientLines_append {line : Bytes} (h : (0x0a : UInt8) ∉ line) (rest : Bytes) :
    clientLines (line ++ 0x0a :: rest) = clientLines line ++ clientLines rest := by
  unfold clientLines
  rw [fileLines_append h, fileLines_of_not_mem h, List.map_cons, ← List.singleton_append,
    List.filter_append]
  rfl

theorem noEmptyLine_append {line : Bytes} (h : (0x0a : UInt8) ∉ line) (rest : Bytes) :
    NoEmptyLine (line ++ 0x0a :: rest) ↔ line ≠ [] ∧ NoEmptyLine rest := by
  unfold NoEmptyLine
  rw [fileLines_append h, List.dropLast_cons_of_ne_nil (fileLines_ne_nil rest),
    List.forall_mem_cons]

theorem noEmptyLine_of_not_mem {line : Bytes} (h : (0x0a : UInt8) ∉ line) : NoEmptyLine line := by
  unfold NoEmptyLine
  rw [fileLines_of_not_mem h]
  exact nofun

/-- A file that `fgets` reads line by line: UTF-8 without NUL, in lines of at most 511 bytes. -/
structure ClientFile (content : Bytes) : Prop where
  utf8 : validUtf8 content = true
  noNul : (0 : UInt8) ∉ content
  short : ∀ line ∈ fileLines content, line.length ≤ 511

/-- What follows the first line is such a file again, and so is the line. -/
theorem ClientFile.cut {line rest : Bytes} (hline : (0x0a : UInt8) ∉ line)
    (h : ClientFile (line ++ 0x0a :: rest)) : ClientFile line ∧ ClientFile rest := by
  obtain ⟨hutf, hnul, hshort⟩ := h
  obtain ⟨hutf1, hutf2⟩ := validUtf8_cut (by decide) hutf
  rw [fileLines_append hline, List.forall_mem_cons] at hshort
  rw [List.mem_append, List.mem_cons] at hnul
  push Not at hnul
  refine ⟨⟨hutf1, hnul.1, ?_⟩, ⟨hutf2, hnul.2.2, hshort.2⟩⟩
  rw [fileLines_of_not_mem hline, List.forall_mem_singleton]
  exact hshort.1

/-! ### The loop -/

/-- `fscanf` takes a line that is not empty and skips its newline, if it has one. -/
theorem fscanfClient_line {line tail : Bytes} (hline : (0x0a : UInt8) ∉ line) (hne : line ≠ [])
    (hlen : line.length ≤ 511) (htail : tail = [] ∨ ∃ rest, tail = 0x0a :: rest) (client : Bytes) :
    fscanfClient client (line ++ tail) = some (line, tail.drop 1) := by
  obtain ⟨c, l, rfl⟩ := List.exists_cons_of_ne_nil hne
  have hc : c ≠ 0x0a := fun e => hline (e ▸ List.mem_cons_self ..)
  have hall : ∀ b ∈ c :: l, (decide (b ≠ 0x0a)) = true := fun b hb =>
    decide_eq_true fun e => hline (e ▸ hb)
  have htake : (((c :: l) ++ tail).take 511).takeWhile (· ≠ 0x0a) = c :: l := by
    rw [List.take_append, List.take_of_length_le hlen, List.takeWhile_append_of_pos hall]
    obtain rfl | ⟨rest, rfl⟩ := htail
    · simp
    · cases 511 - (c :: l).length <;> simp
  have hdrop : ((c :: l) ++ tail).drop ((c :: l).length + 1) = tail.drop 1 :=
    List.drop_length_add_append 1
  show (if c = 0x0a then _ else some (_, _)) = _
  rw [if_neg hc]
  show some ((((c :: l) ++ tail).take 511).takeWhile (· ≠ 0x0a),
    ((c :: l) ++ tail).drop (((((c :: l) ++ tail).take 511).takeWhile (· ≠ 0x0a)).length + 1)) = _
  rw [htake, hdrop]

/-- One round with a line that was read: the name in it, if any, is added. -/
theorem scanClients_round {client s line rest : Bytes}
    (hread : fscanfClient client s = some (line, rest)) (hline : (0x0a : UInt8) ∉ line)
    (hutf : validUtf8 line = true) (hnul : (0 : UInt8) ∉ line) (fuel : Nat)
    (clients : List Bytes) :
    scanClients (fuel + 1) client s clients
      = scanClients fuel (trim line) rest (clients ++ clientLines line) := by
  have hlines : clientLines line = if isClient (trim line) then [trim line] else [] := by
    unfold clientLines
    rw [fileLines_of_not_mem hline]
    show List.filter isClient [trim line] = _
    rw [List.filter_singleton]
    cases isClient (trim line) <;> rfl
  simp only [scanClients, hread, cstr_of_not_mem hnul, hutf, Bool.not_true, Bool.false_eq_true,
    if_false]
  by_cases hskip : (trim line).length < 1 ∨ (trim line).head? = some 0x23
  · have hnot : isClient (trim line) = false := by
      unfold isClient
      obtain h | h := hskip
      · have hnil : trim line = [] := List.length_eq_zero_iff.mp (by omega)
        rw [hnil]
        rfl
      · simp [h]
    rw [if_pos hskip, hlines, hnot]
    simp
  · have hyes : isClient (trim line) = true := by
      push Not at hskip
      have hpos : trim line ≠ [] := List.ne_nil_of_length_pos (by omega)
      simp [isClient, hpos, hskip.2]
    rw [if_neg hskip, hlines, hyes]
    rfl

/-- **The list.**  Without empty lines the loop ends and delivers the names in the file, in at most
    one round for each byte and one for the end. -/
theorem scanClients_lines {content : Bytes} (hfile : ClientFile content)
    (hno : NoEmptyLine content) {fuel : Nat} (hfuel : content.length < fuel) (client : Bytes)
    (clients : List Bytes) :
    scanClients fuel client content clients = some (some (clients ++ clientLines content)) := by
  induction fuel generalizing content client clients with
  | zero => omega
  | succ fuel ih =>
    obtain ⟨line, hline, rfl | ⟨rest, rfl⟩⟩ := exists_line content
    · -- the last line, or nothing
      by_cases hne : content = []
      · subst hne
        simp [scanClients, fscanfClient, clientLines, fileLines, isClient, trim]
      · have hlen : content.length ≤ 511 := by
          apply hfile.short
          rw [fileLines_of_not_mem hline]
          exact List.mem_singleton_self _
        have hread := fscanfClient_line hline hne hlen (.inl rfl) client
        rw [List.append_nil] at hread
        rw [scanClients_round hread hline hfile.utf8 hfile.noNul]
        have hpos : 0 < content.length := List.length_pos_iff.mpr hne
        cases fuel with
        | zero => omega
        | succ fuel => rfl
    · obtain ⟨hl, hr⟩ := hfile.cut hline
      obtain ⟨hne, hno⟩ := (noEmptyLine_append hline rest).mp hno
      have hlen : line.length ≤ 511 := by
        apply hl.short
        rw [fileLines_of_not_mem hline]
        exact List.mem_singleton_self _
      have hread := fscanfClient_line hline hne hlen (.inr ⟨rest, rfl⟩) client
      rw [scanClients_round hread hline hl.utf8 hl.noNul, List.drop_one, List.tail_cons]
      have hlength : (line ++ 0x0a :: rest).length = line.length + (rest.length + 1) := by simp
      rw [ih hr hno (by omega), clientLines_append hline, List.append_assoc]

/-- What a round leads to, if it is not the last one: an encoding error, or the next round with
    what is left of the file. -/
theorem scanClients_next {client s read rest : Bytes}
    (hread : fscanfClient client s = some (read, rest)) (fuel : Nat) (clients : List Bytes) :
    scanClients (fuel + 1) client s clients = some none ∨
      ∃ client' clients', scanClients (fuel + 1) client s clients
        = scanClients fuel client' rest clients' := by
  simp only [scanClients, hread]
  split
  · exact .inl rfl
  · split
    · exact .inr ⟨_, _, rfl⟩
    · exact .inr ⟨_, _, rfl⟩

/-- **No end.**  With an empty line the loop never delivers a list, however long it runs and
    whatever the buffer holds. -/
theorem scanClients_hangs {content : Bytes}
    (hshort : ∀ line ∈ fileLines content, line.length ≤ 511) (hempty : ¬ NoEmptyLine content)
    (fuel : Nat) (client : Bytes) (clients l : List Bytes) :
    scanClients fuel client content clients ≠ some (some l) := by
  induction fuel generalizing content client clients with
  | zero => exact nofun
  | succ fuel ih =>
    obtain ⟨line, hline, rfl | ⟨rest, rfl⟩⟩ := exists_line content
    · exact absurd (noEmptyLine_of_not_mem hline) hempty
    · by_cases hne : line = []
      · -- the newline is not consumed: the next round sees the same file
        subst hne
        obtain h | ⟨client', clients', h⟩ := scanClients_next
          (show fscanfClient client ([] ++ 0x0a :: rest) = some (client, 0x0a :: rest) from rfl)
          fuel clients
        · rw [h]
          exact nofun
        · rw [h]
          exact ih hshort hempty client' clients'
      · rw [fileLines_append hline, List.forall_mem_cons] at hshort
        have hread := fscanfClient_line hline hne hshort.1 (.inr ⟨rest, rfl⟩) client
        obtain h | ⟨client', clients', h⟩ := scanClients_next hread fuel clients
        · rw [h]
          exact nofun
        · rw [h]
          refine ih hshort.2 (fun hno => hempty ?_) client' clients'
          exact (noEmptyLine_append hline rest).mpr ⟨hne, hno⟩

/-- A list that is returned was delivered by the loop. -/
theorem scanClients_of_ok {sur : Surroundings} {fileName content : Bytes} {clients : List Bytes}
    (hopen : sur.openFile fileName = .regular content)
    (hok : getClientList sur fileName = .ok clients) :
    scanClients (content.length + 1) (sur.stackBytes.take 511) content []
      = some (some clients) := by
  simp only [getClientList, hopen] at hok
  split at hok
  · cases hok
  · rename_i hscan
    cases hok
    exact hscan
  · cases hok

/-- **The list of allowed clients.**  For a file in UTF-8 without NUL and in lines of at most 511
    bytes, `get_client_list` returns exactly the names in the file if and only if no line that is
    ended by a newline is empty; otherwise its loop never delivers a list, however long it runs. -/
theorem getClientList_exact_iff {sur : Surroundings} {fileName content : Bytes}
    (hopen : sur.openFile fileName = .regular content) (hfile : ClientFile content) :
    (getClientList sur fileName = .ok (clientLines content) ↔ NoEmptyLine content) ∧
      (¬ NoEmptyLine content → ∀ fuel l,
        scanClients fuel (sur.stackBytes.take 511) content [] ≠ some (some l)) := by
  have hhangs : ¬ NoEmptyLine content → ∀ fuel l,
      scanClients fuel (sur.stackBytes.take 511) content [] ≠ some (some l) :=
    fun hempty fuel l => scanClients_hangs hfile.short hempty fuel _ [] l
  refine ⟨⟨fun hok => ?_, fun hno => ?_⟩, hhangs⟩
  · by_contra hempty
    exact hhangs hempty _ _ (scanClients_of_ok hopen hok)
  · have hscan := scanClients_lines hfile hno (Nat.lt_succ_self _) (sur.stackBytes.take 511) []
    simp only [getClientList, hopen, Nat.succ_eq_add_one] at hscan ⊢
    rw [hscan]
    rfl

instance (content : Bytes) : Decidable (NoEmptyLine content) :=
  inferInstanceAs (Decidable (∀ line ∈ (fileLines content).dropLast, line ≠ []))

/-- A file with two names, a line that only has a comment, and no newline at its end. -/
def namesFile : Bytes := ascii "alice\n  # admin\n bob "

/-- The two names of `namesFile` are read. -/
theorem getClientList_exact_names :
    ∃ sur : Surroundings, getClientList sur (ascii "clients.txt") = .ok (clientLines namesFile) ∧
      clientLines namesFile = [ascii "alice", ascii "bob"] := by
  let sur : Surroundings :=
    { openFile := fun _ => .regular namesFile, inetPton4 := fun _ => none,
      inetPton6 := fun _ => none }
  have hfile : ClientFile namesFile := ⟨by decide, by decide, by decide⟩
  have hopen : sur.openFile (ascii "clients.txt") = .regular namesFile := rfl
  exact ⟨sur, (getClientList_exact_iff hopen hfile).1.mpr (by decide), by decide⟩

/-- A file with an empty line between two names. -/
def blankLineFile : Bytes := ascii "alice\n\nbob\n"

/-- The file is a good one, and its list is never delivered: the loop goes on for ever, whatever
    the buffer held at first. -/
theorem getClientList_hangs_blank :
    ClientFile blankLineFile ∧ clientLines blankLineFile = [ascii "alice", ascii "bob"] ∧
      (∀ client fuel l, scanClients fuel client blankLineFile [] ≠ some (some l)) ∧
      ∀ sur : Surroundings, sur.openFile (ascii "clients.txt") = .regular blankLineFile →
        getClientList sur (ascii "clients.txt") ≠ .ok (clientLines blankLineFile) := by
  have hfile : ClientFile blankLineFile := ⟨by decide, by decide, by decide⟩
  have hempty : ¬ NoEmptyLine blankLineFile := by decide
  have hnever : ∀ client fuel l, scanClients fuel client blankLineFile [] ≠ some (some l) :=
    fun client fuel l => scanClients_hangs hfile.short hempty fuel client [] l
  refine ⟨hfile, by decide, hnever, fun sur hopen hok => ?_⟩
  exact hnever _ _ _ (scanClients_of_ok hopen hok)

/-! ### The names are C strings -/

/-! ### Certificates -/

/-- What the buffer holds as a string after the name was asked for. -/
def Certificate.readName (stack : Bytes) (cert : Certificate) : Bytes :=
  match cert.commonName with
  | none => cstr (stack.take 255)
  | some name => cstr (name.take 254)

/-- The string in a buffer after a NUL was stored ends there at the latest. -/
theorem cstr_set (buf : Bytes) (i : Nat) : cstr (buf.set i 0) = cstr (buf.take i) := by
  by_cases hi : i < buf.length
  · rw [List.set_eq_take_append_cons_drop, if_pos hi]
    exact cstr_append_zero _ _
  · rw [List.set_eq_of_length_le (by omega), List.take_of_length_le (by omega)]

/-- `check_peer_certs` compares the name in the buffer with each allowed one. -/
theorem checkPeerCerts_eq_true_iff {stack : Bytes} {cert : Certificate}
    {allowedClients : List Bytes} (hnul : ∀ client ∈ allowedClients, (0 : UInt8) ∉ client) :
    Certificate.checkPeerCerts stack (some cert) allowedClients = true
      ↔ cert.readName stack ∈ allowedClients := by
  have hname : cstr ((cert.getTextByNid stack 255).set 255 0) = cert.readName stack := by
    rw [cstr_set]
    obtain ⟨_ | name⟩ := cert
    · rfl
    · -- the name and its NUL fit
      have hlen : (name.take 254).length + 1 ≤ 255 := by
        rw [List.length_take]
        omega
      show cstr ((name.take 254 ++ 0 :: stack.drop _).take 255) = cstr (name.take 254)
      rw [List.take_append, List.take_of_length_le (by omega),
        show 255 - (name.take 254).length = (254 - (name.take 254).length) + 1 by omega,
        List.take_succ_cons, cstr_append_zero]
  show (allowedClients.any fun client => streq _ client) = true ↔ _
  rw [List.any_eq_true]
  constructor
  · rintro ⟨client, hmem, heq⟩
    have : cert.readName stack = client := by
      rw [← hname, ← cstr_of_not_mem (hnul client hmem)]
      exact eq_of_beq heq
    exact this ▸ hmem
  · intro hmem
    refine ⟨_, hmem, ?_⟩
    unfold streq
    rw [hname, cstr_of_not_mem (hnul _ hmem)]
    exact beq_self_eq_true _

/-- A common name that the buffer and a C string can hold. -/
def FitsBuffer (name : Bytes) : Prop := name.length ≤ 254 ∧ (0 : UInt8) ∉ name

/-- When the buffer cannot mislead: with a common name, either it is copied whole, or it is an
    allowed name itself, or what is copied of it is none; without one, the stack did not hold an
    allowed name. -/
def Certificate.Unmistakable (stack : Bytes) (cert : Certificate) (allowedClients : List Bytes) :
    Prop :=
  match cert.commonName with
  | none => cstr (stack.take 255) ∉ allowedClients
  | some name => FitsBuffer name ∨ name ∈ allowedClients ∨ cstr (name.take 254) ∉ allowedClients

/-- **Client authorisation.**  A certificate that is accepted bears an allowed name as its whole
    common name if and only if the buffer cannot mislead. -/
theorem checkPeerCerts_sound_iff {stack : Bytes} {cert : Certificate} {allowedClients : List Bytes}
    (hnul : ∀ client ∈ allowedClients, (0 : UInt8) ∉ client) :
    (Certificate.checkPeerCerts stack (some cert) allowedClients = true →
      ∃ name, cert.commonName = some name ∧ name ∈ allowedClients)
      ↔ cert.Unmistakable stack allowedClients := by
  rw [checkPeerCerts_eq_true_iff hnul]
  obtain ⟨_ | name⟩ := cert
  · show (cstr (stack.take 255) ∈ allowedClients → _) ↔ cstr (stack.take 255) ∉ allowedClients
    constructor
    · intro h hmem
      obtain ⟨name, hname, -⟩ := h hmem
      cases hname
    · exact fun h hmem => absurd hmem h
  · show (cstr (name.take 254) ∈ allowedClients → ∃ n, some name = some n ∧ n ∈ allowedClients)
      ↔ FitsBuffer name ∨ name ∈ allowedClients ∨ cstr (name.take 254) ∉ allowedClients
    constructor
    · intro h
      by_cases hmem : cstr (name.take 254) ∈ allowedClients
      · obtain ⟨n, hn, hallowed⟩ := h hmem
        cases hn
        exact .inr (.inl hallowed)
      · exact .inr (.inr hmem)
    · rintro (⟨hlen, hno⟩ | hallowed | hnot) hmem
      · rw [List.take_of_length_le hlen, cstr_of_not_mem hno] at hmem
        exact ⟨name, rfl, hmem⟩
      · exact ⟨name, rfl, hallowed⟩
      · exact absurd hmem hnot

/-- An ordinary certificate of an allowed client is accepted for its whole name. -/
theorem checkPeerCerts_sound_bob :
    Certificate.checkPeerCerts [] (some ⟨some (ascii "bob")⟩) [ascii "alice", ascii "bob"] = true ∧
      ∃ name, (⟨some (ascii "bob")⟩ : Certificate).commonName = some name ∧
        name ∈ [ascii "alice", ascii "bob"] :=
  ⟨by decide, (@checkPeerCerts_sound_iff [] ⟨some (ascii "bob")⟩ [ascii "alice", ascii "bob"]
    (by decide)).mpr (.inl ⟨by decide, by decide⟩) (by decide)⟩

/-- Two clients that are not allowed and get in: one without a common name when the stack happens
    to hold an allowed name, whatever follows it there, and one whose common name goes on after a
    NUL. -/
theorem checkPeerCerts_accepts_nameless :
    (∀ rest : Bytes, Certificate.checkPeerCerts (ascii "admin" ++ 0 :: rest) (some ⟨none⟩)
      [ascii "admin"] = true ∧
      ¬ ∃ name, (⟨none⟩ : Certificate).commonName = some name ∧ name ∈ [ascii "admin"]) ∧
    ∀ stack : Bytes, Certificate.checkPeerCerts stack (some ⟨some (ascii "admin" ++ [0, 0x78])⟩)
      [ascii "admin"] = true ∧
      ¬ ∃ name, (⟨some (ascii "admin" ++ [0, 0x78])⟩ : Certificate).commonName = some name ∧
        name ∈ [ascii "admin"] := by
  have hnul : ∀ client ∈ [ascii "admin"], (0 : UInt8) ∉ client := by decide
  refine ⟨fun rest => ⟨?_, ?_⟩, fun stack => ⟨?_, ?_⟩⟩
  · rw [checkPeerCerts_eq_true_iff hnul]
    show cstr ((ascii "admin" ++ 0 :: rest).take 255) ∈ [ascii "admin"]
    rw [List.take_append, show 255 - (ascii "admin").length = 249 + 1 from rfl, List.take_succ_cons,
      cstr_append_zero]
    decide
  · rintro ⟨name, hname, -⟩
    cases hname
  · rw [checkPeerCerts_eq_true_iff hnul]
    show cstr ((ascii "admin" ++ [0, 0x78]).take 254) ∈ [ascii "admin"]
    decide
  · rintro ⟨name, hname, hmem⟩
    cases hname
    revert hmem
    decide

end ClipShare
