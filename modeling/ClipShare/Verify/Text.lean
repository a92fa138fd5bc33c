import ClipShare.Server.Versions
import ClipShare.Server.Windows
import Mathlib.Tactic.Set

namespace ClipShare

open Interaction Posix

/-!
# Texts

What becomes of a text that a client sends, and what a client gets.

* `convertToLf` — line endings: what the conversion keeps;
* `Session.textOf` — the text that a client stream announces and contains;
* `receiveText_run` — receiving a text: the step that stores it is reached with exactly that text;
* `storeText_stores_iff` — the whole text reaches the clipboard if and only if it is well-formed
  UTF-8 without NUL;
* `sendTextV4_keeps_acknowledged_iff` — when an acknowledged text is not lost;
* `text_roundtrip` — a text sent in any version and fetched in any version.
-/

/-! ### Line endings -/

/-- Without a CR directly before an LF nothing changes. -/
theorem convertToLf_of_no_crlf {s : Bytes} (h : ¬ [0x0d, 0x0a] <:+: s) : convertToLf s = s := by
  fun_induction convertToLf s with
  | case1 => rfl
  | case2 c => rfl
  | case3 c d s hcd ih =>
    obtain ⟨rfl, rfl⟩ := hcd
    exact absurd ⟨[], s, rfl⟩ h
  | case4 c d s hcd ih =>
    rw [ih fun hs => h (hs.trans (List.suffix_cons c _).isInfix)]

/-- A text that is not empty stays so: its last byte is kept. -/
theorem convertToLf_ne_nil {s : Bytes} (h : s ≠ []) : convertToLf s ≠ [] := by
  fun_induction convertToLf s with
  | case1 => exact h
  | case2 c => exact h
  | case3 c d s hcd ih => exact ih (List.cons_ne_nil d s)
  | case4 c d s hcd ih => exact List.cons_ne_nil _ _

theorem length_convertToLf_le (s : Bytes) : (convertToLf s).length ≤ s.length := by
  fun_induction convertToLf s with
  | case1 => exact Nat.le_refl _
  | case2 c => exact Nat.le_refl _
  | case3 c d s hcd ih => exact Nat.le_succ_of_le ih
  | case4 c d s hcd ih => exact Nat.succ_le_succ ih

/-- Only CRs are dropped. -/
theorem mem_convertToLf_iff {b : UInt8} (hb : b ≠ 0x0d) {s : Bytes} :
    b ∈ convertToLf s ↔ b ∈ s := by
  fun_induction convertToLf s with
  | case1 => rfl
  | case2 c => rfl
  | case3 c d s hcd ih => rw [ih, List.mem_cons (b := c), or_iff_right (hcd.1 ▸ hb)]
  | case4 c d s hcd ih => rw [List.mem_cons, List.mem_cons, ih]

/-- The conversion sees the whole text if and only if there is no NUL in it. -/
theorem convertEol_eq_iff (s : Bytes) : convertEol s = convertToLf s ↔ (0 : UInt8) ∉ s := by
  unfold convertEol
  constructor
  · intro h hmem
    rw [← mem_convertToLf_iff (by decide), ← h, mem_convertToLf_iff (by decide)] at hmem
    exact zero_not_mem_cstr s hmem
  · intro h
    rw [cstr_of_not_mem h]

/-! ### Receiving a text -/

/-- The text that a client stream contains behind its size, if the size is in range and the text
    is complete. -/
def Session.textOf (max : Nat) (l : Session) : Option Bytes :=
  let n := sizeOfBytes (l.input.take 8)
  if l.input.length < 8 ∨ n ≤ 0 ∨ n > max ∨ l.input.length < 8 + n.toNat then none
  else some ((l.input.drop 8).take n.toNat)

/-- The connection is open and carries the first two writes and the two reads between them. -/
def Session.carriesText (l : Session) : Prop :=
  l.closed = false ∧ l.oracle.write l.calls = none ∧ l.oracle.read (l.calls + 1) = false ∧
    l.oracle.read (l.calls + 2) = false ∧ l.oracle.write (l.calls + 3) = none

theorem Session.textOf_length {max : Nat} {l : Session} {text : Bytes}
    (h : l.textOf max = some text) : text ≠ [] ∧ text.length ≤ max := by
  simp only [Session.textOf] at h
  split at h
  · cases h
  · rename_i hn
    simp only [not_or, not_lt, not_le] at hn
    obtain ⟨_, hpos, hmax, hlen⟩ := hn
    cases h
    have : ((l.input.drop 8).take (sizeOfBytes (l.input.take 8)).toNat).length
        = (sizeOfBytes (l.input.take 8)).toNat := by
      rw [List.length_take, List.length_drop]
      omega
    refine ⟨fun h0 => ?_, by omega⟩
    rw [h0] at this
    simp only [List.length_nil] at this
    omega

/-- The bytes with which the server answers a text that it has received. -/
def textReply (version : Nat) : Bytes := if version ≥ 4 then [statusOk, 1] else [statusOk]

/-- **Receiving a text.**  If the connection carries it, the program comes to the step that stores
    it with exactly the text of the stream, after answering the client and without touching the
    clipboard. -/
theorem receiveText_run {env : Env} {l : Session} {text : Bytes} (version : Nat)
    (store : Bytes → Proc Status) (h : Host)
    (hc : l.carriesText) (ht : l.textOf env.configuration.maxTextLength.toNat = some text) :
    ∃ l', l'.oracle = l.oracle ∧ l'.output = l.output ++ textReply version ∧
      (receiveText env version store).run respond (l, h) = (store text).run respond (l', h) ∧
      ∃ t, (∀ target data r, ⟨.xclipIn target data, r⟩ ∉ t) ∧
        (receiveText env version store).trace respond (l, h)
          = t ++ (store text).trace respond (l', h) := by
  obtain ⟨hopen, hw0, hr1, hr2, hw3⟩ := hc
  obtain ⟨n, hn⟩ : ∃ n, sizeOfBytes (l.input.take 8) = n := ⟨_, rfl⟩
  simp only [Session.textOf, hn] at ht
  split at ht
  · cases ht
  · rename_i hbad
    simp only [not_or, not_lt] at hbad
    obtain ⟨h8, hpos, hle, hlen⟩ := hbad
    have hmax : ¬ (env.configuration.maxTextLength.toNat : Int) < n := not_lt.mpr hle
    -- the session after each of the four transfers
    let l1 : Session := { l.tick with output := l.output ++ [statusOk] }
    let l2 : Session := { l1.tick with input := l.input.drop 8 }
    let l3 : Session := { l2.tick with input := (l.input.drop 8).drop n.toNat }
    let l4 : Session := { l3.tick with output := l.output ++ [statusOk] ++ [1] }
    have s1 : l.writeSock [statusOk] = (true, l1) := Session.writeSock_ok l hopen hw0
    have s2 : l1.readSock 8 = (some (l.input.take 8), l2) := Session.readSock_ok l1 hopen hr1 h8
    have s3 : l2.readSock n.toNat = (some text, l3) := by
      rw [Session.readSock_ok l2 hopen hr2 (by simp [l2]; omega), Option.some.inj ht]
    have s4 : l3.writeSock [1] = (true, l4) := Session.writeSock_ok l3 hopen hw3
    -- versions from 4 on acknowledge the text before it is stored
    by_cases hv : version ≥ 4
    · refine ⟨l4.closeSocket true, ?_, ?_, ?_,
        [⟨.writeSock [statusOk], true⟩, ⟨.readSock 8, some (l.input.take 8)⟩,
          ⟨.readSock n.toNat, some text⟩, ⟨.writeSock [1], true⟩, ⟨.closeSocket true true, ()⟩],
        by simp, ?_⟩
      · simp [Session.closeSocket, l4, l3, l2, l1, hopen]
      · simp [Session.closeSocket, l4, l3, l2, l1, hopen, textReply, hv]
      · simp [receiveText, writeSock, readSize, readSock, sendAck, closeSocket, Status.ofBool,
          s1, s2, s3, s4, hn, hpos, hmax, hv]
      · simp [receiveText, writeSock, readSize, readSock, sendAck, closeSocket, Status.ofBool,
          s1, s2, s3, s4, hn, hpos, hmax, hv]
    · refine ⟨l3.closeSocket false, ?_, ?_, ?_,
        [⟨.writeSock [statusOk], true⟩, ⟨.readSock 8, some (l.input.take 8)⟩,
          ⟨.readSock n.toNat, some text⟩, ⟨.closeSocket false true, ()⟩], by simp, ?_⟩
      · simp [Session.closeSocket, l3, l2, l1, hopen]
      · simp [Session.closeSocket, l3, l2, l1, hopen, textReply, hv]
      · simp [receiveText, writeSock, readSize, readSock, closeSocketNoWait, s1, s2, s3, hn,
          hpos, hmax, hv]
      · simp [receiveText, writeSock, readSize, readSock, closeSocketNoWait, s1, s2, s3, hn,
          hpos, hmax, hv]

/-- `receiveText_run` for the builds that store with LF. -/
theorem sendTextCommon_run {env : Env} {l : Session} {text : Bytes} (version : Nat) (h : Host)
    (hc : l.carriesText) (ht : l.textOf env.configuration.maxTextLength.toNat = some text) :
    ∃ l', l'.oracle = l.oracle ∧ l'.output = l.output ++ textReply version ∧
      (sendTextCommon env version).run respond (l, h) = (storeText text).run respond (l', h) ∧
      ∃ t, (∀ target data r, ⟨.xclipIn target data, r⟩ ∉ t) ∧
        (sendTextCommon env version).trace respond (l, h)
          = t ++ (storeText text).trace respond (l', h) :=
  receiveText_run version storeText h hc ht

/-- Storing a text does not write to the client. -/
theorem storeText_output (text : Bytes) (l : Session) (h : Host) :
    ((storeText text).run respond (l, h)).2.1.output = l.output := by
  simp only [storeText]
  split
  · rfl
  · split
    · rfl
    · exact (respond_sameSocket (c := .xclipIn none (convertEol text)) rfl l h).2.1

/-- An acknowledgement in version 4 is only sent for a text that the connection carried. -/
theorem carriesText_of_acknowledged {env : Env} {l : Session} {h : Host}
    (hout : ((sendTextV4 env).run respond (l, h)).2.1.output = l.output ++ [statusOk, 1]) :
    l.carriesText ∧ ∃ text, l.textOf env.configuration.maxTextLength.toNat = some text := by
  have hne1 : l.output ≠ l.output ++ [statusOk, 1] := by simp
  have hne2 : l.output ++ [statusOk] ≠ l.output ++ [statusOk, 1] := by simp
  -- each call either goes on, or ends the program with too little output
  rcases l.writeSock_byte_cases statusOk with ⟨hc, hw0, s1⟩ | ⟨l', s1, hl'⟩
  swap
  · refine absurd (hl'.symm.trans ?_) hne1
    rw [← hout]
    simp [sendTextV4, sendTextCommon, writeSock, s1]
  obtain ⟨l1, hl1⟩ : ∃ l1 : Session, l1 = { l.tick with output := l.output ++ [statusOk] } :=
    ⟨_, rfl⟩
  rw [← hl1] at s1
  rcases l1.readSock_cases (n := 8) (by decide) with ⟨_, hr1, h8, s2⟩ | ⟨l', s2, hl'⟩
  swap
  · refine absurd (?_ : l1.output = _) (by rw [hl1]; exact hne2)
    rw [← hl', ← hout]
    simp [sendTextV4, sendTextCommon, writeSock, readSize, readSock, s1, s2]
  obtain ⟨l2, hl2⟩ : ∃ l2 : Session, l2 = { l1.tick with input := l1.input.drop 8 } := ⟨_, rfl⟩
  rw [← hl2] at s2
  obtain ⟨n, hn⟩ : ∃ n, sizeOfBytes (l1.input.take 8) = n := ⟨_, rfl⟩
  have hin : l1.input = l.input := by rw [hl1]; rfl
  by_cases hrange : n ≤ 0 ∨ (env.configuration.maxTextLength.toNat : Int) < n
  · refine absurd (?_ : l2.output = _) (by rw [hl2, hl1]; exact hne2)
    rw [← hout]
    simp [sendTextV4, sendTextCommon, writeSock, readSize, readSock, s1, s2, hn, hrange]
  rcases l2.readSock_cases (n := n.toNat) (by omega) with ⟨_, hr2, hlen, s3⟩ | ⟨l', s3, hl'⟩
  swap
  · refine absurd (?_ : l2.output = _) (by rw [hl2, hl1]; exact hne2)
    rw [← hl', ← hout]
    simp [sendTextV4, sendTextCommon, writeSock, readSize, readSock, s1, s2, s3, hn, hrange]
  obtain ⟨l3, hl3⟩ : ∃ l3 : Session, l3 = { l2.tick with input := l2.input.drop n.toNat } :=
    ⟨_, rfl⟩
  rw [← hl3] at s3
  rcases l3.writeSock_byte_cases 1 with ⟨_, hw3, _⟩ | ⟨l', s4, hl'⟩
  swap
  · refine absurd (?_ : l3.output = _) (by rw [hl3, hl2, hl1]; exact hne2)
    rw [← hl', ← hout]
    simp [sendTextV4, sendTextCommon, writeSock, readSize, readSock, sendAck, Status.ofBool, s1, s2,
      s3, s4, hn, hrange]
  subst hl3 hl2 hl1
  refine ⟨⟨hc, hw0, hr1, hr2, hw3⟩, (l.input.drop 8).take n.toNat, ?_⟩
  simp only [Session.textOf]
  rw [hin] at hn h8
  have hrest : n.toNat ≤ (l.input.drop 8).length := hlen
  rw [List.length_drop] at hrest
  rw [hn, if_neg]
  omega

/-! ### Acknowledged texts -/

/-- **Storing a text.**  The whole text, with CR LF turned into LF, goes to the clipboard if and
    only if it is well-formed UTF-8 without NUL. -/
theorem storeText_stores_iff {text : Bytes} (hne : text ≠ []) {l : Session} (h : Host)
    (hfs : l.fault = false) :
    ⟨.xclipIn none (convertToLf text), true⟩ ∈ (storeText text).trace respond (l, h) ↔
      validUtf8 text = true ∧ (0 : UInt8) ∉ text := by
  simp only [storeText]
  cases hv : validUtf8 text with
  | false => simp
  | true =>
    by_cases hempty : (convertEol text).length ≤ 0
    · -- the text starts with a NUL
      have hnul : (0 : UInt8) ∈ text := by
        by_contra h0
        rw [(convertEol_eq_iff text).mpr h0] at hempty
        exact convertToLf_ne_nil hne (List.length_eq_zero_iff.mp (Nat.le_zero.mp hempty))
      simp [hempty, hnul]
    · have hrun : ∀ data, respond (.xclipIn none data) (l, h)
          = (true, l.tick, { h with desktop := h.desktop.owned (h.desktop.offer none data) }) :=
        fun data => respond_of_fault_none hfs _ h
      have hiff : convertToLf text = convertEol text ↔ (0 : UInt8) ∉ text := by
        rw [eq_comm, convertEol_eq_iff]
      simp [hempty, putClipboardText, xclipUtilIn, hrun, Desktop.owned, hiff]

/-- If the server acknowledges a text, then the whole text of the client stream, with CR LF turned
    into LF, goes to the clipboard. -/
def KeepsAcknowledged (env : Env) (l : Session) (h : Host) : Prop :=
  ((sendTextV4 env).run respond (l, h)).2.1.output = l.output ++ [statusOk, 1] →
    ∃ text, l.textOf env.configuration.maxTextLength.toNat = some text ∧
      ⟨.xclipIn none (convertToLf text), true⟩ ∈ (sendTextV4 env).trace respond (l, h)

/-- **Acknowledged texts.**  For every client stream and every behaviour of the connection, and as
    long as clipboard writes succeed: an acknowledged text is kept if and only if the connection
    does not carry a complete text in range, or that text is well-formed UTF-8 without NUL. -/
theorem keepsAcknowledged_iff (env : Env) (l : Session) (h : Host)
    (hfs : ∀ k, l.oracle.fs k = false) :
    KeepsAcknowledged env l h ↔
      (l.carriesText → ∀ text, l.textOf env.configuration.maxTextLength.toNat = some text →
        validUtf8 text = true ∧ (0 : UInt8) ∉ text) := by
  unfold KeepsAcknowledged
  constructor
  · intro hkeep hc text ht
    obtain ⟨l', horacle, hout, hrun, t, hquiet, htrace⟩ :=
      sendTextCommon_run 4 h hc ht
    have hack : ((sendTextV4 env).run respond (l, h)).2.1.output = l.output ++ [statusOk, 1] := by
      rw [sendTextV4, hrun, storeText_output, hout]
      rfl
    obtain ⟨text', ht', hmem⟩ := hkeep hack
    rw [ht] at ht'
    cases ht'
    rw [sendTextV4, htrace, List.mem_append, or_iff_right (hquiet _ _ _),
      storeText_stores_iff (l.textOf_length ht).1 h (by rw [Session.fault, horacle, hfs])] at hmem
    exact hmem
  · intro hcond hack
    obtain ⟨hc, text, ht⟩ := carriesText_of_acknowledged hack
    obtain ⟨l', horacle, hout, hrun, t, hquiet, htrace⟩ :=
      sendTextCommon_run 4 h hc ht
    refine ⟨text, ht, ?_⟩
    rw [sendTextV4, htrace, List.mem_append, or_iff_right (hquiet _ _ _),
      storeText_stores_iff (l.textOf_length ht).1 h (by rw [Session.fault, horacle, hfs])]
    exact hcond hc text ht

/-- `keepsAcknowledged_iff` for a text of one letter. -/
theorem keepsAcknowledged_letter :
    KeepsAcknowledged .default (.fresh (sizeBytes 8 1 ++ [0x61]) .calm) .empty := by
  refine (keepsAcknowledged_iff _ _ _ fun _ => rfl).mpr fun _ text ht => ?_
  have : Session.textOf 4194304 (.fresh (sizeBytes 8 1 ++ [0x61]) .calm) = some [0x61] := by decide
  cases this.symm.trans ht
  decide

/-- A text that is not well-formed UTF-8 is acknowledged and dropped. -/
theorem acknowledged_invalid_text_lost :
    ¬ KeepsAcknowledged .default (.fresh (sizeBytes 8 1 ++ [0xff]) .calm) .empty := by
  intro hkeep
  obtain ⟨text, _, hmem⟩ := hkeep rfl
  have htrace : (sendTextV4 .default).trace respond
      (.fresh (sizeBytes 8 1 ++ [0xff]) .calm, .empty) =
        [⟨.writeSock [1], true⟩, ⟨.readSock 8, some (sizeBytes 8 1)⟩, ⟨.readSock 1, some [0xff]⟩,
          ⟨.writeSock [1], true⟩, ⟨.closeSocket true true, ()⟩] := rfl
  rw [htrace] at hmem
  simp at hmem

/-! ### Round trip -/

/-- A text in the form in which clients send it. -/
theorem Session.textOf_sent {max : Nat} {l : Session} {s rest : Bytes}
    (hin : l.input = sizeBytes 8 s.length ++ s ++ rest) (hne : s ≠ []) (hmax : s.length ≤ max)
    (hsmall : max < 2 ^ 63) : l.textOf max = some s := by
  have hpos : 0 < s.length := List.length_pos_iff.mpr hne
  have hsize : sizeOfBytes (l.input.take 8) = s.length := by
    rw [hin, List.append_assoc, List.take_left' (length_sizeBytes 8 _)]
    exact sizeOfBytes_sizeBytes (by omega) (by omega)
  have hrest : (l.input.drop 8).take s.length = s := by
    rw [hin, List.append_assoc, List.drop_left' (length_sizeBytes 8 _), List.take_left]
  have hlen : 8 + s.length ≤ l.input.length := by
    rw [hin, List.length_append, List.length_append, length_sizeBytes]
    omega
  simp only [Session.textOf, hsize, Int.toNat_natCast, hrest]
  rw [if_neg]
  omega

/-- A text without CR LF and NUL is stored as it is. -/
theorem storeText_host {s : Bytes} (hne : s ≠ []) (hutf : validUtf8 s = true)
    (hnul : (0 : UInt8) ∉ s) (hcr : ¬ [0x0d, 0x0a] <:+: s) {l : Session} (h : Host)
    (hfs : l.fault = false) :
    ((storeText s).run respond (l, h)).2.2.desktop.clipboard none = some s := by
  have heol : convertEol s = s := by
    rw [(convertEol_eq_iff s).mpr hnul, convertToLf_of_no_crlf hcr]
  have hrun : ∀ data, respond (.xclipIn none data) (l, h)
      = (true, l.tick, { h with desktop := h.desktop.owned (h.desktop.offer none data) }) :=
    fun data => respond_of_fault_none hfs _ h
  simp [storeText, hutf, heol, hne, putClipboardText, xclipUtilIn, hrun, Desktop.owned,
    h.desktop.offer_self]

/-- **Fetching a text** that the clipboard offers: it is delivered with LF. -/
theorem getTextV1_delivers {env : Env} {t : Bytes} {l : Session} {h : Host}
    (hclip : h.desktop.clipboard none = some t) (hne : convertEol t ≠ [])
    (hmax : t.length ≤ env.configuration.maxTextLength.toNat)
    (hopen : l.closed = false) (hwrite : ∀ k, l.oracle.write k = none) (hfs : l.fault = false) :
    ∃ l', (getTextV1 env).run respond (l, h) = (some .success, l', h) ∧
      l'.output = l.output ++ statusOk :: sizeBytes 8 (convertEol t).length ++ convertEol t := by
  have ht : t ≠ [] := fun e => hne (by rw [e]; rfl)
  have hclipRun : respond (.xclipOut none) (l, h) = (some (t, []), l.tick, h) := by
    rw [respond_of_fault_none hfs]
    simp [execute, Desktop.read, hclip]
  have hsend : (some t).filter (sendableText env) = some t := by
    simp [Option.filter, sendableText, ht, hmax]
  obtain ⟨s, hs⟩ : ∃ s, convertEol t = s := ⟨_, rfl⟩
  rw [hs] at hne ⊢
  let l1 : Session := { l.tick.tick with output := l.output ++ [statusOk] }
  let l2 : Session := { l1.tick with output := l.output ++ [statusOk] ++ sizeBytes 8 s.length }
  let l3 : Session := { l2.tick with output := l.output ++ [statusOk] ++ sizeBytes 8 s.length ++ s }
  have s1 : l.tick.writeSock [statusOk] = (true, l1) := l.tick.writeSock_ok hopen (hwrite _)
  have s2 : l1.writeSock (sizeBytes 8 s.length) = (true, l2) := l1.writeSock_ok hopen (hwrite _)
  have s3 : l2.writeSock s = (true, l3) := l2.writeSock_ok hopen (hwrite _)
  refine ⟨l3, ?_, by simp [l3]⟩
  simp [getTextV1, getClipboardText, xclipOut, xclipUtilOut, hclipRun, ht, hsend, hs, hne,
    writeSock, s1, sendData, sendSize, s2, s3]

/-- A text that is longer than allowed in the clipboard is not delivered. -/
theorem getTextV1_refuses {env : Env} {t : Bytes} {l : Session} {h : Host}
    (hclip : h.desktop.clipboard none = some t)
    (hmax : env.configuration.maxTextLength.toNat < t.length)
    (hopen : l.closed = false) (hwrite : ∀ k, l.oracle.write k = none) (hfs : l.fault = false) :
    ∃ l', (getTextV1 env).run respond (l, h) = (some .failure, l', h) ∧
      l'.output = l.output ++ [statusNoData] := by
  have ht : t ≠ [] := fun e => by
    rw [e] at hmax
    exact absurd hmax (Nat.not_lt_zero _)
  have hclipRun : respond (.xclipOut none) (l, h) = (some (t, []), l.tick, h) := by
    rw [respond_of_fault_none hfs]
    simp [execute, Desktop.read, hclip]
  have hsend : (some t).filter (sendableText env) = none := by
    simp [Option.filter, sendableText, hmax]
  let l1 : Session := { l.tick.tick with output := l.output ++ [statusNoData] }
  have s1 : l.tick.writeSock [statusNoData] = (true, l1) := l.tick.writeSock_ok hopen (hwrite _)
  refine ⟨l1.closeSocket false, ?_, by rw [Session.closeSocket_output]⟩
  simp [getTextV1, getClipboardText, xclipOut, xclipUtilOut, hclipRun, ht, hsend, writeSock,
    s1, closeSocketNoWait]

/-- `getTextV1_delivers` for a text without CR LF and NUL. -/
theorem getTextV1_run {env : Env} {s : Bytes} {l : Session} {h : Host}
    (hclip : h.desktop.clipboard none = some s) (hne : s ≠ []) (hnul : (0 : UInt8) ∉ s)
    (hcr : ¬ [0x0d, 0x0a] <:+: s) (hmax : s.length ≤ env.configuration.maxTextLength.toNat)
    (hopen : l.closed = false) (hwrite : ∀ k, l.oracle.write k = none) (hfs : l.fault = false) :
    ∃ l', (getTextV1 env).run respond (l, h) = (some .success, l', h) ∧
      l'.output = l.output ++ statusOk :: sizeBytes 8 s.length ++ s := by
  have heol : convertEol s = s := by
    rw [(convertEol_eq_iff s).mpr hnul, convertToLf_of_no_crlf hcr]
  have hrun := getTextV1_delivers hclip (by rw [heol]; exact hne) hmax hopen hwrite hfs
  rwa [heol] at hrun

/-- Waiting for an acknowledgement does not write to the client. -/
theorem readAck_inv (out : Bytes) : readAck.Inv respond (fun s => s.1.output = out) := by
  refine ⟨fun s hs => by rw [respond_readSock]; simpa using hs, fun r => ?_⟩
  cases r with
  | none => trivial
  | some ack =>
    show Prog.Inv respond _ (if ack ≠ [1] then _ else _)
    split <;> trivial

/-- Nor does the end of a method that waits for one. -/
theorem thenAck_output {method : Proc Status} {l l' : Session} {h h' : Host} {status : Status}
    (hrun : method.run respond (l, h) = (some status, l', h')) :
    ((thenAck method).run respond (l, h)).2.1.output = l'.output := by
  rw [thenAck, Prog.run_bind_of_some respond hrun]
  cases status with
  | failure => rfl
  | success =>
    refine Prog.Inv.run (s := (l', h')) ((readAck_inv l'.output).bind ?_) rfl
    rintro (_ | _)
    · exact ⟨fun s hs => by rw [respond_closeSocket]; simpa using hs, fun _ => trivial⟩
    · trivial

/-- The methods that receive a text. -/
theorem handler_sendText {v : UInt8} {send : Handler} (hv : methodsOf v methodSendText = some send)
    (env : Env) : ∃ version, handler env send = sendTextCommon env version := by
  simp only [methodsOf] at hv
  split_ifs at hv <;> cases hv
  all_goals first | exact ⟨1, rfl⟩ | exact ⟨4, rfl⟩

/-- The methods that deliver a text. -/
theorem handler_getText {w : UInt8} {get : Handler} (hw : methodsOf w methodGetText = some get)
    (env : Env) : handler env get = getTextV1 env ∨ handler env get = thenAck (getTextV1 env) := by
  simp only [methodsOf] at hw
  split_ifs at hw <;> cases hw
  all_goals first | exact .inl rfl | exact .inr rfl

/-- **Text round trip.**  A well-formed text without NUL and CR LF, sent in any version and fetched
    in any version, comes back unchanged. -/
theorem text_roundtrip {env : Env} {v w : UInt8} {send get : Handler}
    (hv : methodsOf v methodSendText = some send) (hw : methodsOf w methodGetText = some get)
    {s rest : Bytes} (hne : s ≠ []) (hutf : validUtf8 s = true) (hnul : (0 : UInt8) ∉ s)
    (hcr : ¬ [0x0d, 0x0a] <:+: s) (hmax : s.length ≤ env.configuration.maxTextLength.toNat)
    {l1 l2 : Session} {h : Host} (hin : l1.input = sizeBytes 8 s.length ++ s ++ rest)
    (h1 : l1.Reliable) (h2 : l2.Reliable) :
    ((handler env get).run respond (l2, ((handler env send).run respond (l1, h)).2.2)).2.1.output
      = l2.output ++ statusOk :: sizeBytes 8 s.length ++ s := by
  obtain ⟨version, hsend⟩ := handler_sendText hv env
  have hbound : env.configuration.maxTextLength.toNat < 2 ^ 63 :=
    lt_trans (UInt32.toNat_lt _) (by norm_num)
  obtain ⟨l', horacle, _, hrun, _⟩ := sendTextCommon_run version h
    ⟨h1.opened, h1.write _, h1.read _, h1.read _, h1.write _⟩
    (Session.textOf_sent hin hne hmax hbound)
  have hclip := storeText_host hne hutf hnul hcr (l := l') h (by rw [Session.fault, horacle, h1.fs])
  rw [← hrun, ← hsend] at hclip
  obtain ⟨l'', hget, hout⟩ :=
    getTextV1_run hclip hne hnul hcr hmax h2.opened h2.write (h2.fs _)
  rcases handler_getText hw env with heq | heq
  · rw [heq, hget, hout]
  · rw [heq, thenAck_output hget, hout]

/-- A letter sent in version 1 and fetched in version 4. -/
theorem text_roundtrip_letter :
    ((handler .default .getTextV4).run respond (.fresh [1] .calm,
      ((handler .default .sendTextV1).run respond
        (.fresh (sizeBytes 8 1 ++ [0x61] ++ []) .calm, .empty)).2.2)).2.1.output
      = [] ++ statusOk :: sizeBytes 8 1 ++ [0x61] :=
  @text_roundtrip .default 1 4 .sendTextV1 .getTextV4 rfl rfl [0x61] [] (by decide) (by decide)
    (by decide) (by decide) (by decide) (.fresh (sizeBytes 8 1 ++ [0x61] ++ []) .calm)
    (.fresh [1] .calm) .empty rfl (Session.fresh_reliable _) (Session.fresh_reliable _)

end ClipShare
