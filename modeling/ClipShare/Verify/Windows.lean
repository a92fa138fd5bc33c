import ClipShare.Verify.LineEndings

namespace ClipShare

open Interaction Posix

/-!
# Texts in the Windows build

What becomes of a text that is sent to the Windows build and fetched from it.  The limit for the
length of a text is compared with the form in which it is sent when a client sends it, and with
the form in which the clipboard keeps it when a client asks for it.

* `Windows.convertEol_eq` — the list function is what the program in memory computes;
* `length_crlfForm` — the stored form is longer by one byte for each line break;
* `windows_serves_iff` — which of the texts that were accepted are served.
-/

variable {A : Allocator} {fuel : Nat}

/-- A converted text is longer by the LFs that had no CR; without CRs, by all of them. -/
theorem length_crlfFrom {s : Bytes} (hcr : (0x0d : UInt8) ∉ s) {prev : UInt8}
    (hprev : prev ≠ 0x0d) : (crlfFrom prev s).length = s.length + s.count 0x0a := by
  induction s generalizing prev with
  | nil => rfl
  | cons c s ih =>
    rw [List.mem_cons, not_or] at hcr
    have hs := ih hcr.2 (Ne.symm hcr.1)
    rw [crlfFrom_cons, List.length_append, hs, List.length_cons]
    by_cases hc : c = 0x0a
    · rw [if_pos ⟨hc, hprev⟩, hc, List.count_cons_self]
      simp only [List.length_cons, List.length_nil]
      omega
    · rw [if_neg fun h => hc h.1, List.count_cons_of_ne hc]
      simp only [List.length_cons, List.length_nil]
      omega

theorem length_crlfForm {s : Bytes} (hcr : (0x0d : UInt8) ∉ s) :
    (crlfForm s).length = s.length + s.count 0x0a := length_crlfFrom hcr (by decide)

/-- The conversion puts in nothing but CRs. -/
theorem mem_crlfFrom {b prev : UInt8} {s : Bytes} (hb : b ≠ 0x0d) (h : b ∈ crlfFrom prev s) :
    b ∈ s := by
  induction s generalizing prev with
  | nil => exact h
  | cons c s ih =>
    rw [crlfFrom_cons, List.mem_append] at h
    rcases h with h | h
    · split at h
      · rename_i hc
        rw [hc.1]
        rcases List.mem_cons.mp h with h | h
        · exact absurd h hb
        · rw [List.mem_singleton.mp h]
          exact List.mem_cons_self
      · rw [List.mem_singleton.mp h]
        exact List.mem_cons_self
    · exact List.mem_cons_of_mem _ (ih h)

/-- What is stored comes back with LF: a text without CR comes back as it is. -/
theorem convertEol_crlfForm {s : Bytes} (h0 : (0 : UInt8) ∉ s) (hcr : (0x0d : UInt8) ∉ s) :
    convertEol (crlfForm s) = s := by
  have h0' : (0 : UInt8) ∉ crlfForm s := fun h => h0 (mem_crlfFrom (by decide) h)
  have hno : ¬ [0x0d, 0x0a] <:+: s := fun h => hcr (h.subset List.mem_cons_self)
  rw [(convertEol_eq_iff _).mpr h0', crlfForm, convertToLf_crlfFrom, convertToLf_of_no_crlf hno]

namespace Windows

/-- Fetching a text does not depend on the build. -/
theorem getTextV1_eq (env : Env) : Windows.getTextV1 env = ClipShare.getTextV1 env := rfl

theorem convertEol_eq_some {s t : Bytes} (h0 : (0 : UInt8) ∉ s)
    (h : Windows.convertEol false s = some t) : t = crlfForm s := by
  rw [Windows.convertEol_false h0] at h
  split at h
  · rename_i hsame
    rw [← Option.some.inj h]
    exact (crlfFrom_eq_self hsame).symm
  · split at h
    · cases h
    · exact (Option.some.inj h).symm

/-- **Storing a text.**  If it is accepted, the clipboard has it with CRLF. -/
theorem storeText_host {s : Bytes} (h0 : (0 : UInt8) ∉ s) {l : Session} {h : Host}
    (hfs : l.fault = false) (hacc : ((Windows.storeText s).run respond (l, h)).1 = some .success) :
    ((Windows.storeText s).run respond (l, h)).2.2.desktop.clipboard none = some (crlfForm s) := by
  have hput : ∀ data, respond (.xclipIn none data) (l, h)
      = (true, l.tick, { h with desktop := h.desktop.owned (h.desktop.offer none data) }) :=
    fun data => respond_of_fault_none hfs _ h
  unfold Windows.storeText at hacc ⊢
  cases hutf : validUtf8 s with
  | false =>
    rw [hutf] at hacc
    cases hacc
  | true =>
    rw [hutf] at hacc
    cases hconv : Windows.convertEol false s with
    | none =>
      rw [hconv] at hacc
      cases hacc
    | some t =>
      rw [hconv] at hacc
      rw [← convertEol_eq_some h0 hconv]
      by_cases hlen : t.length ≤ 0
      · simp [hlen] at hacc
      · simp [hlen, putClipboardText, xclipUtilIn, hput, Desktop.owned, h.desktop.offer_self]

/-- The answer to a client that asks for a text: the text with its size. -/
def Serves (get : Proc Status) (s : Bytes) (l : Session) (h : Host) : Prop :=
  (get.run respond (l, h)).2.1.output = l.output ++ statusOk :: sizeBytes 8 s.length ++ s

/-- A reply with a text is not the reply that there is none. -/
theorem noData_ne (out s : Bytes) :
    out ++ [statusNoData] ≠ out ++ statusOk :: sizeBytes 8 s.length ++ s := by
  rw [List.append_assoc]
  intro h
  have hhead := List.append_cancel_left h
  rw [List.cons_append] at hhead
  exact absurd (List.cons.inj hhead).1 (by decide)

/-- Fetching a text without CR that is stored with CRLF. -/
theorem getTextV1_serves_iff (env : Env) {s : Bytes} (hne : s ≠ []) (h0 : (0 : UInt8) ∉ s)
    (hcr : (0x0d : UInt8) ∉ s) {l : Session} (hl : l.Reliable) {h : Host}
    (hclip : h.desktop.clipboard none = some (crlfForm s)) :
    ∃ status l', (Windows.getTextV1 env).run respond (l, h) = (some status, l', h) ∧
      (l'.output = l.output ++ statusOk :: sizeBytes 8 s.length ++ s ↔
        s.length + s.count 0x0a ≤ env.configuration.maxTextLength.toNat) := by
  have hback := convertEol_crlfForm h0 hcr
  rw [getTextV1_eq, ← length_crlfForm hcr]
  by_cases hmax : (crlfForm s).length ≤ env.configuration.maxTextLength.toNat
  · obtain ⟨l', hrun, hout⟩ := getTextV1_delivers hclip (by rw [hback]; exact hne) hmax hl.opened
      hl.write (hl.fs _)
    rw [hback] at hout
    exact ⟨_, l', hrun, ⟨fun _ => hmax, fun _ => hout⟩⟩
  · obtain ⟨l', hrun, hout⟩ :=
      getTextV1_refuses hclip (not_le.mp hmax) hl.opened hl.write (hl.fs _)
    refine ⟨_, l', hrun, ⟨fun h' => ?_, fun h' => absurd h' hmax⟩⟩
    rw [hout] at h'
    exact absurd h' (noData_ne _ _)

end Windows

/-- **What the Windows build accepts and serves.**  A text without CR and NUL that a client has
    sent and that was stored is served if and only if it is within the limit with one byte more
    for each of its line breaks. -/
theorem windows_serves_iff (env : Env) (version : Nat) (get : Proc Status)
    (hget : get = Windows.getTextV1 env ∨ get = Windows.getTextV4 env) (s : Bytes)
    (h0 : (0 : UInt8) ∉ s) (hcr : (0x0d : UInt8) ∉ s) (l1 l2 : Session) (h : Host)
    (h1 : l1.Reliable) (h2 : l2.Reliable)
    (htext : l1.textOf env.configuration.maxTextLength.toNat = some s)
    (hacc : ((Windows.sendTextCommon env version).run respond (l1, h)).1 = some .success) :
    Windows.Serves get s l2 ((Windows.sendTextCommon env version).run respond (l1, h)).2.2 ↔
      s.length + s.count 0x0a ≤ env.configuration.maxTextLength.toNat := by
  obtain ⟨l', horacle, _, hrun, _⟩ := receiveText_run version Windows.storeText h
    ⟨h1.opened, h1.write _, h1.read _, h1.read _, h1.write _⟩ htext
  unfold Windows.sendTextCommon at hacc ⊢
  rw [hrun] at hacc ⊢
  have hclip := Windows.storeText_host h0 (l := l') (by rw [Session.fault, horacle, h1.fs]) hacc
  obtain ⟨status, l'', hfetch, hiff⟩ := Windows.getTextV1_serves_iff env
    (l1.textOf_length htext).1 h0 hcr h2 hclip
  unfold Windows.Serves
  rcases hget with rfl | rfl
  · rw [hfetch]
    exact hiff
  · rw [Windows.getTextV4, thenAck_output hfetch]
    exact hiff

/-- `windows_serves_iff` for a text of two lines. -/
theorem windows_serves_lines :
    Windows.Serves (Windows.getTextV4 .default) (ascii "a\nb") (.fresh [1] .calm)
        ((Windows.sendTextCommon .default 4).run respond
          (.fresh (sizeBytes 8 3 ++ ascii "a\nb") .calm, .empty)).2.2 ↔
      3 + 1 ≤ 4194304 :=
  windows_serves_iff .default 4 (Windows.getTextV4 .default) (.inr rfl) (ascii "a\nb") (by decide)
    (by decide) (.fresh (sizeBytes 8 3 ++ ascii "a\nb") .calm) (.fresh [1] .calm) .empty
    (Session.fresh_reliable _) (Session.fresh_reliable _) (by decide) (by decide)

/-- The default configuration with a limit of three bytes for texts. -/
def threeBytes : Env :=
  { Env.default with configuration := { Env.default.configuration with maxTextLength := 3 } }

/-- Three bytes with a line break are accepted, and are not served. -/
theorem windows_line_break_not_served :
    ((Windows.sendTextCommon threeBytes 1).run respond
        (.fresh (sizeBytes 8 3 ++ ascii "a\nb") .calm, .empty)).1 = some .success ∧
      ¬ Windows.Serves (Windows.getTextV1 threeBytes) (ascii "a\nb") (.fresh [] .calm)
        ((Windows.sendTextCommon threeBytes 1).run respond
          (.fresh (sizeBytes 8 3 ++ ascii "a\nb") .calm, .empty)).2.2 := by
  unfold Windows.Serves
  decide

end ClipShare
