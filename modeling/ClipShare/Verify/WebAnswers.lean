import ClipShare.Verify.WebReceiver

namespace ClipShare

open Interaction Posix

/-!
# What the clients of the web server read

Whatever happens, the bytes that a client gets are the first bytes of one HTTP response, and the
client takes them for a response only if it got all of it.

* `Received` — what a client may have got of what was written;
* `sendAnswer_trace`, `sendAnswer_stores` — what becomes of an answer;
* `postReads`, `polls` — what the loops of a POST request have read, and how often the function has
  looked for data;
* `stored_told` — a text is stored after the client has got the answer;
* `web_answers` — what clients read.
-/

/-! ### Calls and what they send -/

/-- The bytes that a call is to send. -/
def WebCall.bytes : WebCall → Bytes
  | .writeSock data => data
  | _ => []

/-- The bytes that a call has sent, if it succeeded. -/
def sentBy : Event WebCalls → Bytes
  | ⟨.writeSock data, status⟩ => if status = .success then data else []
  | _ => []

/-- What was to be sent. -/
def offered (events : List (Event WebCalls)) : Bytes := events.flatMap fun e => e.1.bytes

/-- What was sent by the calls that succeeded. -/
def delivered (events : List (Event WebCalls)) : Bytes := events.flatMap sentBy

/-- What a client may have got: all that was sent, and perhaps a part of what was to be sent when a
    write failed. -/
structure Received (events : List (Event WebCalls)) (bytes : Bytes) : Prop where
  sent : delivered events <+: bytes
  written : bytes <+: offered events

/-- A write succeeds. -/
def Succeeds : Event WebCalls → Prop
  | ⟨.writeSock _, status⟩ => status = .success
  | _ => True

/-- Calls that neither send nor store anything. -/
def WebCall.Quiet : WebCall → Prop
  | .writeSock _ => False
  | .putClipboardText _ => False
  | _ => True

variable {σ : Type} {m : Machine WebCalls σ}

section Traces

variable {events rest : List (Event WebCalls)}

@[simp] theorem offered_append : offered (events ++ rest) = offered events ++ offered rest := by
  simp [offered]

@[simp] theorem delivered_append :
    delivered (events ++ rest) = delivered events ++ delivered rest := by simp [delivered]

theorem offered_quiet (h : ∀ e ∈ events, e.1.Quiet) : offered events = [] := by
  simp only [offered, List.flatMap_eq_nil_iff]
  intro e he
  have hq := h e he
  obtain ⟨c, r⟩ := e
  cases c with
  | writeSock data => exact hq.elim
  | _ => rfl

theorem succeeds_quiet (h : ∀ e ∈ events, e.1.Quiet) : ∀ e ∈ events, Succeeds e := by
  intro e he
  have hq := h e he
  obtain ⟨c, r⟩ := e
  cases c with
  | writeSock data => exact hq.elim
  | _ => trivial

theorem not_put_quiet (h : ∀ e ∈ events, e.1.Quiet) {e : Event WebCalls} (he : e ∈ events)
    (text : Bytes) : e.1 ≠ .putClipboardText text := by
  intro hput
  have hq := h e he
  rw [hput] at hq
  exact hq

/-- Who is sent nothing gets nothing. -/
theorem bytes_of_quiet {bytes : Bytes} (hr : Received events bytes)
    (h : ∀ e ∈ events, e.1.Quiet) : bytes = [] :=
  List.prefix_nil.mp (offered_quiet h ▸ hr.written)

/-- If all writes succeed, everything is sent that was to be sent. -/
theorem delivered_of_succeeds (h : ∀ e ∈ events, Succeeds e) :
    delivered events = offered events := by
  unfold delivered offered
  refine List.flatMap_congr fun e he => ?_
  have hs := h e he
  obtain ⟨c, r⟩ := e
  cases c with
  | writeSock data => exact if_pos hs
  | _ => rfl

/-- Calls that send nothing do not matter to the client. -/
theorem Received.of_quiet_append {bytes : Bytes} (hr : Received (events ++ rest) bytes)
    (h : ∀ e ∈ events, e.1.Quiet) : Received rest bytes := by
  obtain ⟨hsent, hwritten⟩ := hr
  rw [delivered_append, delivered_of_succeeds (succeeds_quiet h), offered_quiet h] at hsent
  rw [offered_append, offered_quiet h] at hwritten
  exact ⟨hsent, hwritten⟩

/-- Who is sent a whole response reads it. -/
theorem Received.parse_of_delivered {bytes : Bytes} {r : Http.Response}
    (hr : Received events bytes) (hpart : offered events <+: r.render)
    (hall : delivered events = r.render) : Http.parse bytes = some r := by
  have hbytes : bytes = r.render :=
    (hr.written.trans hpart).eq_of_length_le (hall ▸ hr.sent.length_le)
  rw [hbytes, Http.parse_render]

end Traces

/-- The pieces are sent up to the first write that fails. -/
theorem sendAll_trace (pieces : List Bytes) (s : σ) :
    ((sendAll pieces).run m s).1 = some .success ∧
        delivered ((sendAll pieces).trace m s) = pieces.flatten ∧
        offered ((sendAll pieces).trace m s) = pieces.flatten ∨
      ((sendAll pieces).run m s).1 = some .failure ∧
        (¬ ∀ e ∈ (sendAll pieces).trace m s, Succeeds e) ∧
        offered ((sendAll pieces).trace m s) <+: pieces.flatten := by
  induction pieces generalizing s with
  | nil => exact .inl ⟨rfl, rfl, rfl⟩
  | cons data pieces ih =>
    obtain ⟨status, s', hm⟩ : ∃ (status : Status) (s' : σ),
        m (.writeSock data) s = (status, s') := ⟨_, _, rfl⟩
    simp only [sendAll, Web.writeSock, Prog.ask_bind, Prog.run_call, Prog.trace_call, hm, id]
    cases status with
    | failure =>
      right
      simp [offered, WebCall.bytes, Succeeds]
    | success =>
      simp only [ne_eq, not_true_eq_false, if_false]
      rcases ih s' with ⟨hrun, hsent, hoffered⟩ | ⟨hrun, hfails, hoffered⟩
      · refine .inl ⟨hrun, ?_, ?_⟩
        · simpa [delivered, sentBy] using hsent
        · simpa [offered, WebCall.bytes] using hoffered
      · refine .inr ⟨hrun, fun hall => hfails fun e he => hall e (.tail _ he), ?_⟩
        simpa [offered, WebCall.bytes] using hoffered

theorem sendAll_only (pieces : List Bytes) :
    (sendAll pieces).Only fun c => ∀ text, c ≠ WebCall.putClipboardText text := by
  induction pieces with
  | nil => trivial
  | cons data pieces ih =>
    refine ⟨nofun, fun (status : Status) => ?_⟩
    cases status with
    | success => exact ih
    | failure => trivial

theorem readWord_quiet (left : Nat) (word : Bytes) :
    (Web.readWordFrom left word).Only WebCall.Quiet := by
  induction left generalizing word with
  | zero => trivial
  | succ left ih =>
    refine ⟨trivial, fun (r : Option UInt8) => ?_⟩
    cases r with
    | none => trivial
    | some b =>
      show Prog.Only _ (if b = 0x20 then _ else _)
      split
      · trivial
      · exact ih _

theorem discardRequest_quiet (fuel : Nat) : (Web.discardRequest fuel).Only WebCall.Quiet := by
  induction fuel with
  | zero => trivial
  | succ fuel ih =>
    refine ⟨trivial, fun r => ?_⟩
    cases r with
    | none => trivial
    | some data => exact ih

theorem answerGet_quiet (fuel : Nat) (path : Bytes) :
    (answerGet fuel path).Only WebCall.Quiet := by
  refine (discardRequest_quiet fuel).bind fun _ => ?_
  split_ifs with hroot hclip himg
  · trivial
  · refine ⟨trivial, fun (r : Option Blob) => ?_⟩
    cases r with
    | none => trivial
    | some clip =>
      show Prog.Only _ (if clip.data = [] then _ else _)
      split <;> trivial
  · refine ⟨trivial, fun (r : Option Blob) => ?_⟩
    cases r with
    | none => trivial
    | some clip =>
      show Prog.Only _ (if clip.data = [] then _ else _)
      split <;> trivial
  · trivial

theorem answerPost_quiet (junk : Nat → UInt8) (fuel : Nat) (p : Post) :
    (answerPost junk fuel p).Only WebCall.Quiet := by
  induction fuel generalizing p with
  | zero => cases p <;> trivial
  | succ fuel ih =>
    cases p with
    | headers | body => exact ⟨trivial, fun r => ih _⟩
    | overrun | returned | accepted => trivial

/-- Nothing is sent or stored before the answer is chosen. -/
theorem chooseAnswer_quiet (junk : Nat → UInt8) (fuel : Nat) :
    (chooseAnswer junk fuel).Only WebCall.Quiet := by
  refine (readWord_quiet 8 []).bind fun method => ?_
  cases method with
  | none => trivial
  | some method =>
    refine (readWord_quiet 2049 []).bind fun path => ?_
    cases path with
    | none => trivial
    | some path =>
      dsimp only
      split_ifs
      · exact answerGet_quiet fuel path
      · exact answerPost_quiet junk fuel _
      · trivial

/-! ### What becomes of an answer -/

/-- What follows the answer sends nothing and cannot fail. -/
theorem finish_trace (a : Answer) (status : Status) (s : σ) :
    offered ((finish a status).trace m s) = [] ∧
      ∀ e ∈ (finish a status).trace m s, Succeeds e := by
  cases a with
  | noContent text =>
    cases status with
    | success => simp [finish, Web.putClipboardText, offered, WebCall.bytes, Succeeds]
    | failure => simp [finish, offered]
  | _ => simp [finish, offered]

/-- What is sent of an answer. -/
theorem sendAnswer_trace (page : Page) (a : Answer) (s : σ) :
    offered ((sendAnswer page (some a)).trace m s) <+: (a.response page).render ∧
      ((∀ e ∈ (sendAnswer page (some a)).trace m s, Succeeds e) →
        offered ((sendAnswer page (some a)).trace m s) = (a.response page).render) := by
  have hsplit := Prog.trace_bind m (sendAll (a.pieces page)) (finish a) s
  rw [← a.pieces_flatten page]
  rcases sendAll_trace (m := m) (a.pieces page) s with
    ⟨hrun, hsent, hoffered⟩ | ⟨hrun, hfails, hoffered⟩
  · obtain ⟨s', hs'⟩ : ∃ s', (sendAll (a.pieces page)).run m s = (some .success, s') :=
      ⟨_, Prod.ext hrun rfl⟩
    simp only [hs'] at hsplit
    simp only [sendAnswer, hsplit, offered_append, hoffered, (finish_trace a .success s').1,
      List.append_nil]
    exact ⟨List.prefix_rfl, fun _ => trivial⟩
  · obtain ⟨s', hs'⟩ : ∃ s', (sendAll (a.pieces page)).run m s = (some .failure, s') :=
      ⟨_, Prod.ext hrun rfl⟩
    simp only [hs', finish_failure, Prog.trace_ret, List.append_nil] at hsplit
    simp only [sendAnswer, hsplit]
    exact ⟨hoffered, fun hall => absurd hall hfails⟩

/-- What is behind a list that has no such element lies in the other one. -/
theorem split_of_not_mem {α : Type} {P : α → Prop} {xs ys before after : List α} {e : α}
    (h : xs ++ ys = before ++ e :: after) (hxs : ∀ x ∈ xs, ¬ P x) (he : P e) :
    ∃ before', before = xs ++ before' ∧ ys = before' ++ e :: after := by
  rcases List.append_eq_append_iff.mp h with ⟨bs, hbefore, hys⟩ | ⟨bs, hxs', hafter⟩
  · exact ⟨bs, hbefore, hys⟩
  · cases bs with
    | nil => exact ⟨[], by simpa using hxs'.symm, by simpa using hafter.symm⟩
    | cons b bs =>
      obtain ⟨rfl, -⟩ := List.cons.inj hafter
      exact absurd he (hxs e (by rw [hxs']; simp))

/-- A text is stored only if it was posted, and after the client was told so. -/
theorem sendAnswer_stores (page : Page) (a : Answer) (s : σ) {before after : List (Event WebCalls)}
    {e : Event WebCalls} (h : (sendAnswer page (some a)).trace m s = before ++ e :: after)
    {text : Bytes} (hput : e.1 = .putClipboardText text) :
    a = .noContent text ∧ delivered before = (a.response page).render := by
  have hputs := (sendAll_only (a.pieces page)).trace m s
  have hsplit := Prog.trace_bind m (sendAll (a.pieces page)) (finish a) s
  have hnoput : ∀ x ∈ (sendAll (a.pieces page)).trace m s,
      ¬ ∃ text, x.1 = .putClipboardText text := fun x hx ⟨text, htext⟩ => hputs x hx text htext
  rw [sendAnswer, hsplit] at h
  rcases sendAll_trace (m := m) (a.pieces page) s with ⟨hrun, hsent, -⟩ | ⟨hrun, -, -⟩
  · obtain ⟨s', hs'⟩ : ∃ s', (sendAll (a.pieces page)).run m s = (some .success, s') :=
      ⟨_, Prod.ext hrun rfl⟩
    simp only [hs'] at h
    obtain ⟨before', rfl, hfinish⟩ := split_of_not_mem h hnoput ⟨text, hput⟩
    cases a with
    | noContent posted =>
      simp only [finish, Web.putClipboardText, Prog.ask_bind, Prog.trace_call, Prog.pure_eq,
        Prog.trace_ret] at hfinish
      cases before' with
      | nil =>
        obtain ⟨rfl, -⟩ := List.cons.inj hfinish
        cases hput
        rw [List.append_nil, hsent]
        exact ⟨rfl, Answer.pieces_flatten page _⟩
      | cons b bs => simp at hfinish
    | _ => simp [finish] at hfinish
  · obtain ⟨s', hs'⟩ : ∃ s', (sendAll (a.pieces page)).run m s = (some .failure, s') :=
      ⟨_, Prod.ext hrun rfl⟩
    simp only [hs', finish_failure, Prog.trace_ret] at h
    obtain ⟨before', -, hnil⟩ := split_of_not_mem h hnoput ⟨text, hput⟩
    simp at hnil

/-! ### What the function waits for -/

/-- What `read_sock_no_wait` has put into a buffer of at most 256 bytes. -/
def Data.ofRead {size : Nat} (hsize : size ≤ 256)
    (data : {data : Bytes // 0 < data.length ∧ data.length ≤ size}) : Data where
  bytes := data.1
  pos := data.2.1
  le := data.2.2.trans hsize

/-- What a loop of a POST request has read: its buffer has 256 bytes. -/
def readOf : Event WebCalls → Option ReadResult
  | ⟨.readSockNoWait size, r⟩ =>
      if h : size = 256 then some (Option.map (Data.ofRead h.le) r) else none
  | _ => none

/-- What the loops of a POST request have read. -/
def postReads (events : List (Event WebCalls)) : List ReadResult := events.filterMap readOf

def WebCall.polls : WebCall → Bool
  | .readSockNoWait _ => true
  | _ => false

/-- How often the function has looked for data that has arrived. -/
def polls (events : List (Event WebCalls)) : Nat := events.countP fun e => e.1.polls

/-- The program always returns. -/
def Returns {α : Type} (m : Machine WebCalls σ) (p : WebProc α) : Prop :=
  ∀ s, ∃ a s', p.run m s = (some a, s')

/-- A program that does not come back, before one that always does. -/
theorem waits_bind {α β : Type} {p : WebProc α} {f : α → WebProc β} (hf : ∀ a, Returns m (f a))
    {s : σ} (h : ((p >>= f).run m s).1 = none) :
    (p.run m s).1 = none ∧ (p >>= f).trace m s = p.trace m s := by
  obtain ⟨r, s', hrun⟩ : ∃ r s', p.run m s = (r, s') := ⟨_, _, rfl⟩
  cases r with
  | none =>
    rw [Prog.trace_bind, hrun]
    exact ⟨rfl, List.append_nil _⟩
  | some a =>
    obtain ⟨b, s'', hb⟩ := hf a s'
    rw [Prog.run_bind_of_some m hrun, hb] at h
    cases h

theorem returns_readWord (left : Nat) (word : Bytes) : Returns m (Web.readWordFrom left word) := by
  induction left generalizing word with
  | zero => exact fun s => ⟨none, s, rfl⟩
  | succ left ih =>
    intro s
    obtain ⟨r, s', hr⟩ : ∃ (r : Option UInt8) (s' : σ), m .readSock s = (r, s') := ⟨_, _, rfl⟩
    simp only [Web.readWordFrom, Web.readSock, Prog.ask_bind, Prog.run_call, hr, id]
    cases r with
    | none => exact ⟨none, s', rfl⟩
    | some b =>
      dsimp only
      split
      · exact ⟨some word, s', rfl⟩
      · exact ih _ s'

theorem returns_sendAll (pieces : List Bytes) : Returns m (sendAll pieces) := by
  intro s
  rcases sendAll_trace (m := m) pieces s with ⟨hrun, -⟩ | ⟨hrun, -⟩
  · exact ⟨_, _, Prod.ext hrun rfl⟩
  · exact ⟨_, _, Prod.ext hrun rfl⟩

theorem returns_sendAnswer (page : Page) (a : Option Answer) : Returns m (sendAnswer page a) := by
  cases a with
  | none => exact fun s => ⟨(), s, rfl⟩
  | some a =>
    intro s
    obtain ⟨status, s', hrun⟩ := returns_sendAll (m := m) (a.pieces page) s
    rw [sendAnswer, Prog.run_bind_of_some m hrun]
    cases a with
    | noContent text => cases status <;> exact ⟨(), _, rfl⟩
    | _ => exact ⟨(), s', rfl⟩

/-- The rest of a GET request is thrown away, unless the function still waits for its end. -/
theorem discardRequest_waits (fuel : Nat) (s : σ)
    (h : ((Web.discardRequest fuel).run m s).1 = none) :
    fuel ≤ polls ((Web.discardRequest fuel).trace m s) := by
  induction fuel generalizing s with
  | zero => exact Nat.zero_le _
  | succ fuel ih =>
    obtain ⟨r, s', hr⟩ : ∃ (r : Option _) (s' : σ), m (.readSockNoWait 128) s = (r, s') :=
      ⟨_, _, rfl⟩
    simp only [Web.discardRequest, Web.readSockNoWait, Prog.ask_bind, Prog.run_call,
      Prog.trace_call, hr, id] at h ⊢
    cases r with
    | none => cases h
    | some data =>
      have hrest := ih s' h
      simp only [polls, List.countP_cons, WebCall.polls, if_true] at hrest ⊢
      omega

theorem answerGet_waits (fuel : Nat) (path : Bytes) (s : σ)
    (h : ((answerGet fuel path).run m s).1 = none) :
    fuel ≤ polls ((answerGet fuel path).trace m s) := by
  have hrest : ((Web.discardRequest fuel).run m s).1 = none ∧
      (answerGet fuel path).trace m s = (Web.discardRequest fuel).trace m s := by
    refine waits_bind (fun _ s => ?_) h
    split
    · exact ⟨_, s, rfl⟩
    · split
      · obtain ⟨r, s', hr⟩ : ∃ (r : Option Blob) (s' : σ), m .getClipboardText s = (r, s') :=
          ⟨_, _, rfl⟩
        simp only [Web.getClipboardText, Prog.ask_bind, Prog.run_call, hr, id]
        cases r with
        | none => exact ⟨_, s', rfl⟩
        | some clip =>
          dsimp only
          split <;> exact ⟨_, s', rfl⟩
      · split
        · obtain ⟨r, s', hr⟩ : ∃ (r : Option Blob) (s' : σ), m .getImage s = (r, s') := ⟨_, _, rfl⟩
          simp only [Web.getImage, Prog.ask_bind, Prog.run_call, hr, id]
          cases r with
          | none => exact ⟨_, s', rfl⟩
          | some clip =>
            dsimp only
            split <;> exact ⟨_, s', rfl⟩
        · exact ⟨_, s, rfl⟩
  rw [hrest.2]
  exact discardRequest_waits fuel s hrest.1

/-- The loops of a POST request come to an end, unless something is written outside of a block or
    the function still waits. -/
theorem answerPost_waits (junk : Nat → UInt8) (fuel : Nat) (p : Post) (s : σ)
    (h : ((answerPost junk fuel p).run m s).1 = none) :
    (postReads ((answerPost junk fuel p).trace m s)).foldl (Post.receive junk) p = .overrun ∨
      fuel ≤ polls ((answerPost junk fuel p).trace m s) := by
  induction fuel generalizing p s with
  | zero => exact .inr (Nat.zero_le _)
  | succ fuel ih =>
    have hturn : ∀ p', answerPost junk (fuel + 1) p' = (Web.readSockNoWait 256 >>= fun r =>
        answerPost junk fuel (p'.receive junk (Option.map (Data.ofRead le_rfl) r))) →
        ((answerPost junk (fuel + 1) p').run m s).1 = none →
        (postReads ((answerPost junk (fuel + 1) p').trace m s)).foldl (Post.receive junk) p' =
          .overrun ∨ fuel + 1 ≤ polls ((answerPost junk (fuel + 1) p').trace m s) := by
      intro p' hp h
      rw [hp] at h ⊢
      rcases ih _ _ h with hover | hwait
      · exact .inl hover
      · refine .inr ?_
        show fuel + 1 ≤ List.countP _ (_ :: _)
        rw [List.countP_cons_of_pos rfl]
        exact Nat.succ_le_succ hwait
    cases p with
    | accepted text => cases h
    | returned => cases h
    | overrun => exact .inl rfl
    | headers b => exact hturn _ rfl h
    | body b => exact hturn _ rfl h

/-- The request line is read byte by byte. -/
theorem readWord_reads (left : Nat) (word : Bytes) (s : σ) :
    postReads ((Web.readWordFrom left word).trace m s) = [] := by
  induction left generalizing word s with
  | zero => rfl
  | succ left ih =>
    obtain ⟨r, s', hr⟩ : ∃ (r : Option UInt8) (s' : σ), m .readSock s = (r, s') := ⟨_, _, rfl⟩
    simp only [Web.readWordFrom, Web.readSock, Prog.ask_bind, Prog.trace_call, hr, id]
    cases r with
    | none => rfl
    | some b =>
      dsimp only
      split
      · rfl
      · exact ih _ s'

/-- The function does not come back before it has chosen an answer only if it writes outside of a
    block, or still waits. -/
theorem chooseAnswer_waits (junk : Nat → UInt8) (fuel : Nat) (s : σ)
    (h : ((chooseAnswer junk fuel).run m s).1 = none) :
    Post.after junk (postReads ((chooseAnswer junk fuel).trace m s)) = .overrun ∨
      fuel ≤ polls ((chooseAnswer junk fuel).trace m s) := by
  have hword : ∀ (size : Nat) (f : Option Bytes → WebProc (Option Answer)) (s : σ),
      ((Web.readWord size >>= f).run m s).1 = none →
      (∀ word s', ((f word).run m s').1 = none →
        Post.after junk (postReads ((f word).trace m s')) = .overrun ∨
          fuel ≤ polls ((f word).trace m s')) →
      Post.after junk (postReads ((Web.readWord size >>= f).trace m s)) = .overrun ∨
        fuel ≤ polls ((Web.readWord size >>= f).trace m s) := by
    intro size f s h hf
    obtain ⟨word, s', hrun⟩ := returns_readWord (m := m) size [] s
    have hreads : postReads ((Web.readWord size).trace m s) = [] := readWord_reads size [] s
    have hrun' : (Web.readWord size).run m s = (some word, s') := hrun
    rw [Prog.run_bind_of_some m hrun'] at h
    rw [Prog.trace_bind, hrun']
    refine (hf word s' h).imp (fun hover => ?_) (fun hwait => ?_)
    · rwa [postReads, List.filterMap_append, ← postReads, hreads, List.nil_append]
    · rw [polls, List.countP_append]
      exact hwait.trans (Nat.le_add_left _ _)
  unfold chooseAnswer at h ⊢
  refine hword 8 _ s h fun method s h => ?_
  cases method with
  | none => cases h
  | some method =>
    refine hword 2049 _ s h fun path s h => ?_
    cases path with
    | none => cases h
    | some path =>
      dsimp only at h ⊢
      by_cases hget : cstr method = ascii "GET"
      · rw [if_pos hget] at h ⊢
        exact .inr (answerGet_waits fuel path s h)
      · rw [if_neg hget] at h ⊢
        by_cases hpost : cstr method = ascii "POST"
        · rw [if_pos hpost] at h ⊢
          exact answerPost_waits junk fuel _ s h
        · rw [if_neg hpost] at h
          cases h

/-! ### What clients read -/

/-- A text is stored only if it was posted, and after the client has got all of the answer. -/
theorem stored_told (page : Page) (a : Answer) (s : σ) {bytes : Bytes}
    (hr : Received ((sendAnswer page (some a)).trace m s) bytes)
    {before after : List (Event WebCalls)} {e : Event WebCalls}
    (htrace : (sendAnswer page (some a)).trace m s = before ++ e :: after) {text : Bytes}
    (hput : e.1 = .putClipboardText text) :
    a = .noContent text ∧ delivered before = ((Answer.noContent text).response page).render ∧
      Http.parse bytes = some ((Answer.noContent text).response page) := by
  obtain ⟨hpart, -⟩ := sendAnswer_trace (m := m) page a s
  obtain ⟨rfl, hall⟩ := sendAnswer_stores page a s htrace hput
  -- all of it was sent before the text is stored, so that the client has got it
  have hsent : ((Answer.noContent text).response page).render <+: bytes := by
    refine List.IsPrefix.trans ?_ hr.sent
    rw [htrace, delivered_append, hall]
    exact List.prefix_append _ _
  have hbytes := (hr.written.trans hpart).eq_of_length_le hsent.length_le
  exact ⟨rfl, hall, by rw [hbytes, Http.parse_render]⟩

/-- **Answers.**  Whatever a client sends, whatever fails and whatever the host has, as long as
    nothing is written outside of a block: a client gets the first bytes of the response that was
    chosen, and what it can read as a response is all of that one; if no write fails, it gets all of
    it; a text is stored only if it was posted and after the client was told so; and the function
    comes back, or still waits for data. -/
theorem web_answers (page : Page) (junk : Nat → UInt8) (fuel : Nat) (s : σ) {bytes : Bytes}
    (h : Received ((receiverWeb page junk fuel).trace m s) bytes)
    (hinside : Post.after junk (postReads ((receiverWeb page junk fuel).trace m s)) ≠ .overrun) :
    (bytes = [] ∨ ∃ a, ((chooseAnswer junk fuel).run m s).1 = some (some a) ∧
      bytes <+: (a.response page).render) ∧
    (∀ r, Http.parse bytes = some r →
      ∃ a, ((chooseAnswer junk fuel).run m s).1 = some (some a) ∧ r = a.response page) ∧
    ((∀ e ∈ (receiverWeb page junk fuel).trace m s, Succeeds e) →
      ∀ a, ((chooseAnswer junk fuel).run m s).1 = some (some a) →
        Http.parse bytes = some (a.response page)) ∧
    (∀ before e after, (receiverWeb page junk fuel).trace m s = before ++ e :: after →
      ∀ text, e.1 = .putClipboardText text →
        ((chooseAnswer junk fuel).run m s).1 = some (some (.noContent text)) ∧
          delivered before = ((Answer.noContent text).response page).render ∧
          Http.parse bytes = some ((Answer.noContent text).response page)) ∧
    (((receiverWeb page junk fuel).run m s).1 = none →
      fuel ≤ polls ((receiverWeb page junk fuel).trace m s)) := by
  have hquiet := (chooseAnswer_quiet junk fuel).trace m s
  have hnoput : ∀ e ∈ (chooseAnswer junk fuel).trace m s,
      ¬ ∃ text, e.1 = .putClipboardText text := fun e he ⟨text, htext⟩ =>
    not_put_quiet hquiet he text htext
  have hsplit := Prog.trace_bind m (chooseAnswer junk fuel) (sendAnswer page) s
  rw [← receiverWeb_eq] at hsplit
  obtain ⟨chosen, s', hrun⟩ : ∃ chosen s', (chooseAnswer junk fuel).run m s = (chosen, s') :=
    ⟨_, _, rfl⟩
  have hwaits : ((receiverWeb page junk fuel).run m s).1 = none →
      fuel ≤ polls ((receiverWeb page junk fuel).trace m s) := by
    intro hnone
    rw [receiverWeb_eq] at hnone hinside ⊢
    obtain ⟨hchoose, htrace⟩ := waits_bind (returns_sendAnswer page) hnone
    rw [htrace] at hinside ⊢
    exact (chooseAnswer_waits junk fuel s hchoose).resolve_left hinside
  simp only [hrun] at hsplit ⊢
  cases hchosen : chosen.join with
  | none =>
    -- without an answer nothing is sent
    have hsilent : (receiverWeb page junk fuel).trace m s = (chooseAnswer junk fuel).trace m s := by
      rcases chosen with _ | _ | a
      · simpa using hsplit
      · simpa [sendAnswer] using hsplit
      · cases hchosen
    rw [hsilent] at h ⊢
    refine ⟨.inl (bytes_of_quiet h hquiet), fun r hr => ?_, ?_,
      fun before e after he text hput => ?_, hsilent ▸ hwaits⟩
    · rw [bytes_of_quiet h hquiet] at hr
      cases hr
    · rintro - a rfl
      cases hchosen
    · exact absurd ⟨text, hput⟩ (hnoput e (by rw [he]; simp))
  | some a =>
    obtain rfl : chosen = some (some a) := Option.join_eq_some_iff.mp hchosen
    obtain ⟨hpart, hwhole⟩ := sendAnswer_trace (m := m) page a s'
    refine ⟨?_, ?_, ?_, ?_, hwaits⟩
    all_goals
      rw [hsplit] at h
      have hr := h.of_quiet_append hquiet
    · exact .inr ⟨a, rfl, hr.written.trans hpart⟩
    · intro r hparse
      exact ⟨a, rfl, (Http.parse_prefix (a.announced page) (hr.written.trans hpart) hparse).2⟩
    · rw [hsplit]
      rintro hall _ ⟨⟩
      have hsucceeds : ∀ e ∈ (sendAnswer page (some a)).trace m s', Succeeds e :=
        fun e he => hall e (List.mem_append_right _ he)
      apply hr.parse_of_delivered hpart
      rw [delivered_of_succeeds hsucceeds, hwhole hsucceeds]
    · intro before e after he text hput
      rw [hsplit] at he
      obtain ⟨before', rfl, hanswer⟩ := split_of_not_mem he hnoput ⟨text, hput⟩
      obtain ⟨rfl, hall, hparse⟩ := stored_told page a s' hr hanswer hput
      have hfirst : delivered ((chooseAnswer junk fuel).trace m s) = [] := by
        rw [delivered_of_succeeds (succeeds_quiet hquiet), offered_quiet hquiet]
      refine ⟨rfl, ?_, hparse⟩
      rw [delivered_append, hfirst, List.nil_append, hall]

/-- A client that asks for the clipboard and takes 20 bytes. -/
def shortOfRoom : WebHost where
  input := ascii "GET /clip "
  arrivals := []
  room := 20
  sent := []
  clipboard := some ⟨ascii "text", by decide⟩
  image := none

theorem web_answers_short :
    Received ((receiverWeb ⟨[], by decide⟩ (fun _ => 0) 1).trace respondWeb shortOfRoom)
        (ascii "HTTP/1.0 200 OK\r\nCon") ∧
      (∃ a, ((chooseAnswer (fun _ => 0) 1).run respondWeb shortOfRoom).1 = some (some a) ∧
        ascii "HTTP/1.0 200 OK\r\nCon" <+: (a.response ⟨[], by decide⟩).render) ∧
      ∀ r, Http.parse (ascii "HTTP/1.0 200 OK\r\nCon") = some r →
        ∃ a, ((chooseAnswer (fun _ => 0) 1).run respondWeb shortOfRoom).1 = some (some a) ∧
          r = a.response ⟨[], by decide⟩ := by
  have hreceived : Received
      ((receiverWeb ⟨[], by decide⟩ (fun _ => 0) 1).trace respondWeb shortOfRoom)
      (ascii "HTTP/1.0 200 OK\r\nCon") := ⟨by decide, by decide⟩
  have hinside : Post.after (fun _ => 0) (postReads
      ((receiverWeb ⟨[], by decide⟩ (fun _ => 0) 1).trace respondWeb shortOfRoom)) ≠ .overrun := by
    have hreads : postReads
        ((receiverWeb ⟨[], by decide⟩ (fun _ => 0) 1).trace respondWeb shortOfRoom) = [] := by
      decide
    rw [hreads]
    intro h
    cases h
  obtain ⟨hfirst, hparse, -⟩ := web_answers _ _ _ _ hreceived hinside
  exact ⟨hreceived, hfirst.resolve_left (by decide), hparse⟩

end ClipShare
