import ClipShare.Interaction.Relate
import ClipShare.Verify.Exchange

namespace ClipShare

open Interaction Posix Prog

/-!
# Get Any and the specific methods

`get_any_v4` has bodies of its own for a text, for files and for an image.  They write what the
methods for these write, with the type of the data after the status.

* `Steady` — surroundings that answer the same call in the same way, whenever it is issued;
* `Shift` — two states that differ in what was written before, and in nothing that is seen later;
* `announce` — what Get Any makes of the reply of a specific method;
* `announced_body` / `noData_body` — the two ways in which the bodies differ from the methods;
* `getAny_agrees` — Get Any and the method for the type that the clipboard reports.
-/

/-- Surroundings whose answer to a call depends on the call and the state of the host alone. -/
abbrev Steady := Call → Oracle

/-- A machine with such surroundings: how a call ends does not depend on how many came before. -/
def respondIn (s : Steady) : Machine Calls (Session × Host) :=
  fun c (l, h) => respond c ({ l with oracle := s c, calls := 0 }, h)

/-- Two states that will be seen alike: they differ in what was written, by `b` and `b'`. -/
structure Shift (b b' : Bytes) (x y : Session × Host) : Prop where
  host : y.2 = x.2
  input : y.1.input = x.1.input
  closed : y.1.closed = x.1.closed
  output : ∃ w, x.1.output = b ++ w ∧ y.1.output = b' ++ w

/-- Off the socket, the answer and what becomes of the host do not depend on the session. -/
theorem respond_congr {c : Call} (hc : c.onSocket = false) {l l' : Session}
    (horacle : l'.oracle = l.oracle) (hcalls : l'.calls = l.calls) (h : Host) :
    (respond c (l', h)).1 = (respond c (l, h)).1 ∧
      (respond c (l', h)).2.2 = (respond c (l, h)).2.2 := by
  have hfault : l'.fault = l.fault := by
    unfold Session.fault
    rw [horacle, hcalls]
  have hexec : (execute c (l', h)).1 = (execute c (l, h)).1 ∧
      (execute c (l', h)).2.2 = (execute c (l, h)).2.2 := by
    cases c with
    | readSock | writeSock | closeSocket => cases hc
    | access | mkdir | rmdir | rename | remove | openWrite =>
      simp only [execute]
      split <;> exact ⟨rfl, rfl⟩
    | fwrite ino off data =>
      have hwritten : l'.written data = l.written data := by
        unfold Session.written
        rw [horacle, hcalls]
      simp only [execute, hwritten, and_self]
    | readDir | time | rand =>
      simp only [execute, horacle, hcalls, and_self]
    | _ => exact ⟨rfl, rfl⟩
  simp only [respond, hfault]
  split
  · exact ⟨rfl, rfl⟩
  · exact hexec

variable {s : Steady} {b b' : Bytes} {x y : Session × Host}

/-- Reading treats shifted states alike. -/
theorem Shift.readSock {l l' : Session} {h : Host} (hxy : Shift b b' (l, h) (l', h))
    (horacle : l'.oracle = l.oracle) (hcalls : l'.calls = l.calls) (n : Nat) :
    (l'.readSock n).1 = (l.readSock n).1 ∧
      Shift b b' ((l.readSock n).2, h) ((l'.readSock n).2, h) := by
  have hin : l'.input = l.input := hxy.input
  have hclosed : l'.closed = l.closed := hxy.closed
  have htick : Shift b b' (l.tick, h) (l'.tick, h) := ⟨rfl, hin, hclosed, hxy.output⟩
  unfold Session.readSock
  rw [hin, hclosed, horacle, hcalls]
  split
  · exact ⟨rfl, htick⟩
  · split
    · exact ⟨rfl, htick⟩
    · split <;> exact ⟨rfl, rfl, rfl, hclosed, hxy.output⟩

/-- Writing treats shifted states alike. -/
theorem Shift.writeSock {l l' : Session} {h : Host} (hxy : Shift b b' (l, h) (l', h))
    (horacle : l'.oracle = l.oracle) (hcalls : l'.calls = l.calls) (data : Bytes) :
    (l'.writeSock data).1 = (l.writeSock data).1 ∧
      Shift b b' ((l.writeSock data).2, h) ((l'.writeSock data).2, h) := by
  have hin : l'.input = l.input := hxy.input
  have hclosed : l'.closed = l.closed := hxy.closed
  obtain ⟨w, hw, hw'⟩ := hxy.output
  have hw : l.output = b ++ w := hw
  have hw' : l'.output = b' ++ w := hw'
  have htick : Shift b b' (l.tick, h) (l'.tick, h) := ⟨rfl, hin, hclosed, w, hw, hw'⟩
  unfold Session.writeSock
  rw [hclosed, horacle, hcalls]
  split
  · exact ⟨rfl, htick⟩
  · split
    · exact ⟨rfl, htick⟩
    · rw [hw, hw']
      split <;> exact ⟨rfl, rfl, hin, hclosed, _, List.append_assoc .., List.append_assoc ..⟩

/-- Closing the socket treats shifted states alike. -/
theorem Shift.closeSocket {l l' : Session} {h : Host} (hxy : Shift b b' (l, h) (l', h))
    (await : Bool) : Shift b b' (l.closeSocket await, h) (l'.closeSocket await, h) := by
  have hin : l'.input = l.input := hxy.input
  have hclosed : l'.closed = l.closed := hxy.closed
  unfold Session.closeSocket
  rw [hin, hclosed]
  split
  · exact ⟨rfl, hin, hclosed, hxy.output⟩
  · exact ⟨rfl, rfl, rfl, hxy.output⟩

/-- **Step lemma.**  A call treats shifted states alike. -/
theorem respondIn_shift (c : Call) (x y : Session × Host) (hxy : Shift b b' x y) :
    (respondIn s c x).1 = (respondIn s c y).1 ∧
      Shift b b' (respondIn s c x).2 (respondIn s c y).2 := by
  obtain ⟨l, h⟩ := x
  obtain ⟨l', h'⟩ := y
  have hhost : h' = h := hxy.host
  subst hhost
  have hstart : Shift b b' ({ l with oracle := s c, calls := 0 }, h')
      ({ l' with oracle := s c, calls := 0 }, h') := ⟨rfl, hxy.input, hxy.closed, hxy.output⟩
  show (respond c _).1 = (respond c _).1 ∧ Shift b b' (respond c _).2 (respond c _).2
  -- calls on the socket only add to the output, the others do not see the connection
  cases hc : c.onSocket with
  | true =>
    cases c with
    | readSock n =>
      rw [respond_readSock, respond_readSock]
      obtain ⟨hans, hnext⟩ := hstart.readSock rfl rfl n
      exact ⟨hans.symm, hnext⟩
    | writeSock data =>
      rw [respond_writeSock, respond_writeSock]
      obtain ⟨hans, hnext⟩ := hstart.writeSock rfl rfl data
      exact ⟨hans.symm, hnext⟩
    | closeSocket await shutdown =>
      rw [respond_closeSocket, respond_closeSocket]
      exact ⟨rfl, hstart.closeSocket await⟩
    | _ => cases hc
  | false =>
    obtain ⟨hin, hout, hclosed, -⟩ :=
      respond_sameSocket hc { l with oracle := s c, calls := 0 } h'
    obtain ⟨hin', hout', hclosed', -⟩ :=
      respond_sameSocket hc { l' with oracle := s c, calls := 0 } h'
    obtain ⟨hans, hhost⟩ := @respond_congr c hc { l with oracle := s c, calls := 0 }
      { l' with oracle := s c, calls := 0 } rfl rfl h'
    obtain ⟨w, hw, hw'⟩ := hstart.output
    exact ⟨hans.symm, hhost, hin'.trans (hxy.input.trans hin.symm),
      hclosed'.trans (hxy.closed.trans hclosed.symm), w, hout.trans hw, hout'.trans hw'⟩

/-- A program treats shifted states alike. -/
theorem shift_self {α : Type} (p : Proc α) :
    Related (respondIn s) (Shift b b') p p (fun a a' x y => a = a' ∧ Shift b b' x y)
      (Shift b b') := related_self respondIn_shift p

/-! ### Replies -/

/-- What Get Any makes of the reply of a specific method: the type follows the status, if that
    is OK. -/
def announce (t : CopiedType) : Bytes → Bytes
  | [] => []
  | status :: w => if status = statusOk then status :: t.code :: w else status :: w

/-- From the output `b` on, the one wrote a reply, and the other what Get Any makes of it. -/
def Announced (b : Bytes) (t : CopiedType) (x y : Session × Host) : Prop :=
  ∃ w, x.1.output = b ++ w ∧ y.1.output = b ++ announce t w

/-- From the output `b` on, both wrote `w`. -/
def Wrote (b w : Bytes) (x y : Session × Host) : Prop := Shift b b x y ∧ x.1.output = b ++ w

/-- Both end with the same status, after a reply and what Get Any makes of it; after a success
    they will be seen alike. -/
def Reply (b : Bytes) (t : CopiedType) (a a' : Status) (x y : Session × Host) : Prop :=
  a = a' ∧ Announced b t x y ∧
    (a = .success → Shift (b ++ [statusOk]) (b ++ [statusOk, t.code]) x y)

variable {t : CopiedType}

/-- A reply that is not OK is left as it is. -/
theorem Wrote.announced {w : Bytes} (hxy : Wrote b w x y) (hw : announce t w = w) :
    Announced b t x y := by
  obtain ⟨hshift, hout⟩ := hxy
  obtain ⟨w', hw', hout'⟩ := hshift.output
  have hsame : y.1.output = x.1.output := hout'.trans hw'.symm
  exact ⟨w, hout, by rw [hsame, hw, hout]⟩

/-- After the type was written, the rest of the reply is the same. -/
theorem Shift.announced (hxy : Shift (b ++ [statusOk]) (b ++ [statusOk, t.code]) x y) :
    Announced b t x y := by
  obtain ⟨w, hw, hw'⟩ := hxy.output
  refine ⟨statusOk :: w, ?_, ?_⟩
  · rw [hw, List.append_assoc]
    rfl
  · rw [hw', List.append_assoc]
    rfl

/-- Closing the socket writes nothing. -/
theorem close_output (await shutdown : Bool) (x : Session × Host) :
    (respondIn s (.closeSocket await shutdown) x).2.1.output = x.1.output := by
  obtain ⟨l, h⟩ := x
  show (respond _ _).2.1.output = l.output
  rw [respond_closeSocket]
  exact Session.closeSocket_output ..

/-- A byte is written, or nothing is. -/
theorem writeByte_cases (v : UInt8) (x : Session × Host) :
    ((respondIn s (.writeSock [v]) x).1 = true ∧
      (respondIn s (.writeSock [v]) x).2.1.output = x.1.output ++ [v] ∧
      (respondIn s (.writeSock [v]) x).2.1.closed = false) ∨
    ((respondIn s (.writeSock [v]) x).1 = false ∧
      (respondIn s (.writeSock [v]) x).2.1.output = x.1.output) := by
  obtain ⟨l, h⟩ := x
  have heq : respondIn s (.writeSock [v]) (l, h)
      = respond (.writeSock [v]) ({ l with oracle := s (.writeSock [v]), calls := 0 }, h) := rfl
  rw [heq, respond_writeSock]
  rcases Session.writeSock_byte_cases { l with oracle := s (.writeSock [v]), calls := 0 } v with
    ⟨hopen, -, hwrite⟩ | ⟨l', hwrite, hout⟩
  · rw [hwrite]
    exact .inl ⟨rfl, rfl, hopen⟩
  · rw [hwrite]
    exact .inr ⟨rfl, hout⟩

/-- Both write the same byte first. -/
theorem writeByte_related {α β : Type} {v : UInt8} {k : Bool → Proc α} {k' : Bool → Proc β}
    {E : α → β → Session × Host → Session × Host → Prop}
    {N : Session × Host → Session × Host → Prop}
    (hok : Related (respondIn s) (fun x y => Wrote b [v] x y ∧ x.1.closed = false) (k true)
      (k' true) E N)
    (hfail : Related (respondIn s) (Wrote b []) (k false) (k' false) E N) :
    Related (respondIn s) (Wrote b []) (writeSock [v] >>= k) (writeSock [v] >>= k') E N := by
  intro x y hxy
  obtain ⟨hshift, hout⟩ := hxy
  rw [List.append_nil] at hout
  obtain ⟨hans, hnext⟩ := respondIn_shift (s := s) (.writeSock [v]) x y hshift
  show Paired E N ((k (respondIn s (.writeSock [v]) x).1).run _ (respondIn s (.writeSock [v]) x).2)
    ((k' (respondIn s (.writeSock [v]) y).1).run _ (respondIn s (.writeSock [v]) y).2)
  rcases writeByte_cases v x with ⟨htrue, hwrote, hopen⟩ | ⟨hfalse, hwrote⟩
  · rw [← hans, htrue]
    refine hok _ _ ⟨⟨hnext, ?_⟩, hopen⟩
    rw [hwrote, hout]
  · rw [← hans, hfalse]
    refine hfail _ _ ⟨hnext, ?_⟩
    rw [hwrote, hout, List.append_nil]

/-! ### Bodies -/

/-- After a failure, nothing is said about what will be seen later. -/
theorem related_failure :
    Related (respondIn s) (Announced b t) (.ret .failure) (.ret .failure) (Reply b t)
      (Announced b t) :=
  related_ret fun _ _ hxy => ⟨rfl, hxy, nofun⟩

/-- The specific method may close the socket after a failure. -/
theorem related_close_failure :
    Related (respondIn s) (Announced b t)
      (do
        closeSocketNoWait
        return .failure) (.ret .failure) (Reply b t) (Announced b t) := by
  refine related_left (Q := fun _ => Announced b t) (fun x y hxy => ?_) fun _ => related_failure
  obtain ⟨w, hw, hw'⟩ := hxy
  exact ⟨w, (close_output ..).trans hw, hw'⟩

/-- Where there is nothing to send, both say so. -/
theorem noData_body {p : Proc Status}
    (hp : Related (respondIn s) (Announced b t) p (.ret .failure) (Reply b t) (Announced b t)) :
    Related (respondIn s) (Wrote b [])
      (do
        let _ ← writeSock [statusNoData]
        p)
      (do
        let _ ← writeSock [statusNoData]
        return .failure) (Reply b t) (Announced b t) := by
  apply writeByte_related
  · exact hp.mono (fun x y hxy => hxy.1.announced rfl) (fun _ _ _ _ h => h) fun _ _ h => h
  · exact hp.mono (fun x y hxy => hxy.announced rfl) (fun _ _ _ _ h => h) fun _ _ h => h

/-- Where there is something to send, Get Any puts the type after the status. -/
theorem announced_body (htype : (s (.writeSock [t.code])).write 0 = none) (body : Proc Status) :
    Related (respondIn s) (Wrote b [])
      (do if !(← writeSock [statusOk]) then return .failure else body)
      (do
        if !(← writeSock [statusOk]) then return .failure
        else if !(← writeSock [t.code]) then return .failure
        else body) (Reply b t) (Announced b t) := by
  apply writeByte_related
  · -- the type is written, and then both go on in the same way
    have hcode : ∀ x y : Session × Host, Wrote b [statusOk] x y ∧ x.1.closed = false →
        (respondIn s (.writeSock [t.code]) y).1 = true ∧
          Shift (b ++ [statusOk]) (b ++ [statusOk, t.code]) x
            (respondIn s (.writeSock [t.code]) y).2 := by
      rintro x ⟨l, h⟩ ⟨⟨hshift, hout⟩, hopen⟩
      have hopen' : l.closed = false := hshift.closed.trans hopen
      obtain ⟨w, hw, hw'⟩ := hshift.output
      have hout' : l.output = b ++ [statusOk] := by
        have hsame : l.output = x.1.output := hw'.trans hw.symm
        rw [hsame, hout]
      have heq : respondIn s (.writeSock [t.code]) (l, h) = respond (.writeSock [t.code])
          ({ l with oracle := s (.writeSock [t.code]), calls := 0 }, h) := rfl
      rw [heq, respond_writeSock]
      rw [@Session.writeSock_ok { l with oracle := s (.writeSock [t.code]), calls := 0 } _ hopen'
        htype]
      refine ⟨rfl, hshift.host, hshift.input, hshift.closed, [], ?_, ?_⟩
      · rw [hout, List.append_nil]
      · show l.output ++ [t.code] = _
        rw [hout', List.append_nil, List.append_assoc]
        rfl
    refine related_right (Q := fun r x y => r = true ∧
      Shift (b ++ [statusOk]) (b ++ [statusOk, t.code]) x y) hcode fun r => ?_
    cases r with
    | false =>
      intro x y hxy
      cases hxy.1
    | true =>
      exact (shift_self body).mono (fun x y hxy => hxy.2)
        (fun a a' x y hxy => ⟨hxy.1, hxy.2.announced, fun _ => hxy.2⟩)
        fun x y hxy => hxy.announced
  · exact related_ret fun x y hxy => ⟨rfl, hxy.announced rfl, nofun⟩

/-- Both wait for the acknowledgement after a success. -/
theorem thenAck_finishAny {R : Session × Host → Session × Host → Prop} {p q : Proc Status}
    (h : Related (respondIn s) R p q (Reply b t) (Announced b t)) :
    Related (respondIn s) R (thenAck p) (finishAny q)
      (fun a a' x y => a = a' ∧ Announced b t x y) (Announced b t) := by
  -- closing the socket writes nothing
  have hclose : ∀ (await shutdown : Bool) (x y : Session × Host), Announced b t x y →
      Announced b t x (respondIn s (.closeSocket await shutdown) y).2 := by
    rintro await shutdown x y ⟨w, hw, hw'⟩
    exact ⟨w, hw, (close_output ..).trans hw'⟩
  apply h.bind
  intro a a'
  cases a with
  | failure =>
    cases a' with
    | success =>
      intro x y hxy
      cases hxy.1
    | failure =>
      refine related_right (Q := fun _ => Announced b t) (fun x y hxy => hclose _ _ _ _ hxy.2.1)
        fun _ => ?_
      exact related_ret fun x y hxy => ⟨rfl, hxy⟩
  | success =>
    cases a' with
    | failure =>
      intro x y hxy
      cases hxy.1
    | success =>
      have hack : Related (respondIn s) (Reply b t .success .success) readAck readAck
          (fun a a' x y => a = a' ∧ Shift (b ++ [statusOk]) (b ++ [statusOk, t.code]) x y)
          (Announced b t) :=
        (shift_self readAck).mono (fun x y hxy => hxy.2.2 rfl) (fun _ _ _ _ h => h)
          fun x y hxy => hxy.announced
      apply hack.bind
      intro r r' x y hxy
      obtain ⟨rfl, hshift⟩ := hxy
      have hxy := hshift.announced
      cases r with
      | failure => exact .returned ⟨rfl, hclose _ _ _ _ hxy⟩
      | success =>
        obtain ⟨w, hw, hw'⟩ := hclose false true _ _ hxy
        exact .returned ⟨rfl, w, (close_output ..).trans hw, hw'⟩

/-- Off the socket nothing is written. -/
theorem offSocket_related {α : Type} {p : Proc α} (hp : OffSocket p) :
    Related (respondIn s) (Wrote b []) p p (fun a a' x y => a = a' ∧ Wrote b [] x y)
      (Wrote b []) := by
  refine related_only (fun c hc x y hxy => ?_) hp
  obtain ⟨hshift, hout⟩ := hxy
  obtain ⟨hans, hnext⟩ := respondIn_shift (s := s) c x y hshift
  obtain ⟨l, h⟩ := x
  obtain ⟨-, hsame, -⟩ := respond_sameSocket hc { l with oracle := s c, calls := 0 } h
  exact ⟨hans, hnext, hsame.trans hout⟩

/-- Both begin with the same program off the socket. -/
theorem offSocket_bind {α : Type} {p : Proc α} (hp : OffSocket p) {f f' : α → Proc Status}
    {E : Status → Status → Session × Host → Session × Host → Prop}
    (hf : ∀ a, Related (respondIn s) (Wrote b []) (f a) (f' a) E (Announced b t)) :
    Related (respondIn s) (Wrote b []) (p >>= f) (p >>= f') E (Announced b t) := by
  have hself : Related (respondIn s) (Wrote b []) p p (fun a a' x y => a = a' ∧ Wrote b [] x y)
      (Announced b t) :=
    (offSocket_related hp).mono (fun _ _ h => h) (fun _ _ _ _ h => h) fun _ _ h => h.announced rfl
  apply hself.bind
  intro a a' x y hxy
  obtain ⟨rfl, hxy⟩ := hxy
  exact hf a x y hxy

/-! ### The three types -/

/-- `get_text_v1` and `_get_any_text`. -/
theorem anyText_related (env : Env)
    (htype : (s (.writeSock [CopiedType.text.code])).write 0 = none) :
    Related (respondIn s) (Wrote b []) (getTextV1 env) (getAnyText env) (Reply b .text)
      (Announced b .text) := by
  apply offSocket_bind (.xclipOut none)
  intro text
  cases text.filter (sendableText env) with
  | none => exact noData_body related_close_failure
  | some buf =>
    dsimp only
    split
    · exact noData_body related_failure
    · exact announced_body htype (sendData (convertEol buf))

/-- `_get_image_common` and `_get_any_image`. -/
theorem anyImage_related (env : Env)
    (htype : (s (.writeSock [CopiedType.image.code])).write 0 = none) :
    Related (respondIn s) (Wrote b []) (getImageCommon env .copiedOnly 0) (getAnyImage env)
      (Reply b .image) (Announced b .image) := by
  apply offSocket_bind (.getImage env .copiedOnly 0)
  intro image
  cases image.filter sendableImage with
  | none => exact noData_body related_close_failure
  | some buf => exact announced_body htype (sendData buf)

/-- `get_files_v4` and `_get_any_files`. -/
theorem anyFiles_related (env : Env)
    (htype : (s (.writeSock [CopiedType.file.code])).write 0 = none) :
    Related (respondIn s) (Wrote b []) (getFilesV4 env) (finishAny (getAnyFiles env))
      (fun a a' x y => a = a' ∧ Announced b .file x y) (Announced b .file) := by
  have hassoc : finishAny (getAnyFiles env) = getCopiedDirsFiles true >>= fun copied => _ :=
    Prog.bind_assoc ..
  rw [hassoc]
  apply offSocket_bind (.getCopiedDirsFiles true)
  intro copied
  apply thenAck_finishAny
  unfold getFilesCommon
  cases copied.lst.filter (sendableFiles env) with
  | none => exact noData_body related_close_failure
  | some files => exact announced_body htype _

/-! ### Get Any -/

/-- The method for a type of data. -/
def specificMethod (env : Env) : CopiedType → Option (Proc Status)
  | .none => none
  | .text => some (getTextV4 env)
  | .file => some (getFilesV4 env)
  | .image => some (getCopiedImageV4 env)

/-- Asking for a target leaves the state as it is, for all that is seen later. -/
theorem xclipOut_shift (target : Option Bytes) (hxy : Shift b b x y) :
    Shift b b x (respondIn s (.xclipOut target) y).2 := by
  obtain ⟨l, h⟩ := y
  obtain ⟨hin, hout, hclosed, -⟩ := @respond_sameSocket (.xclipOut target) rfl
    { l with oracle := s (.xclipOut target), calls := 0 } h
  have hhost : ∀ l' : Session, (respond (.xclipOut target) (l', h)).2.2 = h := by
    intro l'
    simp only [respond]
    split <;> rfl
  obtain ⟨w, hw, hw'⟩ := hxy.output
  exact ⟨(hhost _).trans hxy.host, hin.trans hxy.input, hclosed.trans hxy.closed, w, hw,
    hout.trans hw'⟩

theorem xclipTargets_inv : xclipTargets.Inv (respondIn s) (Shift b b x) := by
  refine ⟨fun y hxy => xclipOut_shift (some targetsName) hxy, fun r => ?_⟩
  rcases r with _ | ⟨targets, behind⟩
  · trivial
  · show Inv _ _ (if targets = [] then _ else _)
    split <;> trivial

/-- Looking at the type of the clipboard leaves the state as it is, for all that is seen later. -/
theorem getCopiedType_wrote (x : Session × Host) :
    Wrote x.1.output [] x (getCopiedType.run (respondIn s) x).2 := by
  have hinv : getCopiedType.Inv (respondIn s) (Shift x.1.output x.1.output x) := by
    apply Inv.bind xclipTargets_inv
    rintro (_ | ⟨targets, behind⟩) <;> trivial
  have hself : Shift x.1.output x.1.output x x :=
    ⟨rfl, rfl, rfl, [], (List.append_nil _).symm, (List.append_nil _).symm⟩
  exact ⟨hinv.run hself, (List.append_nil _).symm⟩

/-- Two runs that are paired as replies. -/
theorem paired_announced {o o' : Option Status × Session × Host}
    (h : Paired (fun a a' x y => a = a' ∧ Announced b t x y) (Announced b t) o o') :
    o'.1 = o.1 ∧ Announced b t o.2 o'.2 := by
  cases h with
  | returned h => exact ⟨congrArg some h.1.symm, h.2⟩
  | stopped h => exact ⟨rfl, h⟩

/-- **Get Any.**  If the clipboard reports a type, Get Any writes what the method for that type
    writes in the same state, with the type after a status that is OK, and has its status. -/
theorem getAny_agrees (env : Env) (s : Steady) (l : Session) (h : Host) {t : CopiedType}
    {method : Proc Status} (hreports : (getCopiedType.run (respondIn s) (l, h)).1 = some t)
    (hmethod : specificMethod env t = some method)
    (htype : (s (.writeSock [t.code])).write 0 = none) :
    ((getAnyV4 env).run (respondIn s) (l, h)).1 = (method.run (respondIn s) (l, h)).1 ∧
      ∃ w, (method.run (respondIn s) (l, h)).2.1.output = l.output ++ w ∧
        ((getAnyV4 env).run (respondIn s) (l, h)).2.1.output = l.output ++ announce t w := by
  have hwrote := getCopiedType_wrote (s := s) (l, h)
  have htyped : getCopiedType.run (respondIn s) (l, h)
      = (some t, (getCopiedType.run (respondIn s) (l, h)).2) := Prod.ext hreports rfl
  generalize (getCopiedType.run (respondIn s) (l, h)).2 = y at hwrote htyped
  unfold getAnyV4
  rw [run_bind_of_some _ htyped]
  cases t with
  | none => cases hmethod
  | text =>
    cases hmethod
    exact paired_announced (thenAck_finishAny (anyText_related env htype) _ _ hwrote)
  | file =>
    cases hmethod
    exact paired_announced (anyFiles_related env htype _ _ hwrote)
  | image =>
    cases hmethod
    exact paired_announced (thenAck_finishAny (anyImage_related env htype) _ _ hwrote)

/-- A clipboard with the text `hi`, and a client that acknowledges it. -/
theorem getAny_agrees_text : ∃ (s : Steady) (l : Session) (h : Host),
    ((getTextV4 .default).run (respondIn s) (l, h)).2.1.output
      = [1, 0, 0, 0, 0, 0, 0, 0, 2, 0x68, 0x69] ∧
    ((getAnyV4 .default).run (respondIn s) (l, h)).2.1.output
      = [1, 1, 0, 0, 0, 0, 0, 0, 0, 2, 0x68, 0x69] ∧
    ((getAnyV4 .default).run (respondIn s) (l, h)).1 = some .success := by
  let s : Steady := fun _ => .calm
  let l : Session := .fresh [1] .calm
  let clipboard : Option Bytes → Option Bytes := fun target =>
    some (if target = none then ascii "hi" else ascii "UTF8_STRING\n")
  let h : Host := { Host.empty with desktop := { Desktop.empty with clipboard } }
  have hreports : (getCopiedType.run (respondIn s) (l, h)).1 = some .text := by decide
  have hstatus : ((getTextV4 .default).run (respondIn s) (l, h)).1 = some .success := by decide
  have hout : ((getTextV4 .default).run (respondIn s) (l, h)).2.1.output
      = [1, 0, 0, 0, 0, 0, 0, 0, 2, 0x68, 0x69] := by decide
  obtain ⟨hsame, w, hw, hany⟩ := getAny_agrees .default s l h hreports rfl rfl
  have hw : [1, 0, 0, 0, 0, 0, 0, 0, 2, 0x68, 0x69] = w := hout.symm.trans hw
  rw [← hw] at hany
  exact ⟨s, l, h, hout, hany, hsame.trans hstatus⟩

end ClipShare
