import ClipShare.Server.Methods
import ClipShare.Verify.Config

namespace ClipShare

open Interaction Posix

/-!
# The display of a screenshot

The display number of *Get Screenshot* is tested as a signed 64-bit number, cut to 16 bits and
tested once more by `get_image`.

* `captured` — the displays that a run hands to the screen capture;
* `HonoursDisplay` — the display that the client asked for is the one that is captured;
* `captured_getScreenshotCommon` — what is captured, in every session;
* `getScreenshot_honours_iff` — when the display that the client asked for is honoured.
-/

/-- The displays that the calls of a run hand to the screen capture. -/
def captured (t : List (Event Calls)) : List UInt16 :=
  t.filterMap fun e => match e.1 with
    | .screenshot disp => some disp
    | _ => none

@[simp] theorem captured_append (t u : List (Event Calls)) :
    captured (t ++ u) = captured t ++ captured u := List.filterMap_append

/-! ### Programs that capture nothing -/

/-- The program never captures the screen. -/
def CapturesNothing {α : Type} (p : Proc α) : Prop :=
  p.Only fun c : Call => ∀ disp, c ≠ .screenshot disp

theorem CapturesNothing.captured {α : Type} {p : Proc α} (hp : CapturesNothing p)
    (s : Session × Host) : captured (p.trace respond s) = [] := by
  refine List.filterMap_eq_nil_iff.mpr fun e he => ?_
  have hne := hp.trace respond s e he
  cases hc : e.1 with
  | screenshot disp => exact absurd hc (hne disp)
  | _ => rfl

/-- What comes after the first part of a program does not count if it captures nothing. -/
theorem captured_bind {α β : Type} {p : Proc α} {f : α → Proc β} (hf : ∀ a, CapturesNothing (f a))
    (s : Session × Host) :
    captured ((p >>= f).trace respond s) = captured (p.trace respond s) := by
  rw [Prog.trace_bind, captured_append]
  rcases p.run respond s with ⟨_ | a, s'⟩
  · exact List.append_nil _
  · show captured (p.trace respond s) ++ captured ((f a).trace respond s') = _
    rw [(hf a).captured, List.append_nil]

theorem capturesNothing_sendData (data : Bytes) : CapturesNothing (sendData data) := by
  refine ⟨nofun, fun r => ?_⟩
  cases r with
  | false => trivial
  | true =>
    refine ⟨nofun, fun r => ?_⟩
    cases r <;> trivial

theorem capturesNothing_readAck : CapturesNothing readAck := by
  refine ⟨nofun, fun r => ?_⟩
  cases r with
  | none => trivial
  | some ack =>
    show Prog.Only _ (if ack ≠ [1] then _ else _)
    split <;> trivial

/-- Waiting for the acknowledgement captures nothing. -/
theorem captured_thenAck (method : Proc Status) (s : Session × Host) :
    captured ((thenAck method).trace respond s) = captured (method.trace respond s) := by
  refine captured_bind (fun status => ?_) s
  cases status with
  | failure => trivial
  | success =>
    refine capturesNothing_readAck.bind fun status => ?_
    cases status with
    | failure => trivial
    | success => exact ⟨nofun, fun _ => trivial⟩

/-! ### `_get_screenshot_common` -/

/-- In the mode for screenshots `get_image` captures once. -/
theorem captured_getImage (env : Env) (disp : UInt16) (s : Session × Host) :
    captured ((getImage env .screenOnly disp).trace respond s) = [chosenDisplay env disp] := rfl

theorem captured_getImageCommon (env : Env) (disp : UInt16) (s : Session × Host) :
    captured ((getImageCommon env .screenOnly disp).trace respond s) =
      [chosenDisplay env disp] := by
  refine (captured_bind (fun image => ?_) s).trans (captured_getImage env disp s)
  cases image.filter sendableImage with
  | none => exact ⟨nofun, fun _ => ⟨nofun, fun _ => trivial⟩⟩
  | some buf =>
    refine ⟨nofun, fun r => ?_⟩
    cases r with
    | false => trivial
    | true => exact capturesNothing_sendData buf

/-- The number that `_get_screenshot_common` hands on. -/
def narrowed (d : Int) : UInt16 := UInt16.ofNat (if d ≤ 0 ∨ d > 65536 then 0 else d).toNat

/-- The connection is open, and carries the status and the number after it. -/
structure Session.CarriesNumber (l : Session) : Prop where
  opened : l.closed = false
  write : l.oracle.write l.calls = none
  read : l.oracle.read (l.calls + 1) = false

variable {env : Env} {d : Int} {l : Session} {rest : Bytes}

/-- If the connection carries the number, one display is captured, and none otherwise. -/
theorem captured_getScreenshotCommon (hlo : -2 ^ 63 ≤ d) (hhi : d < 2 ^ 63)
    (hin : l.input = sizeBytes 8 d ++ rest) (h : Host) :
    (l.CarriesNumber → captured ((getScreenshotCommon env).trace respond (l, h)) =
      [chosenDisplay env (narrowed d)]) ∧
    (¬ l.CarriesNumber → captured ((getScreenshotCommon env).trace respond (l, h)) = []) := by
  unfold getScreenshotCommon writeSock readSize readSock
  rw [Prog.ask_bind, Prog.trace_call, respond_writeSock]
  rcases l.writeSock_byte_cases statusOk with ⟨hopen, hwrite, hw⟩ | ⟨l', hw, -⟩
  · rw [hw]
    show (_ → captured (_ :: Prog.trace _ (Prog.ask _ _ >>= _ >>= _) _) = _) ∧
      (_ → captured (_ :: Prog.trace _ (Prog.ask _ _ >>= _ >>= _) _) = _)
    rw [Prog.bind_assoc, Prog.ask_bind, Prog.trace_call, respond_readSock]
    have hlen : 8 ≤ (sizeBytes 8 d ++ rest).length := by simp
    have htake : (sizeBytes 8 d ++ rest).take 8 = sizeBytes 8 d :=
      List.take_left' (length_sizeBytes 8 d)
    cases hread : l.oracle.read (l.calls + 1) with
    | false =>
      rw [Session.readSock_ok _ (by exact hopen) (by exact hread) (by exact hin ▸ hlen)]
      refine ⟨fun _ => ?_, fun hnot => absurd ⟨hopen, hwrite, hread⟩ hnot⟩
      show captured (Prog.trace _ (getImageCommon env .screenOnly
        (narrowed (sizeOfBytes (l.input.take 8)))) _) = _
      rw [captured_getImageCommon, hin, htake, sizeOfBytes_sizeBytes hlo hhi]
    | true =>
      refine ⟨fun hcarries => ?_, fun _ => ?_⟩
      · have := hcarries.read
        rw [hread] at this
        cases this
      · rw [Session.readSock, if_neg (by decide), if_pos (.inr hread)]
        rfl
  · refine ⟨fun hcarries => ?_, fun _ => ?_⟩
    · have hok : l.writeSock [statusOk] = _ := l.writeSock_ok hcarries.opened hcarries.write
      rw [hw] at hok
      cases hok
    · rw [hw]
      rfl

/-! ### The display that was asked for -/

/-- The display that is promised: the one that was asked for if clients may select it and it is in
    range, and the configured one otherwise. -/
def promisedDisplay (c : Config) (d : Int) : Nat :=
  if c.clientSelectsDisplay = 1 ∧ 1 ≤ d ∧ d ≤ 65536 then d.toNat else c.display.toNat

/-- When the client sends `d`, the display that is captured is the promised one; one display is
    captured if the connection carries the number, and none otherwise. -/
def HonoursDisplay (env : Env) (d : Int) (method : Proc Status) : Prop :=
  ∀ (l : Session) (h : Host) (rest : Bytes), l.input = sizeBytes 8 d ++ rest →
    (l.CarriesNumber → ∃ disp, captured (method.trace respond (l, h)) = [disp] ∧
      disp.toNat = promisedDisplay env.configuration d) ∧
    (¬ l.CarriesNumber → captured (method.trace respond (l, h)) = [])

/-- The range test lets 65536 through, and 16 bits make it zero. -/
theorem toNat_narrowed (d : Int) :
    (narrowed d).toNat = if 1 ≤ d ∧ d ≤ 65535 then d.toNat else 0 := by
  unfold narrowed
  rw [UInt16.toNat_ofNat']
  split_ifs <;> omega

/-- The chosen display is the promised one, except for the number that 16 bits make zero. -/
theorem chosenDisplay_iff (hflag : IsBool env.configuration.clientSelectsDisplay) (d : Int) :
    (chosenDisplay env (narrowed d)).toNat = promisedDisplay env.configuration d ↔
      ¬ (env.configuration.clientSelectsDisplay = 1 ∧ d = 65536) := by
  have hdisplay := env.configuration.display.toNat_lt
  have hnarrowed := toNat_narrowed d
  unfold chosenDisplay promisedDisplay
  rcases hflag with hoff | hon
  · rw [hoff, if_pos (.inr rfl), if_neg fun h => absurd h.1 (by decide)]
    exact iff_of_true rfl fun h => absurd h.1 (by decide)
  · have hzero : (narrowed d ≤ 0 ∨ env.configuration.clientSelectsDisplay = 0) ↔
        ¬ (1 ≤ d ∧ d ≤ 65535) := by
      rw [hon, or_iff_left (by decide), UInt16.le_iff_toNat_le, hnarrowed]
      have : (0 : UInt16).toNat = 0 := rfl
      split_ifs <;> omega
    by_cases hrange : 1 ≤ d ∧ d ≤ 65535
    · rw [if_neg (hzero.not.mpr (not_not.mpr hrange)), if_pos ⟨hon, hrange.1, by omega⟩,
        hnarrowed, if_pos hrange]
      exact iff_of_true rfl fun h => by omega
    · rw [if_pos (hzero.mpr hrange)]
      by_cases hbound : d = 65536
      · rw [if_pos ⟨hon, by omega, by omega⟩]
        exact iff_of_false (by omega) (not_not.mpr ⟨hon, hbound⟩)
      · rw [if_neg fun h => hrange ⟨h.2.1, by omega⟩]
        exact iff_of_true rfl fun h => hbound h.2

/-- A method captures what `_get_screenshot_common` does, and honours the number of the client if
    the display chosen for it is the promised one. -/
theorem honoursDisplay_iff (hlo : -2 ^ 63 ≤ d) (hhi : d < 2 ^ 63) {method : Proc Status}
    (hmethod : ∀ s, captured (method.trace respond s) =
      captured ((getScreenshotCommon env).trace respond s)) :
    HonoursDisplay env d method ↔
      (chosenDisplay env (narrowed d)).toNat = promisedDisplay env.configuration d := by
  constructor
  · intro hhonours
    have hcarries : (Session.fresh (sizeBytes 8 d ++ []) .calm).CarriesNumber := ⟨rfl, rfl, rfl⟩
    obtain ⟨disp, hone, hdisp⟩ := (hhonours _ .empty [] rfl).1 hcarries
    rw [hmethod, (captured_getScreenshotCommon hlo hhi rfl _).1 hcarries] at hone
    cases hone
    exact hdisp
  · intro heq l h rest hin
    rw [hmethod]
    obtain ⟨hone, hnone⟩ := captured_getScreenshotCommon hlo hhi hin h
    exact ⟨fun hcarries => ⟨_, hone hcarries, heq⟩, hnone⟩

/-- **The requested display is honoured** exactly unless clients may select it and ask for display
    65536. -/
theorem getScreenshot_honours_iff {sur : Surroundings} {web : Bool} {fileName : Option Bytes}
    {c : Config} (hp : parseConf sur web fileName = .ok c)
    (henv : env.configuration = applyDefaultConf web c) (hlo : -2 ^ 63 ≤ d) (hhi : d < 2 ^ 63) :
    ∀ method ∈ [getScreenshotV3 env, getScreenshotV4 env],
      (HonoursDisplay env d method ↔
        ¬ (env.configuration.clientSelectsDisplay = 1 ∧ d = 65536)) := by
  have hflag : IsBool env.configuration.clientSelectsDisplay := by
    rw [henv]
    exact (applyDefaultConf_flags (parseConf_flags hp)).display
  have hcommon : ∀ method ∈ [getScreenshotV3 env, getScreenshotV4 env], ∀ s,
      captured (method.trace respond s) =
        captured ((getScreenshotCommon env).trace respond s) := by
    refine List.forall_mem_cons.mpr ⟨fun _ => rfl, ?_⟩
    exact List.forall_mem_singleton.mpr (captured_thenAck _)
  intro method hmem
  rw [honoursDisplay_iff hlo hhi (hcommon method hmem), chosenDisplay_iff hflag]

/-- A file with which clients select the display. -/
def selectFile : Surroundings := .ofFile (ascii "client_selects_display=1\n")

/-- The environment with the options of that file. -/
def selectEnv : Env :=
  { Env.default with
    configuration := applyDefaultConf false { Config.unset with clientSelectsDisplay := 1 } }

/-- The second display. -/
theorem getScreenshot_honours_iff_second :
    HonoursDisplay selectEnv 2 (getScreenshotV4 selectEnv) := by
  have hparse : parseConf selectFile false (some configFile) =
      .ok { Config.unset with clientSelectsDisplay := 1 } := by
    set_option maxRecDepth 20000 in decide
  exact (getScreenshot_honours_iff hparse rfl (by decide) (by decide) _
    (List.mem_cons_of_mem _ List.mem_cons_self)).mpr fun h => absurd h.2 (by decide)

/-- Display 65536: the configured display is captured. -/
theorem getScreenshot_wraps :
    parseConf selectFile false (some configFile) =
        .ok { Config.unset with clientSelectsDisplay := 1 } ∧
      captured ((getScreenshotV3 selectEnv).trace respond
        (.fresh (sizeBytes 8 65536) .calm, .empty)) = [1] ∧
      captured ((getScreenshotV4 selectEnv).trace respond
        (.fresh (sizeBytes 8 65536) .calm, .empty)) = [1] ∧
      promisedDisplay selectEnv.configuration 65536 = 65536 := by
  set_option maxRecDepth 20000 in decide

end ClipShare
