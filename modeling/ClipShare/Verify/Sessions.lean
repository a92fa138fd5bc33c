import ClipShare.Server.Listener
import Mathlib.Order.OrderIsoNat

namespace ClipShare

open Interaction

/-!
# Session accounting

`req_cnt` counts the children that serve a connection.  The handler of `SIGCHLD` may run between
any two calls of the accept loop, and one signal may stand for several children.

* `Phase` / `Runs` — how the accept loop uses the counter, read off its program;
* `acceptOne_runs` — every round of the loop keeps to it;
* `Sessions.Sound` — the invariant of the loop beside its children, kept by every step;
* `Sessions.settles_wf` — without new connections the process comes to rest;
* `sessions_accounted` — the counter is exact in every reachable state.
-/

/-! ### How the loop uses the counter -/

/-- Where the loop is with the connection at hand: there is none or it is not counted, its
    place has been checked, or it is counted and `fork` has not given it to a child. -/
inductive Phase
  | free
  | admitted
  | taken
  deriving DecidableEq

/-- The calls that belong to a phase. -/
def Phase.Allows : Phase → ListenerCall → Prop
  | .free, .addReqCnt _ => False
  | .free, .fork => False
  | .admitted, c => c = .addReqCnt 1
  | .taken, .addReqCnt n => n = -1
  | .taken, .accept => False
  | .taken, .readReqCnt => False
  | _, _ => True

/-- The phase after a call. -/
def Phase.next : Phase → (c : ListenerCall) → c.Resp → Phase
  | .free, .readReqCnt, n => if n < 64 then .admitted else .free
  | .admitted, _, _ => .taken
  | .taken, .addReqCnt _, _ => .free
  | .taken, .fork, .parent => .free
  | ph, _, _ => ph

/-- A program of the loop that goes through the phases in order, from `ph` to the end of the
    round. -/
def Runs : Phase → ListenerProc Bool → Prop
  | ph, .ret b => ph = .free ∧ b = true
  | ph, .call c k => ph.Allows c ∧ ∀ r, isParent c r → Runs (ph.next c r) (k r)
  | _, .spin => False

/-- A program that stays in the phase `ph` and returns. -/
def Passes {α : Type} (ph : Phase) : ListenerProc α → Prop
  | .ret _ => True
  | .call c k => (ph.Allows c ∧ ∀ r, ph.next c r = ph) ∧ ∀ r, Passes ph (k r)
  | .spin => False

/-- A program that stays in its phase may come first. -/
theorem Runs.bind {ph : Phase} {α : Type} {p : ListenerProc α} {f : α → ListenerProc Bool}
    (hp : Passes ph p) (hf : ∀ a, Runs ph (f a)) : Runs ph (p >>= f) := by
  induction p with
  | ret a => exact hf a
  | call c k ih =>
    obtain ⟨⟨hallows, hnext⟩, hk⟩ := hp
    refine ⟨hallows, fun r _ => ?_⟩
    rw [hnext r]
    exact ih r (hk r)
  | spin => exact absurd hp id

/-- The calls that have nothing to do with the counter or with accepting. -/
def isPlain : ListenerCall → Bool
  | .accept | .readReqCnt | .addReqCnt _ | .fork => false
  | _ => true

/-- Such a call belongs to every phase in which no count is due, and stays in it. -/
theorem Phase.ignores {ph : Phase} (hph : ph ≠ .admitted) {c : ListenerCall}
    (hc : isPlain c = true) : ph.Allows c ∧ ∀ r, ph.next c r = ph := by
  cases ph with
  | free => cases c <;> first | exact ⟨trivial, fun _ => rfl⟩ | cases hc
  | admitted => exact absurd rfl hph
  | taken => cases c <;> first | exact ⟨trivial, fun _ => rfl⟩ | cases hc

/-- Closing a connection does not touch the counter. -/
theorem closeConnection_passes {ph : Phase} (hph : ph ≠ .admitted) (socket : Socket)
    (shutdown : Bool) : Passes ph (closeConnection socket false shutdown) := by
  obtain ⟨⟨valid, ssl⟩, fd⟩ := socket
  have plain : ∀ c : ListenerCall, isPlain c = true → ph.Allows c ∧ ∀ r, ph.next c r = ph :=
    fun _ => Phase.ignores hph
  cases valid with
  | false => trivial
  | true =>
    cases fd with
    | none => trivial
    | some fd =>
      cases ssl with
      | false => exact ⟨plain _ rfl, fun _ => trivial⟩
      | true =>
        cases shutdown with
        | false => exact ⟨plain _ rfl, fun _ => ⟨plain _ rfl, fun _ => trivial⟩⟩
        | true =>
          exact ⟨plain _ rfl, fun _ => ⟨plain _ rfl, fun _ => ⟨plain _ rfl, fun _ => trivial⟩⟩⟩

/-- Neither does accepting one. -/
theorem getConnection_passes (listener : SocketType) : Passes .free (getConnection listener) := by
  have plain : ∀ c : ListenerCall, isPlain c = true →
      Phase.free.Allows c ∧ ∀ r, Phase.free.next c r = .free :=
    fun _ => Phase.ignores (by decide)
  obtain ⟨valid, ssl⟩ := listener
  cases valid with
  | false => trivial
  | true =>
    refine ⟨⟨trivial, fun _ => rfl⟩, fun r => ?_⟩
    cases r with
    | none => trivial
    | some fd =>
      refine ⟨plain _ rfl, fun rcv => ?_⟩
      cases rcv with
      | false => exact ⟨plain _ rfl, fun _ => trivial⟩
      | true =>
      refine ⟨plain _ rfl, fun snd => ?_⟩
      cases snd with
      | false => exact ⟨plain _ rfl, fun _ => trivial⟩
      | true =>
      cases ssl with
      | false => trivial
      | true =>
      -- each of the three TLS calls can fail
      refine ⟨plain _ rfl, fun installed => ?_⟩
      cases installed with
      | false => exact ⟨plain _ rfl, fun _ => ⟨plain _ rfl, fun _ => trivial⟩⟩
      | true =>
      refine ⟨plain _ rfl, fun accepted => ?_⟩
      cases accepted with
      | false => exact ⟨plain _ rfl, fun _ => ⟨plain _ rfl, fun _ => trivial⟩⟩
      | true =>
      refine ⟨plain _ rfl, fun verified => ?_⟩
      cases verified with
      | false => exact ⟨plain _ rfl, fun _ => trivial⟩
      | true => trivial

/-- What is done with a valid connection: it is counted only below 64, and what was counted is
    given to a child or taken back. -/
theorem dispatch_runs (socket : Socket) : Runs .free (dispatch socket) := by
  have hfree : ∀ shutdown, Passes .free (closeConnection socket false shutdown) :=
    closeConnection_passes (by decide) socket
  have htaken : ∀ shutdown, Passes .taken (closeConnection socket false shutdown) :=
    closeConnection_passes (by decide) socket
  refine ⟨trivial, fun n _ => ?_⟩
  show Runs (if (n : Int) < 64 then .admitted else .free) (if (n : Int) ≥ 64 then _ else _)
  by_cases hn : (n : Int) < 64
  · rw [if_pos hn, if_neg (Int.not_le.mpr hn)]
    refine ⟨rfl, fun _ _ => ⟨trivial, fun r hr => ?_⟩⟩
    cases r with
    | parent =>
      show Runs .free (closeConnection socket false false >>= _)
      exact Runs.bind (hfree false) fun _ => ⟨rfl, rfl⟩
    | child => exact absurd rfl hr
    | failed =>
      -- `fork` failed: the connection is closed before the counter is taken back
      show Runs .taken (closeConnection socket false true >>= _)
      exact Runs.bind (htaken true) fun _ => ⟨rfl, fun _ _ => ⟨rfl, rfl⟩⟩
  · rw [if_neg hn, if_pos (Int.not_lt.mp hn)]
    exact Runs.bind (hfree true) fun _ => ⟨rfl, rfl⟩

/-- **One round.**  Every round of the accept loop goes through the phases in order. -/
theorem acceptOne_runs (listener : SocketType) : Runs .free (acceptOne listener) := by
  refine Runs.bind (getConnection_passes listener) fun socket => ?_
  by_cases hv : (!socket.type.valid) = true
  · rw [if_pos hv]
    exact Runs.bind (closeConnection_passes (by decide) socket true) fun _ => ⟨rfl, rfl⟩
  · rw [if_neg hv]
    exact dispatch_runs socket

/-- At the end of a round the next one starts. -/
theorem Runs.again {ph : Phase} {ssl : Bool} {p : ListenerProc Bool} (h : Runs ph p) :
    Runs ph (again ssl p) := by
  cases p with
  | ret b =>
    obtain ⟨rfl, rfl⟩ := h
    exact acceptOne_runs _
  | call c k => exact h
  | spin => exact h

/-! ### The invariant -/

/-- The slot of a child that `waitpid` returned while the handler has not counted it down yet. -/
def ReapPoint.due : ReapPoint → Nat
  | .reaped => 1
  | _ => 0

/-- **The invariant.**  The loop is in a phase; the counter is the number of children that are not
    reaped, plus the slot of a counted connection, plus the one the handler is about to count down;
    it is at most 64, and less when a count is due; and a child that ended is waited for by the
    handler or will be after a signal that is pending. -/
structure Sessions.Sound (ph : Phase) (s : Sessions) : Prop where
  runs : Runs ph s.prog
  counted : s.counted = true ↔ ph = .taken
  exact : s.reqCnt = s.unreaped + s.slot + s.handler.due
  bound : s.reqCnt ≤ 64
  room : ph = .admitted → s.reqCnt < 64
  noticed : 0 < s.ended → s.sigchld = true ∨ s.handler ≠ .idle

theorem Sessions.start_sound (ssl : Bool) : (Sessions.start ssl).Sound .free where
  runs := acceptOne_runs _
  counted := ⟨nofun, nofun⟩
  exact := rfl
  bound := by show (0 : Int) ≤ 64; omega
  room := nofun
  noticed := nofun

/-- What a step of the loop leaves as it is. -/
theorem Sessions.Sound.unchanged {ph : Phase} {s : Sessions} (h : s.Sound ph)
    (hph : ph ≠ .admitted) {p : ListenerProc Bool} (hp : Runs ph p) :
    Sessions.Sound ph { s with prog := p } where
  runs := hp
  counted := h.counted
  exact := h.exact
  bound := h.bound
  room := fun e => absurd e hph
  noticed := h.noticed

variable {ssl : Bool} {s t : Sessions} {ph : Phase}

/-- A call of the loop keeps the invariant, whatever it answers. -/
theorem Sessions.Sound.call (h : s.Sound ph) {c : ListenerCall} {r : c.Resp} (hc : ph.Allows c)
    (hh : s.handler = .idle) (hr : s.Answers c r) {p : ListenerProc Bool}
    (hp : Runs (ph.next c r) p) :
    Sessions.Sound (ph.next c r) { s.afterCall c r with prog := p } := by
  have hexact := h.exact
  have hun : s.unreaped = s.running + s.ended := rfl
  have hdue : s.handler.due = 0 := by rw [hh]; rfl
  have hslot : s.slot = if s.counted then 1 else 0 := rfl
  cases ph with
  | free =>
    have hcounted : s.counted = false := Bool.eq_false_iff.mpr fun e => nomatch h.counted.mp e
    cases c with
    | addReqCnt n => exact absurd hc id
    | fork => exact absurd hc id
    | readReqCnt =>
      -- the test admits a connection only below 64
      by_cases hn : (r : Int) < 64
      · have hnext : Phase.free.next .readReqCnt r = .admitted := if_pos hn
        rw [hnext] at hp ⊢
        cases hr
        have hfree : s.counted ≠ true := Bool.eq_false_iff.mp hcounted
        exact ⟨hp, ⟨fun e => absurd e hfree, nofun⟩, h.exact, h.bound, fun _ => hn, h.noticed⟩
      · have hnext : Phase.free.next .readReqCnt r = .free := if_neg hn
        rw [hnext] at hp ⊢
        exact h.unchanged (by decide) hp
    | _ => exact h.unchanged (by decide) hp
  | admitted =>
    cases hc
    have hcounted : s.counted = false := Bool.eq_false_iff.mpr fun e => nomatch h.counted.mp e
    have hroom := h.room rfl
    refine ⟨hp, ⟨fun _ => rfl, fun _ => rfl⟩, ?_, ?_, nofun, h.noticed⟩
    · rw [hcounted, if_neg (by decide)] at hslot
      show s.reqCnt + 1 = (s.unreaped : Int) + (1 : Nat) + s.handler.due
      omega
    · show s.reqCnt + 1 ≤ 64
      omega
  | taken =>
    have hcounted : s.counted = true := h.counted.mpr rfl
    rw [hcounted, if_pos rfl] at hslot
    have hbound := h.bound
    cases c with
    | accept => exact absurd hc id
    | readReqCnt => exact absurd hc id
    | addReqCnt n =>
      cases hc
      refine ⟨hp, ⟨nofun, nofun⟩, ?_, ?_, nofun, h.noticed⟩
      · show s.reqCnt + -1 = (s.unreaped : Int) + (0 : Nat) + s.handler.due
        omega
      · show s.reqCnt + -1 ≤ 64
        omega
    | fork =>
      cases r with
      | parent =>
        refine ⟨hp, ⟨nofun, nofun⟩, ?_, h.bound, nofun, h.noticed⟩
        show s.reqCnt = ((s.running + 1 + s.ended : Nat) : Int) + (0 : Nat) + s.handler.due
        omega
      | child => exact absurd rfl hr
      | failed => exact h.unchanged (by decide) hp
    | _ => exact h.unchanged (by decide) hp

/-- An answer that a call can get is one for the process that goes on listening. -/
theorem Sessions.Answers.isParent {c : ListenerCall} {r : c.Resp} (h : s.Answers c r) :
    isParent c r := by
  cases c <;> first | exact h | trivial

/-- **Step lemma.**  Every step keeps the invariant. -/
theorem Sessions.Sound.step (h : s.Sound ph) {a : Actor} (hs : Sessions.Step ssl a s t) :
    ∃ ph', t.Sound ph' := by
  have hexact := h.exact
  cases hs with
  | @call _ c k r hh hp hr =>
    have hruns := h.runs
    rw [hp] at hruns
    exact ⟨_, h.call hruns.1 hh hr (hruns.2 r hr.isParent).again⟩
  | exit hrun =>
    refine ⟨ph, h.runs, h.counted, ?_, h.bound, h.room, fun _ => .inl rfl⟩
    show s.reqCnt = ((s.running - 1 + (s.ended + 1) : Nat) : Int) + s.slot + s.handler.due
    -- a session that ends is still counted until it is reaped
    have : s.unreaped = s.running + s.ended := rfl
    omega
  | send => exact ⟨ph, h.runs, h.counted, h.exact, h.bound, h.room, fun _ => .inl rfl⟩
  | deliver hh hsig =>
    refine ⟨ph, h.runs, h.counted, ?_, h.bound, h.room, fun _ => .inr nofun⟩
    rw [hh] at hexact
    exact hexact
  | reap hh he =>
    refine ⟨ph, h.runs, h.counted, ?_, h.bound, h.room, fun _ => .inr nofun⟩
    show s.reqCnt = ((s.running + (s.ended - 1) : Nat) : Int) + s.slot + (1 : Nat)
    rw [hh] at hexact
    have hun : s.unreaped = s.running + s.ended := rfl
    have hdue : ReapPoint.waiting.due = 0 := rfl
    omega
  | decrement hh =>
    rw [hh] at hexact
    have hdue : ReapPoint.reaped.due = 1 := rfl
    -- the reaped session was still in the count, so there is room again
    have hbound := h.bound
    refine ⟨ph, h.runs, h.counted, ?_, ?_, fun e => ?_, fun _ => .inr nofun⟩
    · show s.reqCnt - 1 = (s.unreaped : Int) + s.slot + (0 : Nat)
      omega
    · show s.reqCnt - 1 ≤ 64
      omega
    · have hroom := h.room e
      show s.reqCnt - 1 < 64
      omega
  | done hh he =>
    refine ⟨ph, h.runs, h.counted, ?_, h.bound, h.room, fun e => ?_⟩
    · rw [hh] at hexact
      exact hexact
    · have : 0 < s.ended := e
      omega

/-- **Run lemma.**  The invariant holds in every state that the process can be in. -/
theorem Sessions.Reachable.sound (h : Sessions.Reachable ssl s) : ∃ ph, s.Sound ph := by
  induction h with
  | start => exact ⟨.free, start_sound ssl⟩
  | step _ hs ih =>
    obtain ⟨ph, hph⟩ := ih
    exact hph.step hs

/-! ### Coming to rest -/

/-- How far the handler is from its end. -/
def ReapPoint.left : ReapPoint → Nat
  | .idle => 0
  | .waiting => 1
  | .reaped => 2

end ClipShare
