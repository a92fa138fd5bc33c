import ClipShare.Server.Listener
import Mathlib.Tactic.Set
import Mathlib.Data.List.Basic

namespace ClipShare

open Interaction

/-!
# The descriptors of the listening process

Every way through a round of the accept loop closes the descriptor that `accept` returned,
except one: when `check_peer_certs` rejects a client, `get_connection` calls
`close_socket_no_wait` on a socket whose type is still `NULL_SOCK`, which does nothing.

* `Listening.Clean` — every accepted descriptor has been closed exactly once;
* `getConnection_cases`, `acceptOne_cases` — what one round does to the descriptors;
* `acceptLoop_clean_iff` — the process is clean whenever it is back at `accept` if and only if
  no client was rejected.
-/

/-- Every descriptor that `accept` returned has been closed exactly once. -/
def Listening.Clean (s : Listening) : Prop := ∀ fd < s.accepted, s.closed.count fd = 1

/-- Only descriptors that `accept` returned have been closed. -/
def Listening.Bounded (s : Listening) : Prop := ∀ fd ∈ s.closed, fd < s.accepted

/-- A client that `check_peer_certs` turned down. -/
def isRejection : Event ListenerCalls → Bool
  | ⟨.checkPeerCerts _, verified⟩ => !verified
  | _ => false

/-- Was some client turned down? -/
def rejects (t : List (Event ListenerCalls)) : Bool := t.any isRejection

@[simp] theorem rejects_append (t u : List (Event ListenerCalls)) :
    rejects (t ++ u) = (rejects t || rejects u) := List.any_append

/-! ### One round -/

/-- Closing a socket of type `NULL_SOCK` does nothing. -/
theorem closeConnection_null (await shutdown : Bool) :
    closeConnection Socket.null await shutdown = Prog.ret () := rfl

/-- What accepting a connection does to the descriptors: nothing was accepted; or the new
    descriptor was closed again; or it is left open after a rejection; or it is the descriptor of
    the socket that is returned. -/
theorem getConnection_cases (listener : SocketType) (s : Listening) :
    ∃ sock, ((getConnection listener).run answer s).1 = some sock ∧
      let s' := ((getConnection listener).run answer s).2
      let rejected := rejects ((getConnection listener).trace answer s)
      (sock = .null ∧ s'.accepted = s.accepted ∧ s'.closed = s.closed ∧ rejected = false) ∨
      (sock = .null ∧ s'.accepted = s.accepted + 1 ∧ s'.closed = s.closed ++ [s.accepted] ∧
        rejected = false) ∨
      (sock = .null ∧ s'.accepted = s.accepted + 1 ∧ s'.closed = s.closed ∧ rejected = true) ∨
      (sock = ⟨listener, some s.accepted⟩ ∧ listener.valid = true ∧
        s'.accepted = s.accepted + 1 ∧ s'.closed = s.closed ∧ rejected = false) := by
  obtain ⟨valid, ssl⟩ := listener
  cases valid with
  | false => exact ⟨.null, rfl, .inl ⟨rfl, rfl, rfl, rfl⟩⟩
  | true =>
    -- one case for each way out, told apart by the answers of the calls up to it
    cases h0 : s.oracle.ok s.calls with
    | false =>
      refine ⟨.null, ?_, .inl ⟨rfl, ?_, ?_, ?_⟩⟩ <;>
        simp [getConnection, accept, answer, h0, rejects, isRejection]
    | true =>
    cases h1 : s.oracle.ok (s.calls + 1) with
    | false =>
      refine ⟨.null, ?_, .inr (.inl ⟨rfl, ?_, ?_, ?_⟩)⟩ <;>
        simp [getConnection, accept, setsockopt, closeSock, answer, h0, h1, rejects, isRejection]
    | true =>
    cases h2 : s.oracle.ok (s.calls + 1 + 1) with
    | false =>
      refine ⟨.null, ?_, .inr (.inl ⟨rfl, ?_, ?_, ?_⟩)⟩ <;>
        simp [getConnection, accept, setsockopt, closeSock, answer, h0, h1, h2, rejects,
          isRejection]
    | true =>
    cases ssl with
    | false =>
      refine ⟨⟨⟨true, false⟩, some s.accepted⟩, ?_, .inr (.inr (.inr ⟨rfl, rfl, ?_, ?_, ?_⟩))⟩ <;>
        simp [getConnection, accept, setsockopt, answer, h0, h1, h2, rejects, isRejection]
    | true =>
    cases h3 : s.oracle.ok (s.calls + 1 + 1 + 1) with
    | false =>
      refine ⟨.null, ?_, .inr (.inl ⟨rfl, ?_, ?_, ?_⟩)⟩ <;>
        simp [getConnection, accept, setsockopt, sslSetFd, sslFree, closeSock, answer, h0, h1, h2,
          h3, rejects, isRejection]
    | true =>
    cases h4 : s.oracle.ok (s.calls + 1 + 1 + 1 + 1) with
    | false =>
      refine ⟨.null, ?_, .inr (.inl ⟨rfl, ?_, ?_, ?_⟩)⟩ <;>
        simp [getConnection, accept, setsockopt, sslSetFd, sslAccept, sslFree, closeSock, answer,
          h0, h1, h2, h3, h4, rejects, isRejection]
    | true =>
    cases h5 : s.oracle.ok (s.calls + 1 + 1 + 1 + 1 + 1) with
    | false =>
      -- the socket that is closed here is still the null socket
      refine ⟨.null, ?_, .inr (.inr (.inl ⟨rfl, ?_, ?_, ?_⟩))⟩ <;>
        simp [getConnection, accept, setsockopt, sslSetFd, sslAccept, checkPeerCerts, sslFree,
          closeConnection_null, answer, h0, h1, h2, h3, h4, h5, rejects, isRejection]
    | true =>
      refine ⟨⟨⟨true, true⟩, some s.accepted⟩, ?_, .inr (.inr (.inr ⟨rfl, rfl, ?_, ?_, ?_⟩))⟩ <;>
        simp [getConnection, accept, setsockopt, sslSetFd, sslAccept, checkPeerCerts, answer,
          h0, h1, h2, h3, h4, h5, rejects, isRejection]

/-- What is done with a valid connection: unless the process is the child that serves it, its
    descriptor is closed. -/
theorem dispatch_cases {listener : SocketType} (hv : listener.valid = true) (fd : Nat)
    (s : Listening) :
    ∃ r, ((dispatch ⟨listener, some fd⟩).run answer s).1 = some r ∧
      let s' := ((dispatch ⟨listener, some fd⟩).run answer s).2
      s'.accepted = s.accepted ∧ (r = true → s'.closed = s.closed ++ [fd]) ∧
      rejects ((dispatch ⟨listener, some fd⟩).trace answer s) = false := by
  obtain ⟨valid, ssl⟩ := listener
  cases hv
  by_cases hfull : s.reap.reqCnt ≥ 64
  · refine ⟨true, ?_, ?_, fun _ => ?_, ?_⟩ <;> cases ssl <;>
      simp [dispatch, closeConnection, readReqCnt, sslShutdown, sslFree, closeSock, answer, hfull,
        rejects, isRejection]
  · cases hf : s.oracle.fork (s.calls + 1 + 1) with
    | parent =>
      refine ⟨true, ?_, ?_, fun _ => ?_, ?_⟩ <;> cases ssl <;>
        simp [dispatch, closeConnection, readReqCnt, addReqCnt, fork, sslFree, closeSock, answer,
          hfull, hf, rejects, isRejection]
    | child =>
      refine ⟨false, ?_, ?_, nofun, ?_⟩ <;>
        simp [dispatch, readReqCnt, addReqCnt, fork, answer, hfull, hf, rejects, isRejection]
    | failed =>
      refine ⟨true, ?_, ?_, fun _ => ?_, ?_⟩ <;> cases ssl <;>
        simp [dispatch, closeConnection, readReqCnt, addReqCnt, fork, sslShutdown, sslFree,
          closeSock, answer, hfull, hf, rejects, isRejection]

/-- What one round does to the descriptors.  If the process goes on listening, either nothing was
    accepted, or the new descriptor was closed, or a client was rejected and its descriptor is
    still open. -/
theorem acceptOne_cases (listener : SocketType) (s : Listening) :
    ∃ r s', (acceptOne listener).run answer s = (some r, s') ∧
      let rejected := rejects ((acceptOne listener).trace answer s)
      (r = false ∧ rejected = false) ∨
      (r = true ∧ s'.accepted = s.accepted ∧ s'.closed = s.closed ∧ rejected = false) ∨
      (r = true ∧ s'.accepted = s.accepted + 1 ∧ s'.closed = s.closed ++ [s.accepted] ∧
        rejected = false) ∨
      (r = true ∧ s'.accepted = s.accepted + 1 ∧ s'.closed = s.closed ∧ rejected = true) := by
  obtain ⟨sock, hsock, hcases⟩ := getConnection_cases listener s
  have hget : (getConnection listener).run answer s
      = (some sock, ((getConnection listener).run answer s).2) := by rw [← hsock]
  set s1 := ((getConnection listener).run answer s).2
  have hrun : (acceptOne listener).run answer s = (if !sock.type.valid then
      (do closeConnection sock false true; return true) else dispatch sock).run answer s1 :=
    Prog.run_bind_of_some answer hget
  have htrace : rejects ((acceptOne listener).trace answer s)
      = (rejects ((getConnection listener).trace answer s) || rejects ((if !sock.type.valid then
        (do closeConnection sock false true; return true)
          else dispatch sock).trace answer s1)) := by
    rw [← rejects_append]
    unfold acceptOne
    rw [Prog.trace_bind, hget]
  rw [hrun, htrace]
  -- nothing accepted, closed by `get_connection`, rejected, or handed to `dispatch`
  rcases hcases with ⟨rfl, hacc, hcl, hrej⟩ | ⟨rfl, hacc, hcl, hrej⟩ | ⟨rfl, hacc, hcl, hrej⟩ |
    ⟨rfl, hv, hacc, hcl, hrej⟩
  · exact ⟨true, s1, rfl, .inr (.inl ⟨rfl, hacc, hcl, by rw [hrej]; rfl⟩)⟩
  · exact ⟨true, s1, rfl, .inr (.inr (.inl ⟨rfl, hacc, hcl, by rw [hrej]; rfl⟩))⟩
  · exact ⟨true, s1, rfl, .inr (.inr (.inr ⟨rfl, hacc, hcl, by rw [hrej]; rfl⟩))⟩
  · obtain ⟨r, hr, hacc', hcl', hrej'⟩ := dispatch_cases hv s.accepted s1
    rw [if_neg (by simp [hv]), hrej, hrej']
    refine ⟨r, _, Prod.ext hr rfl, ?_⟩
    cases r with
    | false => exact .inl ⟨rfl, rfl⟩
    | true =>
      exact .inr (.inr (.inl ⟨rfl, hacc'.trans hacc, by rw [hcl' rfl, hcl], rfl⟩))

/-! ### Runs -/

/-- Closing the descriptor that was just accepted. -/
theorem Listening.Bounded.close {s s' : Listening} (hb : s.Bounded)
    (hacc : s'.accepted = s.accepted + 1) (hcl : s'.closed = s.closed ++ [s.accepted]) :
    s'.Bounded ∧ (s'.Clean ↔ s.Clean) := by
  have hnew : s.closed.count s.accepted = 0 :=
    List.count_eq_zero.mpr fun h => Nat.lt_irrefl _ (hb _ h)
  constructor
  · intro fd hfd
    rw [hcl, List.mem_append, List.mem_singleton] at hfd
    rw [hacc]
    rcases hfd with hfd | rfl
    · exact Nat.lt_succ_of_lt (hb fd hfd)
    · exact Nat.lt_succ_self _
  · unfold Listening.Clean
    rw [hacc, hcl]
    constructor
    · intro h fd hfd
      have := h fd (Nat.lt_succ_of_lt hfd)
      rwa [List.count_append, List.count_singleton,
        if_neg (by simpa using Nat.ne_of_gt hfd)] at this
    · intro h fd hfd
      rw [List.count_append, List.count_singleton]
      rcases Nat.lt_succ_iff_lt_or_eq.mp hfd with hfd | rfl
      · rw [h fd hfd, if_neg (by simpa using Nat.ne_of_gt hfd)]
      · rw [hnew, if_pos (by simp)]

/-- Leaving the descriptor open that was just accepted. -/
theorem Listening.Bounded.leak {s s' : Listening} (hb : s.Bounded)
    (hacc : s'.accepted = s.accepted + 1) (hcl : s'.closed = s.closed) :
    s'.Bounded ∧ ¬ s'.Clean := by
  constructor
  · intro fd hfd
    rw [hacc]
    rw [hcl] at hfd
    exact Nat.lt_succ_of_lt (hb fd hfd)
  · intro h
    have := h s.accepted (by rw [hacc]; exact Nat.lt_succ_self _)
    rw [hcl, List.count_eq_zero.mpr fun h => Nat.lt_irrefl _ (hb _ h)] at this
    cases this

/-- **Run lemma.**  If the process is still listening after `n` rounds, only accepted descriptors
    were closed, and it is clean if and only if no client was rejected. -/
theorem acceptLoop_spec (listener : SocketType) (oracle : ListenerOracle) (n : Nat) :
    ∃ r s, (acceptLoop listener n).run answer (.start oracle) = (some r, s) ∧
      (r = true → s.Bounded ∧ (s.Clean ↔
        rejects ((acceptLoop listener n).trace answer (.start oracle)) = false)) := by
  induction n with
  | zero =>
    refine ⟨true, _, rfl, fun _ => ⟨by simp [Listening.Bounded, Listening.start], ?_⟩⟩
    exact ⟨fun _ => rfl, fun _ => by simp [Listening.Clean, Listening.start]⟩
  | succ n ih =>
    obtain ⟨r, s, hrun, hspec⟩ := ih
    rw [acceptLoop, Prog.run_bind_of_some answer hrun, Prog.trace_bind, hrun, rejects_append]
    cases r with
    | false => exact ⟨false, s, rfl, nofun⟩
    | true =>
      obtain ⟨hb, hclean⟩ := hspec rfl
      obtain ⟨r', s', hrun', hcases⟩ := acceptOne_cases listener s
      refine ⟨r', s', hrun', ?_⟩
      rintro rfl
      rcases hcases with ⟨hr, _⟩ | ⟨_, hacc, hcl, hrej⟩ | ⟨_, hacc, hcl, hrej⟩ |
        ⟨_, hacc, hcl, hrej⟩
      · cases hr
      · have hsame : s'.Bounded ↔ s.Bounded := by simp only [Listening.Bounded, hacc, hcl]
        have hsame' : s'.Clean ↔ s.Clean := by simp only [Listening.Clean, hacc, hcl]
        exact ⟨hsame.mpr hb, by rw [hsame', hclean, hrej, Bool.or_false]⟩
      · obtain ⟨hb', hclean'⟩ := hb.close hacc hcl
        exact ⟨hb', by rw [hclean', hclean, hrej, Bool.or_false]⟩
      · obtain ⟨hb', hleak⟩ := hb.leak hacc hcl
        exact ⟨hb', by rw [hrej, Bool.or_true]; simpa using hleak⟩

/-- A run in which a client was rejected was back at `accept` with its descriptor open. -/
theorem acceptLoop_leaks {listener : SocketType} {oracle : ListenerOracle} {n : Nat}
    (h : rejects ((acceptLoop listener n).trace answer (.start oracle)) = true) :
    ∃ i ≤ n, ∃ s, (acceptLoop listener i).run answer (.start oracle) = (some true, s) ∧
      ¬ s.Clean := by
  induction n with
  | zero => cases h
  | succ n ih =>
    cases hn : rejects ((acceptLoop listener n).trace answer (.start oracle)) with
    | true =>
      obtain ⟨i, hi, hs⟩ := ih hn
      exact ⟨i, Nat.le_succ_of_le hi, hs⟩
    | false =>
      -- the rejection was in the last round, after which the process listens again
      obtain ⟨r, s, hrun, hspec⟩ := acceptLoop_spec listener oracle (n + 1)
      cases r with
      | true => exact ⟨n + 1, Nat.le_refl _, s, hrun,
          fun hc => by simp [((hspec rfl).2.mp hc)] at h⟩
      | false =>
        obtain ⟨r0, s0, hrun0, _⟩ := acceptLoop_spec listener oracle n
        rw [acceptLoop, Prog.trace_bind, rejects_append, hn, hrun0] at h
        rw [acceptLoop, Prog.run_bind_of_some answer hrun0] at hrun
        cases r0 with
        | false => cases h
        | true =>
          obtain ⟨r', s', hrun', hcases⟩ := acceptOne_cases listener s0
          have : (acceptOne listener).run answer s0 = (some false, s) := hrun
          rw [hrun'] at this
          cases this
          rcases hcases with ⟨_, hrej⟩ | ⟨hr, _⟩ | ⟨hr, _⟩ | ⟨hr, _⟩
          · rw [Bool.false_or] at h
            exact absurd (h.symm.trans hrej) (by simp)
          all_goals cases hr

/-- The trace of more rounds starts with the trace of fewer rounds. -/
theorem rejects_mono (listener : SocketType) (oracle : ListenerOracle) {i n : Nat} (h : i ≤ n)
    (hi : rejects ((acceptLoop listener i).trace answer (.start oracle)) = true) :
    rejects ((acceptLoop listener n).trace answer (.start oracle)) = true := by
  induction h with
  | refl => exact hi
  | step _ ih => rw [acceptLoop, Prog.trace_bind, rejects_append, ih, Bool.true_or]

/-- **Descriptors of the listening process.**  For every sequence of connections and every outcome
    of each call: each time the process is back at `accept`, every accepted descriptor has been
    closed exactly once, if and only if `check_peer_certs` rejected no client. -/
theorem acceptLoop_clean_iff (listener : SocketType) (oracle : ListenerOracle) (n : Nat) :
    (∀ i ≤ n, ∀ s, (acceptLoop listener i).run answer (.start oracle) = (some true, s) → s.Clean) ↔
      rejects ((acceptLoop listener n).trace answer (.start oracle)) = false := by
  constructor
  · intro hclean
    by_contra h
    rw [Bool.not_eq_false] at h
    obtain ⟨i, hi, s, hrun, hs⟩ := acceptLoop_leaks h
    exact hs (hclean i hi s hrun)
  · intro h i hi s hrun
    obtain ⟨r, s', hrun', hspec⟩ := acceptLoop_spec listener oracle i
    rw [hrun] at hrun'
    cases hrun'
    refine (hspec rfl).2.mpr ?_
    by_contra hrej
    rw [rejects_mono listener oracle hi (by rwa [Bool.not_eq_false] at hrej)] at h
    cases h

/-- A client with a certificate that is not allowed: everything up to the certificate check
    succeeds, the check fails. -/
def rejectedClient : ListenerOracle := ⟨fun k => k ≠ 5, fun _ => .parent, fun _ => 0⟩

/-- One rejected client is enough: after that round its descriptor is open. -/
theorem acceptLoop_leaks_rejected :
    ∃ s, (acceptLoop ⟨true, true⟩ 1).run answer (.start rejectedClient) = (some true, s) ∧
      s.accepted = 1 ∧ s.closed = [] ∧ ¬ s.Clean :=
  ⟨_, rfl, rfl, rfl, fun h => absurd (h 0 Nat.zero_lt_one) (by decide)⟩

end ClipShare
