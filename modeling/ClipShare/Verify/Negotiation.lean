import ClipShare.Server.Versions
import ClipShare.Verify.Config

namespace ClipShare

open Interaction Posix

/-!
# Negotiation and authorisation

What has to happen on the connection before a method runs.

* `methodFlag_eq_one` — the methods that a version dispatches have an option, and a flag that is
  not 0 is 1;
* `serveMethod_trace` — reading the method: refused, or the run of its handler follows;
* `Negotiated` — the two ways in which client and server agree on a version;
* `server_authorised` — a session stays on its socket, or it negotiates a version and a method
  that the configuration allows and runs the handler of this method.
-/

/-! ### Methods and their options -/

/-- A method without an option is in no version. -/
theorem methodsOf_eq_none {enabled : MethodEnabled} {method : UInt8}
    (h : methodFlag enabled method = none) (version : UInt8) : methodsOf version method = none := by
  have hne : method ≠ methodGetText ∧ method ≠ methodSendText ∧ method ≠ methodGetFile ∧
      method ≠ methodSendFile ∧ method ≠ methodGetImage ∧ method ≠ methodGetCopiedImage ∧
      method ≠ methodGetScreenshot ∧ method ≠ methodGetAny ∧ method ≠ methodInfo := by
    refine ⟨?_, ?_, ?_, ?_, ?_, ?_, ?_, ?_, ?_⟩ <;> (rintro rfl; cases h)
  unfold methodsOf
  split
  · simp [methods1, hne]
  split
  · simp [methods2, hne]
  split
  · simp [methods3, hne]
  split
  · simp [methods4, hne]
  · rfl

/-- The option of a method is one of the flags. -/
theorem methodFlag_isBool {c : Config} (hc : c.Flags IsBool) {method : UInt8} {flag : Int8}
    (h : methodFlag c.methodEnabled method = some flag) : IsBool flag := by
  have hall : ∀ flag ∈ methodFlag c.methodEnabled method, IsBool flag := by
    unfold methodFlag
    apply forall_mem_ite (forall_mem_some hc.getText)
    apply forall_mem_ite (forall_mem_some hc.sendText)
    apply forall_mem_ite (forall_mem_some hc.getFiles)
    apply forall_mem_ite (forall_mem_some hc.sendFiles)
    apply forall_mem_ite (forall_mem_some hc.getImage)
    apply forall_mem_ite (forall_mem_some hc.getCopiedImage)
    apply forall_mem_ite (forall_mem_some hc.getScreenshot)
    apply forall_mem_ite (forall_mem_some hc.getAny)
    apply forall_mem_ite (forall_mem_some hc.info)
    exact nofun
  exact hall flag h

/-- A method that is dispatched and not disabled is enabled. -/
theorem methodFlag_eq_one {c : Config} (hc : c.Flags IsBool) {version method : UInt8} {hd : Handler}
    (hm : methodsOf version method = some hd) (h0 : methodFlag c.methodEnabled method ≠ some 0) :
    methodFlag c.methodEnabled method = some 1 := by
  cases hf : methodFlag c.methodEnabled method with
  | none => rw [methodsOf_eq_none hf] at hm; cases hm
  | some flag =>
    rcases methodFlag_isBool hc hf with rfl | rfl
    · exact absurd hf h0
    · rfl

/-! ### The method -/

/-- All calls are on the socket: no clipboard, screen or file operation takes place. -/
def OnSocket (t : List (Event Calls)) : Prop := ∀ e ∈ t, e.1.onSocket = true

theorem onSocket_cons {e : Event Calls} {t : List (Event Calls)} :
    OnSocket (e :: t) ↔ e.1.onSocket = true ∧ OnSocket t := List.forall_mem_cons

/-- **Reading the method.**  Only the socket is used, or the method is not disabled, the version
    has it, and the run goes on with its handler. -/
theorem serveMethod_trace (env : Env) (methods : UInt8 → Option Handler) (l : Session) (h : Host) :
    OnSocket ((serveMethod env methods).trace respond (l, h)) ∨
      ∃ m hd l', l.input = m :: l'.input ∧ l'.output = l.output ∧ methods m = some hd ∧
        methodFlag env.configuration.methodEnabled m ≠ some 0 ∧
        (serveMethod env methods).trace respond (l, h)
          = ⟨.readSock 1, some [m]⟩ :: ⟨.enter hd, ()⟩
            :: (handler env hd).trace respond (l', h) := by
  rcases l.readSock_byte with ⟨l1, hread⟩ | ⟨m, l1, hin, hout, hread⟩
  · refine .inl ?_
    simp [OnSocket, serveMethod, readSock, hread, Call.onSocket]
  · by_cases hflag : methodFlag env.configuration.methodEnabled m = some 0
    · refine .inl ?_
      simp [OnSocket, serveMethod, readSock, hread, checkMethodEnabled, hflag, writeSock,
        closeSocketNoWait, Call.onSocket]
    · cases hm : methods m with
      | none =>
        refine .inl ?_
        simp [OnSocket, serveMethod, readSock, hread, checkMethodEnabled, hflag, hm, writeSock,
          closeSocketNoWait, Call.onSocket]
      | some hd =>
        refine .inr ⟨m, hd, l1.tick, hin, hout, hm, hflag, ?_⟩
        simp [serveMethod, readSock, hread, checkMethodEnabled, hflag, hm, enter]

/-! ### The version -/

/-- Every version byte leads to the methods of this version, or to nothing. -/
theorem serveVersion_trace (env : Env) (version : UInt8) (s : Session × Host) :
    (serveVersion env version).trace respond s = [] ∨
      (serveVersion env version).trace respond s
        = (serveMethod env (methodsOf version)).trace respond s := by
  unfold serveVersion
  split
  · exact .inl rfl
  iterate 4
    split
    · rename_i hv
      subst hv
      refine .inr ?_
      rw [Prog.trace_bind]
      split <;> simp [methodsOf, version1, version2, version3, version4]
  · exact .inl rfl

/-- The methods of this version: only the socket is used, or a handler runs. -/
theorem serveVersion_served (env : Env) (version : UInt8) (l : Session) (h : Host) :
    OnSocket ((serveVersion env version).trace respond (l, h)) ∨
      ∃ m hd l', l.input = m :: l'.input ∧ l'.output = l.output ∧ methodsOf version m = some hd ∧
        methodFlag env.configuration.methodEnabled m ≠ some 0 ∧
        (serveVersion env version).trace respond (l, h)
          = ⟨.readSock 1, some [m]⟩ :: ⟨.enter hd, ()⟩
            :: (handler env hd).trace respond (l', h) := by
  rcases serveVersion_trace env version (l, h) with hnil | hserve
  · refine .inl ?_
    rw [hnil]
    exact nofun
  · rw [hserve]
    exact serveMethod_trace env (methodsOf version) l h

/-- Client and server agree on the version `v` and the method `m`, in the calls `pre`; what they
    have sent since is all that distinguishes the sessions before and after. -/
inductive Negotiated (c : Config) (l : Session) :
    List (Event Calls) → UInt8 → UInt8 → Session → Prop
  /-- The server accepts the version that the client offers. -/
  | accepted {v m : UInt8} {l' : Session} (sent : l.input = v :: m :: l'.input)
      (answered : l'.output = l.output ++ [protocolSupported])
      (le : v.toNat ≤ c.maxProtoVersion.toNat) :
      Negotiated c l
        [⟨.readSock 1, some [v]⟩, ⟨.writeSock [protocolSupported], true⟩,
          ⟨.readSock 1, some [m]⟩] v m l'
  /-- The server names its highest version, and the client repeats it. -/
  | echoed {offer v m : UInt8} {l' : Session} (sent : l.input = offer :: v :: m :: l'.input)
      (answered : l'.output = l.output ++ [protocolUnknown, c.maxProtoVersion.toUInt8])
      (newer : c.maxProtoVersion.toNat < offer.toNat) (echo : v.toNat = c.maxProtoVersion.toNat) :
      Negotiated c l
        [⟨.readSock 1, some [offer]⟩, ⟨.writeSock [protocolUnknown], true⟩,
          ⟨.writeSock [c.maxProtoVersion.toUInt8], true⟩, ⟨.readSock 1, some [v]⟩,
          ⟨.readSock 1, some [m]⟩] v m l'

/-- **Negotiation.**  Only the socket is used, or client and server agree on a version in range
    and a method that the version has and that is not disabled, and the run goes on with its
    handler. -/
theorem server_trace (env : Env) (l : Session) (h : Host)
    (hle : env.configuration.minProtoVersion.toNat ≤ env.configuration.maxProtoVersion.toNat) :
    OnSocket ((server env).trace respond (l, h)) ∨
      ∃ pre v m l' hd, Negotiated env.configuration l pre v m l' ∧
        env.configuration.minProtoVersion.toNat ≤ v.toNat ∧
        v.toNat ≤ env.configuration.maxProtoVersion.toNat ∧ methodsOf v m = some hd ∧
        methodFlag env.configuration.methodEnabled m ≠ some 0 ∧
        (server env).trace respond (l, h)
          = pre ++ ⟨.enter hd, ()⟩ :: (handler env hd).trace respond (l', h) := by
  -- the version that the client offers; without one the run ends
  rcases l.readSock_byte with ⟨l1, hread⟩ | ⟨v, l1, hin1, hout1, hread⟩
  · refine .inl ?_
    simp [OnSocket, server, readSock, hread, Call.onSocket]
  by_cases hmin : v.toNat < env.configuration.minProtoVersion.toNat
  · refine .inl ?_
    simp [OnSocket, server, readSock, hread, hmin, writeSock, closeSocketNoWait, Call.onSocket]
  by_cases hmax : v.toNat ≤ env.configuration.maxProtoVersion.toNat
  · -- the version is supported
    rcases l1.writeSock_byte protocolSupported with ⟨l2, hw⟩ | ⟨l2, hin2, hout2, hw⟩
    · refine .inl ?_
      simp [OnSocket, server, readSock, hread, hmin, hmax, writeSock, hw, Call.onSocket]
    have htrace : (server env).trace respond (l, h)
        = ⟨.readSock 1, some [v]⟩ :: ⟨.writeSock [protocolSupported], true⟩ ::
          (serveVersion env v).trace respond (l2, h) := by
      simp [server, readSock, hread, hmin, hmax, writeSock, hw]
    rw [htrace]
    rcases serveVersion_served env v l2 h with
      hsock | ⟨m, hd, l3, hin3, hout3, hm, hflag, hmethod⟩
    · refine .inl ?_
      rw [onSocket_cons, onSocket_cons]
      exact ⟨rfl, rfl, hsock⟩
    · refine .inr ⟨_, v, m, l3, hd, .accepted ?_ ?_ hmax, not_lt.mp hmin, hmax, hm, hflag, ?_⟩
      · rw [hin1, ← hin2, hin3]
      · rw [hout3, hout2, hout1]
      · rw [hmethod]; rfl
  · -- the version is newer than the server
    rcases l1.writeSock_byte protocolUnknown with ⟨l2, hw⟩ | ⟨l2, hin2, hout2, hw⟩
    · refine .inl ?_
      simp [OnSocket, server, readSock, hread, hmin, hmax, writeSock, hw, Call.onSocket]
    rcases l2.writeSock_byte env.configuration.maxProtoVersion.toUInt8 with
      ⟨l3, hw'⟩ | ⟨l3, hin3, hout3, hw'⟩
    · refine .inl ?_
      simp [OnSocket, server, readSock, hread, hmin, hmax, writeSock, hw, hw', Call.onSocket]
    rcases l3.readSock_byte with ⟨l4, hread'⟩ | ⟨v', l4, hin4, hout4, hread'⟩
    · refine .inl ?_
      simp [OnSocket, server, readSock, hread, hmin, hmax, writeSock, hw, hw', hread',
        Call.onSocket]
    -- the client goes on with the server's version, or is dropped
    by_cases hecho : v'.toNat = env.configuration.maxProtoVersion.toNat
    · have htrace : (server env).trace respond (l, h)
          = ⟨.readSock 1, some [v]⟩ :: ⟨.writeSock [protocolUnknown], true⟩ ::
            ⟨.writeSock [env.configuration.maxProtoVersion.toUInt8], true⟩ ::
            ⟨.readSock 1, some [v']⟩ :: (serveVersion env v').trace respond (l4, h) := by
        simp [server, readSock, hread, hmin, hmax, writeSock, hw, hw', hread', hecho]
      rw [htrace]
      rcases serveVersion_served env v' l4 h with
        hsock | ⟨m, hd, l5, hin5, hout5, hm, hflag, hmethod⟩
      · refine .inl ?_
        rw [onSocket_cons, onSocket_cons, onSocket_cons, onSocket_cons]
        exact ⟨rfl, rfl, rfl, rfl, hsock⟩
      · refine .inr ⟨_, v', m, l5, hd, .echoed ?_ ?_ (not_le.mp hmax) hecho, hecho ▸ hle, hecho.le,
          hm, hflag, ?_⟩
        · rw [hin1, ← hin2, ← hin3, hin4, hin5]
        · rw [hout5, hout4, hout3, hout2, hout1, List.append_assoc]; rfl
        · rw [hmethod]; rfl
    · refine .inl ?_
      simp [OnSocket, server, readSock, hread, hmin, hmax, writeSock, hw, hw', hread', hecho,
        closeSocketNoWait, Call.onSocket]

/-- What it takes for a handler to run: client and server have agreed on a version within the
    configured range, and on a method of this version that is enabled. -/
structure Authorised (c : Config) (l : Session) (pre : List (Event Calls)) (v m : UInt8)
    (l' : Session) (hd : Handler) : Prop where
  negotiated : Negotiated c l pre v m l'
  lowest : protocolMin.toNat ≤ c.minProtoVersion.toNat
  atLeast : c.minProtoVersion.toNat ≤ v.toNat
  atMost : v.toNat ≤ c.maxProtoVersion.toNat
  highest : c.maxProtoVersion.toNat ≤ protocolMax.toNat
  dispatched : methodsOf v m = some hd
  enabled : methodFlag c.methodEnabled m = some 1

/-- **Authorisation.**  With a configuration read from any file and completed by the defaults, a
    session uses nothing but its socket, unless what it takes for a handler to run has happened;
    then the run is exactly the negotiation followed by the run of this handler. -/
theorem server_authorised {sur : Surroundings} {web : Bool} {fileName : Option Bytes} {c : Config}
    {env : Env} (hparse : parseConf sur web fileName = .ok c)
    (henv : env.configuration = applyDefaultConf web c) (l : Session) (h : Host) :
    OnSocket ((server env).trace respond (l, h)) ∨
      ∃ pre v m l' hd, Authorised env.configuration l pre v m l' hd ∧
        (server env).trace respond (l, h)
          = pre ++ ⟨.enter hd, ()⟩ :: (handler env hd).trace respond (l', h) := by
  obtain ⟨hlo, hle, hhi⟩ := applyDefaultConf_versions web c
  rw [← henv] at hlo hle hhi
  -- the flags of the methods do not depend on the build
  have hflags : ∀ {version method hd}, methodsOf version method = some hd →
      methodFlag env.configuration.methodEnabled method ≠ some 0 →
      methodFlag env.configuration.methodEnabled method = some 1 := by
    rw [show env.configuration.methodEnabled = (applyDefaultConf true c).methodEnabled by
      rw [henv]; rfl]
    exact methodFlag_eq_one (applyDefaultConf_flags (parseConf_flags hparse))
  rcases server_trace env l h hle with hsock | ⟨pre, v, m, l', hd, hn, hmin, hmax, hm, hf, ht⟩
  · exact .inl hsock
  · exact .inr ⟨pre, v, m, l', hd, ⟨hn, hlo, hmin, hmax, hhi, hm, hflags hm hf⟩, ht⟩

/-- A session with the file `max_proto_version = 2`, for a client that offers version 9, repeats
    version 2 and asks for a text. -/
theorem server_authorised_echo :
    ∃ (sur : Surroundings) (c : Config) (env : Env),
      parseConf sur false (some configFile) = .ok c ∧ env.configuration = applyDefaultConf false c ∧
      ∃ pre v m l' hd, Authorised env.configuration (.fresh [9, 2, 1] .calm) pre v m l' hd ∧
        (server env).trace respond (.fresh [9, 2, 1] .calm, .empty)
          = pre ++ ⟨.enter hd, ()⟩ :: (handler env hd).trace respond (l', .empty) := by
  let sur : Surroundings :=
    { openFile := fun _ => .regular (ascii "max_proto_version = 2\n")
      inetPton4 := fun _ => none
      inetPton6 := fun _ => none }
  let c : Config := { Config.unset with maxProtoVersion := 2 }
  let env : Env := { Env.default with configuration := applyDefaultConf false c }
  have hparse : parseConf sur false (some configFile) = .ok c := by
    set_option maxRecDepth 20000 in decide
  have hcall : (((server env).trace respond (.fresh [9, 2, 1] .calm, .empty))[5]?.map (·.1))
      = some (.enter .getTextV1) := by
    decide
  refine ⟨sur, c, env, hparse, rfl, (server_authorised hparse rfl _ _).resolve_left fun hsock => ?_⟩
  obtain ⟨e, he, hcall⟩ := Option.map_eq_some_iff.mp hcall
  have := hsock e (List.mem_of_getElem? he)
  rw [hcall] at this
  cases this
end ClipShare
