import ClipShare.Server.Interfaces
import ClipShare.Interaction.Ensures

namespace ClipShare

open Interaction Posix

/-!
# Binding for UDP

What `bind_udp` reports and what it has done: `iterate_interfaces` succeeds if it finds nothing to
do, and its table of the interfaces that have joined ends with the 32nd.

* `ensures_bindSocket` — `bind_socket` tells the truth;
* `walkInterfaces_inet` — for IPv4 the walk is one search and one binding;
* `bindUdp_truthful_iff` — when a success of `bind_udp` means that the socket is bound;
* `Marks`, `ensures_walk6` — for IPv6 the table is a set of interfaces, and the walk joins those
  that are missing from it;
* `iterateInterfaces_joins_iff` — when every interface that matches has joined.
-/

/-- No call is ruled out. -/
abbrev anyCall : UdpCall → UdpWorld → Prop := fun _ _ => True

variable {w : UdpWorld} {listener : Listener} {port : UInt16}

theorem udpWorld_getifaddrs {answer : Option (List IfAddr)} (h : w.interfaces = answer) :
    udpWorld .getifaddrs w = (answer, w) := by
  rw [← h]
  rfl

theorem udpWorld_inetPton6 {text : Bytes} {answer : Option Bytes}
    (h : w.inetPton6 text = answer) : udpWorld (.inetPton6 text) w = (answer, w) := by
  rw [← h]
  rfl

/-! ### Binding -/

/-- `bind_socket` succeeds only if the socket has been bound. -/
theorem ensures_bindSocket (addr : InAddr) :
    (bindSocket listener addr port).Ensures udpWorld anyCall w fun status w' =>
      status = .success → ⟨listener.socket, addr, port⟩ ∈ w'.bound := by
  unfold bindSocket
  split
  · exact nofun
  · split
    · exact ⟨trivial, nofun⟩
    · refine Prog.Ensures.bind (Q := fun _ _ => True) ?_ ?_
      · split
        · trivial
        · exact ⟨trivial, trivial⟩
      · intro reuse w1 _
        split
        · exact ⟨trivial, nofun⟩
        · refine ⟨trivial, ?_⟩
          cases hbind : w1.bindOk ⟨listener.socket, addr, port⟩ with
          | false =>
            have hans : udpWorld (.bind ⟨listener.socket, addr, port⟩) w1 = (false, w1) := by
              simp [udpWorld, hbind]
            rw [hans]
            exact ⟨trivial, nofun⟩
          | true =>
            have hans : udpWorld (.bind ⟨listener.socket, addr, port⟩) w1 =
                (true, { w1 with bound := w1.bound ++ [⟨listener.socket, addr, port⟩] }) := by
              simp [udpWorld, hbind]
            rw [hans]
            exact fun _ => List.mem_append_right _ (List.mem_singleton_self _)

/-- Has the interface this IPv4 address? -/
def hasInet (addr : Bytes) (entry : IfAddr) : Bool := entry.addr = some (.inet addr)

/-- A status that is handed on. -/
theorem bind_status_eq (p : UdpProc Status) : (p >>= fun status => match status with
    | .success => return .success
    | .failure => return .failure) = p := by
  induction p with
  | ret status => cases status <;> rfl
  | call c k ih => exact congrArg (Prog.call (S := UdpCalls) c) (funext ih)
  | spin => rfl

/-- For IPv4 the walk ends with the first interface that has the address. -/
theorem walkInterfaces_inet (listener : Listener) (port : UInt16) (addr ifJoined : Bytes)
    (entries : List IfAddr) :
    walkInterfaces (.inet addr) listener port ifJoined entries =
      match entries.find? (hasInet addr) with
      | none => return .success
      | some entry => bindSocket listener (.inet (broadcastOf addr entry.netmask)) port := by
  induction entries with
  | nil => rfl
  | cons entry entries ih =>
    have hpass (hnot : hasInet addr entry = false) :
        (entry :: entries).find? (hasInet addr) = entries.find? (hasInet addr) :=
      List.find?_cons_of_neg (by simp [hnot])
    unfold walkInterfaces
    cases haddr : entry.addr with
    | none =>
      rw [hpass (by simp [hasInet, haddr])]
      exact ih
    | some ifaddr =>
      cases ifaddr with
      | inet a =>
        by_cases ha : a = addr
        · have hyes : hasInet addr entry = true := by simp [hasInet, haddr, ha]
          rw [List.find?_cons_of_pos hyes]
          subst ha
          exact (if_neg fun h => h rfl).trans (bind_status_eq _)
        · rw [hpass (by simp [hasInet, haddr, ha])]
          exact (if_pos ha).trans ih
      | inet6 a =>
        rw [hpass (by simp [hasInet, haddr])]
        exact ih
      | other =>
        rw [hpass (by simp [hasInet, haddr])]
        exact ih

/-! ### Joining -/

/-- The interfaces that have joined are marked in a table of 32 bytes. -/
structure Marks (ifJoined : Bytes) (seen : List UInt32) : Prop where
  size : ifJoined.length = 32
  mark : ∀ i : UInt32, i.toNat < 32 → (ifJoined.getD i.toNat 0 ≠ 0 ↔ i ∈ seen)

/-- An empty table. -/
theorem marks_nil : Marks (List.replicate 32 0) [] where
  size := List.length_replicate
  mark i hi := by
    rw [List.getD_eq_getElem?_getD, List.getElem?_replicate, if_pos hi]
    exact ⟨fun h => absurd rfl h, nofun⟩

/-- One more mark. -/
theorem Marks.set {ifJoined : Bytes} {seen : List UInt32} (h : Marks ifJoined seen) {i : UInt32}
    (hi : i.toNat < 32) : Marks (ifJoined.set i.toNat 1) (seen ++ [i]) where
  size := by
    rw [List.length_set]
    exact h.size
  mark k hk := by
    have hlt : i.toNat < ifJoined.length := by
      rw [h.size]
      exact hi
    rw [List.mem_append, List.mem_singleton, List.getD_eq_getElem?_getD, List.getElem?_set,
      ← h.mark k hk]
    by_cases hik : i = k
    · rw [hik] at hlt ⊢
      rw [if_pos rfl, if_pos hlt]
      exact ⟨fun _ => .inr rfl, fun _ => by decide⟩
    · have hne : i.toNat ≠ k.toNat := fun e => hik (UInt32.toNat_inj.mp e)
      rw [if_neg hne, List.getD_eq_getElem?_getD]
      exact ⟨.inl, fun h => h.resolve_right fun e => hik e.symm⟩

/-- The walk passes over the interfaces that have joined, and over those without a place in the
    table. -/
theorem Marks.past_iff {ifJoined : Bytes} {seen : List UInt32} (h : Marks ifJoined seen)
    (i : UInt32) : i.toNat ≥ ifJoined.length ∨ ifJoined.getD i.toNat 0 ≠ 0 ↔
      (i.toNat < 32 → i ∈ seen) := by
  rw [h.size]
  constructor
  · intro hpast hlt
    exact (h.mark i hlt).mp (hpast.resolve_left (Nat.not_le.mpr hlt))
  · intro hseen
    by_cases hlt : i.toNat < 32
    · exact .inr ((h.mark i hlt).mpr (hseen hlt))
    · exact .inl (Nat.le_of_not_lt hlt)

/-- The interface has an IPv6 address that matches: the configured one, or any for the wildcard. -/
def Matches6 (addr : Bytes) (entry : IfAddr) : Prop :=
  ∃ ifaddr, entry.addr = some (.inet6 ifaddr) ∧ (addr = in6addrAny ∨ ifaddr = addr)

theorem matches6_inet6_iff {addr a : Bytes} {entry : IfAddr}
    (haddr : entry.addr = some (.inet6 a)) :
    Matches6 addr entry ↔ ¬ (addr ≠ in6addrAny ∧ a ≠ addr) := by
  rw [not_and_or, not_not, not_not]
  constructor
  · rintro ⟨b, hb, hmatch⟩
    rw [haddr] at hb
    cases hb
    exact hmatch
  · exact fun hmatch => ⟨a, haddr, hmatch⟩

theorem not_matches6 {addr : Bytes} {entry : IfAddr}
    (haddr : ∀ a, entry.addr ≠ some (.inet6 a)) : ¬ Matches6 addr entry := by
  rintro ⟨a, ha, -⟩
  exact haddr a ha

/-- The memberships of a socket in a group. -/
def memberships (socket : Nat) (group : Bytes) (indices : List UInt32) : List Membership :=
  indices.map fun i => ⟨socket, i, group⟩

/-- `join_multicast_group`. -/
theorem ensures_joinMulticastGroup (socket : Nat) (i : UInt32) (group : Bytes) :
    (joinMulticastGroup socket i group).Ensures udpWorld anyCall w fun status w' =>
      (status = .success → w' = { w with
        joins := w.joins + 1
        joined := w.joined ++ [⟨socket, i, group⟩] }) ∧
      (w.joinOk w.joins = true → status = .success) := by
  refine ⟨trivial, ?_⟩
  cases hjoin : w.joinOk w.joins with
  | false =>
    have hans : udpWorld (.join ⟨socket, i, group⟩) w =
        (false, { w with joins := w.joins + 1 }) := by
      simp [udpWorld, hjoin]
    rw [hans]
    exact ⟨trivial, nofun, nofun⟩
  | true =>
    have hans : udpWorld (.join ⟨socket, i, group⟩) w =
        (true, { w with
          joins := w.joins + 1
          joined := w.joined ++ [⟨socket, i, group⟩] }) := by
      simp [udpWorld, hjoin]
    rw [hans]
    exact ⟨fun _ => rfl, fun _ => rfl⟩

/-- What a walk adds to the memberships, when the interfaces in `seen` have joined before it: each
    matching interface with an index below 32 joins once. -/
def Adds (w : UdpWorld) (socket : Nat) (group addr : Bytes) (entries : List IfAddr)
    (seen : List UInt32) (w' : UdpWorld) : Prop :=
  ∃ indices, w'.joined = w.joined ++ memberships socket group indices ∧ (seen ++ indices).Nodup ∧
    ∀ i, i ∈ seen ++ indices ↔
      i ∈ seen ∨ i.toNat < 32 ∧ ∃ e ∈ entries, Matches6 addr e ∧ w.index e.name = i

section Adds

variable {w' : UdpWorld} {socket : Nat} {group addr : Bytes} {entry : IfAddr}
  {entries : List IfAddr} {seen : List UInt32}

/-- An entry that is passed over. -/
theorem Adds.skip (h : Adds w socket group addr entries seen w')
    (hentry : Matches6 addr entry → (w.index entry.name).toNat < 32 → w.index entry.name ∈ seen) :
    Adds w socket group addr (entry :: entries) seen w' := by
  obtain ⟨indices, hjoined, hnodup, hmem⟩ := h
  refine ⟨indices, hjoined, hnodup, fun i => (hmem i).trans ⟨?_, ?_⟩⟩
  · rintro (hi | ⟨hi, e, he, hmatch⟩)
    · exact .inl hi
    · exact .inr ⟨hi, e, List.mem_cons_of_mem _ he, hmatch⟩
  · rintro (hi | ⟨hi, e, he, hmatch, hindex⟩)
    · exact .inl hi
    · rcases List.mem_cons.mp he with rfl | he
      · exact .inl (hindex ▸ hentry hmatch (hindex ▸ hi))
      · exact .inr ⟨hi, e, he, hmatch, hindex⟩

/-- An entry whose interface joins. -/
theorem Adds.join (h : Adds { w with
      joins := w.joins + 1
      joined := w.joined ++ [⟨socket, w.index entry.name, group⟩] }
      socket group addr entries (seen ++ [w.index entry.name]) w')
    (hmatch : Matches6 addr entry) (hlt : (w.index entry.name).toNat < 32) :
    Adds w socket group addr (entry :: entries) seen w' := by
  obtain ⟨indices, hjoined, hnodup, hmem⟩ := h
  have hassoc : seen ++ [w.index entry.name] ++ indices = seen ++ w.index entry.name :: indices :=
    (List.append_cons _ _ _).symm
  rw [hassoc] at hnodup
  rw [hassoc] at hmem
  refine ⟨w.index entry.name :: indices, ?_, hnodup, fun i => (hmem i).trans ⟨?_, ?_⟩⟩
  · rw [hjoined, List.append_assoc]
    rfl
  · rintro (hi | ⟨hi, e, he, hmatch'⟩)
    · rcases List.mem_append.mp hi with hi | hi
      · exact .inl hi
      · rw [List.mem_singleton] at hi
        exact .inr ⟨hi ▸ hlt, entry, List.mem_cons_self, hmatch, hi.symm⟩
    · exact .inr ⟨hi, e, List.mem_cons_of_mem _ he, hmatch'⟩
  · rintro (hi | ⟨hi, e, he, hmatch', hindex⟩)
    · exact .inl (List.mem_append_left _ hi)
    · rcases List.mem_cons.mp he with rfl | he
      · exact .inl (List.mem_append_right _ (List.mem_singleton.mpr hindex.symm))
      · exact .inr ⟨hi, e, he, hmatch', hindex⟩

/-- For IPv6 the walk ends, whatever the calls answer; if the group is an address and all the calls
    to join it succeed, it adds what is missing. -/
theorem ensures_walk6 {ifJoined : Bytes} (hmarks : Marks ifJoined seen) (hseen : seen.Nodup) :
    (walkInterfaces (.inet6 addr) listener port ifJoined entries).Ensures udpWorld anyCall w
      fun _ w' => ∀ group, w.inetPton6 multicastAddr = some group → (∀ k, w.joinOk k = true) →
        Adds w listener.socket group addr entries seen w' := by
  induction entries generalizing w ifJoined seen with
  | nil =>
    intro group _ _
    refine ⟨[], (List.append_nil _).symm, by rw [List.append_nil]; exact hseen, fun i => ?_⟩
    simp
  | cons entry entries ih =>
    -- the walk goes on after an entry that does not match
    have hskip : ¬ Matches6 addr entry →
        (walkInterfaces (.inet6 addr) listener port ifJoined entries).Ensures udpWorld anyCall w
          fun _ w' => ∀ group, w.inetPton6 multicastAddr = some group →
            (∀ k, w.joinOk k = true) →
            Adds w listener.socket group addr (entry :: entries) seen w' := fun hno =>
      (ih hmarks hseen).mono fun _ w' h group hgroup hjoin =>
        (h group hgroup hjoin).skip fun hmatch => absurd hmatch hno
    unfold walkInterfaces
    cases haddr : entry.addr with
    | none => exact hskip (not_matches6 fun a ha => by simp [haddr] at ha)
    | some ifaddr =>
      cases ifaddr with
      | inet b => exact hskip (not_matches6 fun a ha => by simp [haddr] at ha)
      | other => exact hskip (not_matches6 fun a ha => by simp [haddr] at ha)
      | inet6 a =>
        show Prog.Ensures _ _ (if addr ≠ in6addrAny ∧ a ≠ addr then _ else _) _ _
        have hmatches : Matches6 addr entry ↔ _ := matches6_inet6_iff haddr
        by_cases hno : addr ≠ in6addrAny ∧ a ≠ addr
        · rw [if_pos hno]
          exact hskip fun hmatch => hmatches.mp hmatch hno
        rw [if_neg hno]
        refine ⟨trivial, ?_⟩
        cases hgroup : w.inetPton6 multicastAddr with
        | none =>
          rw [udpWorld_inetPton6 hgroup]
          exact nofun
        | some multicast =>
          rw [udpWorld_inetPton6 hgroup]
          refine ⟨trivial, ?_⟩
          show Prog.Ensures _ _ (if (w.index entry.name).toNat ≥ ifJoined.length ∨
            ifJoined.getD (w.index entry.name).toNat 0 ≠ 0 then _ else _) _ _
          by_cases hpast : (w.index entry.name).toNat ≥ ifJoined.length ∨
              ifJoined.getD (w.index entry.name).toNat 0 ≠ 0
          · rw [if_pos hpast]
            refine (ih hmarks hseen).mono fun _ w' h group hgroup' hjoin => ?_
            exact (h group (hgroup.trans hgroup') hjoin).skip fun _ => (hmarks.past_iff _).mp hpast
          · rw [if_neg hpast]
            rw [hmarks.past_iff, Classical.not_imp] at hpast
            obtain ⟨hlt, hnew⟩ := hpast
            have hseen' : (seen ++ [w.index entry.name]).Nodup := by
              rw [← List.concat_eq_append]
              exact hseen.concat hnew
            refine (ensures_joinMulticastGroup _ _ _).bind ?_
            rintro status w1 ⟨hdone, hok⟩
            cases status with
            | failure =>
              intro group _ hjoin
              cases hok (hjoin _)
            | success =>
              rw [hdone rfl]
              refine (ih (hmarks.set hlt) hseen').mono ?_
              intro _ w' h group hgroup' hjoin
              cases hgroup'
              exact (h multicast hgroup hjoin).join (hmatches.mpr hno) hlt

end Adds

/-! ### `iterate_interfaces` -/

/-- For IPv4, `iterate_interfaces` succeeds without a binding if no interface has the address. -/
theorem ensures_iterate_inet (addr : Bytes) :
    (iterateInterfaces (.inet addr) listener port).Ensures udpWorld anyCall w fun status w' =>
      (∀ entries, w.interfaces = some entries → (∀ e ∈ entries, e.addr ≠ some (.inet addr)) →
        status = .success ∧ w'.bound = w.bound) ∧
      (status = .success → ∃ entries, w.interfaces = some entries ∧
        ∀ e, entries.find? (hasInet addr) = some e →
          ⟨listener.socket, .inet (broadcastOf addr e.netmask), port⟩ ∈ w'.bound) := by
  refine ⟨trivial, ?_⟩
  cases hif : w.interfaces with
  | none =>
    rw [udpWorld_getifaddrs hif]
    exact ⟨nofun, nofun⟩
  | some entries =>
    rw [udpWorld_getifaddrs hif]
    have hwalk := walkInterfaces_inet listener port addr (List.replicate 32 0) entries
    cases hfind : entries.find? (hasInet addr) with
    | none =>
      rw [hfind] at hwalk
      show Prog.Ensures _ _ (walkInterfaces _ _ _ _ _ >>= _) _ _
      rw [hwalk]
      refine ⟨trivial, fun _ _ _ => ⟨rfl, rfl⟩, fun _ => ⟨entries, rfl, fun e he => ?_⟩⟩
      rw [hfind] at he
      cases he
    | some e =>
      rw [hfind] at hwalk
      show Prog.Ensures _ _ (walkInterfaces _ _ _ _ _ >>= _) _ _
      rw [hwalk]
      refine (ensures_bindSocket _).bind ?_
      intro status w1 hbound
      refine ⟨trivial, ?_, ?_⟩
      · intro entries' heq hnone
        cases heq
        have hyes : hasInet addr e = true := List.find?_some hfind
        exact absurd (of_decide_eq_true hyes) (hnone e (List.mem_of_find?_eq_some hfind))
      · intro hs
        refine ⟨entries, rfl, fun e' he' => ?_⟩
        rw [hfind] at he'
        cases he'
        exact hbound hs

/-- For IPv6, `iterate_interfaces` returns; if the group is an address and all the calls to join it
    succeed, the interfaces that match have joined. -/
theorem ensures_iterate_inet6 (addr : Bytes) :
    (iterateInterfaces (.inet6 addr) listener port).Ensures udpWorld anyCall w fun _ w' =>
      ∀ entries group, w.interfaces = some entries → w.inetPton6 multicastAddr = some group →
        (∀ k, w.joinOk k = true) → Adds w listener.socket group addr entries [] w' := by
  refine ⟨trivial, ?_⟩
  cases hif : w.interfaces with
  | none =>
    rw [udpWorld_getifaddrs hif]
    exact nofun
  | some entries =>
    rw [udpWorld_getifaddrs hif]
    refine (ensures_walk6 marks_nil List.nodup_nil).bind ?_
    intro status w1 hadds
    refine ⟨trivial, ?_⟩
    intro entries' group heq hgroup hjoin
    cases heq
    exact hadds group hgroup hjoin

/-- `bind_udp` finds an address for an IPv6 socket, or none. -/
theorem ensures_bindAddr6 (mac : Bool) (bindAddrUdp : InAddr) :
    (bindAddr6 mac bindAddrUdp).Ensures udpWorld anyCall w fun _ _ => True := by
  unfold bindAddr6
  split
  · trivial
  · exact ⟨trivial, trivial⟩

/-- What a success of `bind_udp` is to mean: the socket has been bound, for a specific IPv4 address
    to the broadcast address of an interface with that address. -/
def BoundFor (listener : Listener) (interfaces : Option (List IfAddr)) (bindAddrUdp : InAddr)
    (w' : UdpWorld) : Prop :=
  ∃ b ∈ w'.bound, b.socket = listener.socket ∧
    ∀ addr, bindAddrUdp = .inet addr → addr ≠ inaddrAny →
      ∃ entries, interfaces = some entries ∧
        ∃ e ∈ entries, e.addr = some (.inet addr) ∧ b.addr = .inet (broadcastOf addr e.netmask)

/-- The configured address is a specific IPv4 address that no interface has. -/
def NoInterface (listener : Listener) (interfaces : Option (List IfAddr)) (bindAddrUdp : InAddr) :
    Prop :=
  listener.type.ipv6 = false ∧ ∃ addr entries, bindAddrUdp = .inet addr ∧ addr ≠ inaddrAny ∧
    interfaces = some entries ∧ ∀ e ∈ entries, e.addr ≠ some (.inet addr)

/-- Without such an interface `bind_udp` succeeds, and has bound nothing. -/
theorem ensures_bindUdp_of_noInterface {mac : Bool} {configuration : Config}
    (h : NoInterface listener w.interfaces configuration.bindAddrUdp) :
    (bindUdp mac configuration listener).Ensures udpWorld anyCall w fun status w' =>
      status = .success ∧ w'.bound = w.bound := by
  obtain ⟨hv4, addr, entries, haddr, hany, hif, hnone⟩ := h
  have hfam : ¬ configuration.bindAddrUdp.isInet6 ≠ listener.type.ipv6 := by
    rw [haddr, hv4]
    exact fun h => h rfl
  have hspecific : configuration.bindAddrUdp ≠ .inet inaddrAny := by
    rw [haddr]
    exact fun e => hany (InAddr.inet.inj e)
  unfold bindUdp
  rw [if_neg hfam, if_neg (by rw [hv4]; decide), if_pos hspecific, haddr]
  exact (ensures_iterate_inet addr).mono fun _ _ h => h.1 entries hif hnone

/-- Otherwise a success of `iterate_interfaces` for an IPv4 address is a binding. -/
theorem ensures_iterate_boundFor {addr : Bytes} (hv4 : listener.type.ipv6 = false)
    (hany : addr ≠ inaddrAny) (h : ¬ NoInterface listener w.interfaces (.inet addr)) :
    (iterateInterfaces (.inet addr) listener port).Ensures udpWorld anyCall w fun status w' =>
      status = .success → BoundFor listener w.interfaces (.inet addr) w' := by
  refine (ensures_iterate_inet addr).mono fun status w' hrun hs => ?_
  obtain ⟨entries, hif, hfound⟩ := hrun.2 hs
  cases hfind : entries.find? (hasInet addr) with
  | none =>
    rw [List.find?_eq_none] at hfind
    exact absurd ⟨hv4, addr, entries, rfl, hany, hif,
      fun e he heq => hfind e he (decide_eq_true heq)⟩ h
  | some e =>
    refine ⟨_, hfound e hfind, rfl, ?_⟩
    intro addr' heq _
    cases heq
    have hyes : hasInet addr e = true := List.find?_some hfind
    exact ⟨entries, hif, e, List.mem_of_find?_eq_some hfind, of_decide_eq_true hyes, rfl⟩

/-- **A success means that the socket is bound.**  On a socket that has not been bound before, this
    is so exactly if the configured address is not one that no interface has. -/
theorem bindUdp_truthful_iff (mac : Bool) (configuration : Config) (listener : Listener)
    (w : UdpWorld) (hfresh : w.bound = []) :
    ((bindUdp mac configuration listener).Ensures udpWorld anyCall w fun status w' =>
        status = .success → BoundFor listener w.interfaces configuration.bindAddrUdp w') ↔
      ¬ NoInterface listener w.interfaces configuration.bindAddrUdp := by
  constructor
  · intro hrun hno
    have hunbound : (bindUdp mac configuration listener).Ensures udpWorld anyCall w _ :=
      ensures_bindUdp_of_noInterface hno
    obtain ⟨status, w', heq, hs, hbound⟩ := hunbound.run
    obtain ⟨b, hb, -⟩ := hrun.of_run heq hs
    rw [hbound, hfresh] at hb
    cases hb
  · intro hok
    unfold bindUdp
    split
    · exact ⟨trivial, nofun⟩
    · rename_i hfam
      rw [ne_eq, not_not] at hfam
      cases haddr : configuration.bindAddrUdp with
      | inet6 addr =>
        have hv6 : listener.type.ipv6 = true := by
          rw [← hfam, haddr]
          rfl
        rw [if_pos hv6]
        refine (ensures_iterate_inet6 addr).bind ?_
        intro status w1 _
        cases status with
        | failure => exact ⟨trivial, nofun⟩
        | success =>
          refine (ensures_bindAddr6 mac _).bind ?_
          intro bindAddr w2 _
          cases bindAddr with
          | none => exact nofun
          | some bindAddr =>
            exact (ensures_bindSocket bindAddr).mono fun status w' hbound hs =>
              ⟨_, hbound hs, rfl, nofun⟩
      | inet addr =>
        have hv4 : listener.type.ipv6 = false := by
          rw [← hfam, haddr]
          rfl
        rw [haddr] at hok
        rw [if_neg (by rw [hv4]; decide)]
        by_cases hany : addr = inaddrAny
        · rw [if_neg (not_not.mpr (congrArg InAddr.inet hany))]
          refine (ensures_bindSocket _).mono fun status w' hbound hs => ⟨_, hbound hs, rfl, ?_⟩
          intro addr' heq hspecific
          cases heq
          exact absurd hany hspecific
        · rw [if_pos fun e => hany (InAddr.inet.inj e)]
          exact ensures_iterate_boundFor hv4 hany hok

/-- A host with these interfaces, all with the same index, on which every call succeeds. -/
def UdpWorld.calm (entries : List IfAddr) (index : UInt32) : UdpWorld where
  interfaces := some entries
  index _ := index
  inetPton6 address :=
    if address = multicastAddr then some ([0xff, 0x05] ++ List.replicate 12 0 ++ [0x45, 0x67])
    else none
  reuseOk := true
  bindOk _ := true
  joinOk _ := true
  bound := []
  joined := []
  joins := 0
  log := []

/-- The default configuration with an address for UDP. -/
def Config.withUdp (bindAddrUdp : InAddr) : Config :=
  { applyDefaultConf false Config.unset with bindAddrUdp := bindAddrUdp }

/-- The address of the loopback interface. -/
theorem bindUdp_truthful_iff_loopback :
    (bindUdp false (.withUdp (.inet [127, 0, 0, 1])) ⟨3, ⟨true, false, true⟩⟩).Ensures udpWorld
      anyCall (.calm [⟨ascii "lo", some (.inet [127, 0, 0, 1]), [255, 0, 0, 0]⟩] 1)
      fun status w' => status = .success → BoundFor ⟨3, ⟨true, false, true⟩⟩
        (some [⟨ascii "lo", some (.inet [127, 0, 0, 1]), [255, 0, 0, 0]⟩])
        (.inet [127, 0, 0, 1]) w' := by
  refine (bindUdp_truthful_iff false _ _ _ rfl).mpr ?_
  rintro ⟨-, addr, entries, haddr, -, hif, hnone⟩
  cases haddr
  cases hif
  exact hnone _ List.mem_cons_self rfl

/-- An address that no interface has: `bind_udp` succeeds and has bound nothing. -/
theorem bindUdp_unbound : ∃ w',
    (bindUdp false (.withUdp (.inet [10, 20, 30, 40])) ⟨3, ⟨true, false, true⟩⟩).run udpWorld
        (.calm [⟨ascii "lo", some (.inet [127, 0, 0, 1]), [255, 0, 0, 0]⟩] 1) =
      (some .success, w') ∧ w'.bound = [] :=
  ⟨_, rfl, rfl⟩

/-- Each interface with a matching address has joined once, and no other interface has. -/
def JoinedOnce (w : UdpWorld) (socket : Nat) (group addr : Bytes) (entries : List IfAddr)
    (w' : UdpWorld) : Prop :=
  ∃ indices, w'.joined = memberships socket group indices ∧ indices.Nodup ∧
    ∀ i, i ∈ indices ↔ ∃ e ∈ entries, Matches6 addr e ∧ w.index e.name = i

/-- **Every matching interface joins once** exactly if all of them have an index below 32. -/
theorem iterateInterfaces_joins_iff (listener : Listener) (port : UInt16) (addr : Bytes)
    {w : UdpWorld} {entries : List IfAddr} {group : Bytes} (hif : w.interfaces = some entries)
    (hgroup : w.inetPton6 multicastAddr = some group) (hjoin : ∀ k, w.joinOk k = true)
    (hfresh : w.joined = []) :
    ((iterateInterfaces (.inet6 addr) listener port).Ensures udpWorld anyCall w fun _ w' =>
        JoinedOnce w listener.socket group addr entries w') ↔
      ∀ e ∈ entries, Matches6 addr e → (w.index e.name).toNat < 32 := by
  have hrun : (iterateInterfaces (.inet6 addr) listener port).Ensures udpWorld anyCall w fun _ w' =>
      Adds w listener.socket group addr entries [] w' :=
    (ensures_iterate_inet6 addr).mono fun _ _ h => h entries group hif hgroup hjoin
  constructor
  · intro honce e he hmatch
    obtain ⟨status, w', heq, indices, hjoined, -, hmem⟩ := hrun.run
    obtain ⟨indices', hjoined', -, hmem'⟩ := honce.of_run heq
    rw [hfresh, List.nil_append, hjoined'] at hjoined
    have hindex : w.index e.name ∈ indices' := (hmem' _).mpr ⟨e, he, hmatch, rfl⟩
    have hin : (⟨listener.socket, w.index e.name, group⟩ : Membership) ∈
        memberships listener.socket group indices := by
      rw [← hjoined]
      exact List.mem_map.mpr ⟨_, hindex, rfl⟩
    obtain ⟨i, hi, heqi⟩ := List.mem_map.mp hin
    cases heqi
    rcases (hmem _).mp hi with hseen | ⟨hlt, -⟩
    · cases hseen
    · exact hlt
  · intro hall
    refine hrun.mono fun _ w' => ?_
    rintro ⟨indices, hjoined, hnodup, hmem⟩
    rw [hfresh, List.nil_append] at hjoined
    rw [List.nil_append] at hnodup hmem
    refine ⟨indices, hjoined, hnodup, fun i => (hmem i).trans ⟨?_, ?_⟩⟩
    · rintro (hseen | ⟨-, hi⟩)
      · cases hseen
      · exact hi
    · rintro ⟨e, he, hmatch, rfl⟩
      exact .inr ⟨hall e he hmatch, e, he, hmatch, rfl⟩

/-- An interface with two addresses, under the wildcard. -/
theorem iterateInterfaces_joins_iff_twice :
    (iterateInterfaces (.inet6 in6addrAny) ⟨3, ⟨true, true, true⟩⟩ 4337).Ensures udpWorld anyCall
      (.calm [⟨ascii "lo", some (.inet6 (List.replicate 15 0 ++ [1])), []⟩,
        ⟨ascii "lo", some (.inet6 (List.replicate 15 0 ++ [2])), []⟩] 1)
      fun _ w' => JoinedOnce (.calm [] 1) 3 ([0xff, 0x05] ++ List.replicate 12 0 ++ [0x45, 0x67])
        in6addrAny [⟨ascii "lo", some (.inet6 (List.replicate 15 0 ++ [1])), []⟩,
          ⟨ascii "lo", some (.inet6 (List.replicate 15 0 ++ [2])), []⟩] w' :=
  (iterateInterfaces_joins_iff ⟨3, ⟨true, true, true⟩⟩ 4337 in6addrAny rfl rfl (fun _ => rfl)
    rfl).mpr fun _ _ _ => (by decide : (1 : UInt32).toNat < 32)

/-- An interface with the index 32 does not join. -/
theorem iterateInterfaces_past_table : ∃ w',
    (iterateInterfaces (.inet6 in6addrAny) ⟨3, ⟨true, true, true⟩⟩ 4337).run udpWorld
        (.calm [⟨ascii "eth0", some (.inet6 (List.replicate 15 0 ++ [1])), []⟩] 32) =
      (some .success, w') ∧ w'.joined = [] :=
  ⟨_, rfl, rfl⟩

end ClipShare
