import ClipShare.Server.Config
import ClipShare.Server.NetUtils

namespace ClipShare

open Interaction Posix

/-!
# Binding the sockets

The functions of `net_utils.c` that bind a listener, for Linux and macOS.

* `IfAddr` — an entry of the list that `getifaddrs` delivers;
* `UdpCall` — the calls, and `UdpWorld` — what they answer and what they have done;
* `bindSocket` — `bind_socket`;
* `joinMulticastGroup`, `iterateInterfaces` — the walk over the interfaces;
* `bindUdp` — `bind_udp`.
-/

/-- The address of an interface; all families but two are passed over. -/
inductive SockAddr
  | inet (addr : Bytes)
  | inet6 (addr : Bytes)
  | other
  deriving DecidableEq, Repr

/-- `struct ifaddrs`: a name, the address if there is one, and the netmask of an IPv4 address. -/
structure IfAddr where
  name : Bytes
  addr : Option SockAddr
  netmask : Bytes
  deriving DecidableEq, Repr

/-- What the type of a listener says: is it valid, for which version of IP, and for UDP? -/
structure ListenerType where
  valid : Bool
  ipv6 : Bool
  udp : Bool
  deriving DecidableEq, Repr

/-- `listener_t`. -/
structure Listener where
  socket : Nat
  type : ListenerType
  deriving DecidableEq, Repr

/-- A call of `bind`. -/
structure Binding where
  socket : Nat
  addr : InAddr
  port : UInt16
  deriving DecidableEq

/-- A call of `setsockopt` for `IPV6_ADD_MEMBERSHIP`. -/
structure Membership where
  socket : Nat
  interfaceIndex : UInt32
  group : Bytes
  deriving DecidableEq

/-! ### Calls -/

inductive UdpCall
  | getifaddrs
  | freeifaddrs
  | ifNameToIndex (name : Bytes)
  | inetPton6 (address : Bytes)
  | setReuseAddr (socket : Nat)
  | bind (binding : Binding)
  | join (membership : Membership)
  | error (msg : Bytes)

/-- The answers: calls that may fail say whether they succeeded. -/
@[reducible] def UdpCall.Resp : UdpCall → Type
  | .getifaddrs => Option (List IfAddr)
  | .ifNameToIndex _ => UInt32
  | .inetPton6 _ => Option Bytes
  | .setReuseAddr _ | .bind _ | .join _ => Bool
  | .freeifaddrs | .error _ => Unit

abbrev UdpCalls : Sig := ⟨UdpCall, UdpCall.Resp⟩

/-- A program on the sockets. -/
abbrev UdpProc := Prog UdpCalls

def getifaddrs : UdpProc (Option (List IfAddr)) := Prog.ask (S := UdpCalls) .getifaddrs id
def freeifaddrs : UdpProc Unit := Prog.ask (S := UdpCalls) .freeifaddrs id
def ifNameToIndex (name : Bytes) : UdpProc UInt32 :=
  Prog.ask (S := UdpCalls) (.ifNameToIndex name) id
def inetPton6 (address : Bytes) : UdpProc (Option Bytes) :=
  Prog.ask (S := UdpCalls) (.inetPton6 address) id
def setReuseAddr (socket : Nat) : UdpProc Bool := Prog.ask (S := UdpCalls) (.setReuseAddr socket) id
def bindCall (binding : Binding) : UdpProc Bool := Prog.ask (S := UdpCalls) (.bind binding) id
def joinCall (membership : Membership) : UdpProc Bool :=
  Prog.ask (S := UdpCalls) (.join membership) id
def udpError (msg : Bytes) : UdpProc Unit := Prog.ask (S := UdpCalls) (.error msg) id

/-- The interfaces (none if they cannot be listed), the index of each name, what `inet_pton` makes
    of a text, which calls succeed, and what has been bound, joined and logged. -/
structure UdpWorld where
  interfaces : Option (List IfAddr)
  index : Bytes → UInt32
  inetPton6 : Bytes → Option Bytes
  reuseOk : Bool
  bindOk : Binding → Bool
  joinOk : Nat → Bool
  bound : List Binding
  joined : List Membership
  joins : Nat
  log : List Bytes

/-- What the calls do. -/
def udpWorld : Machine UdpCalls UdpWorld
  | .getifaddrs, w => (w.interfaces, w)
  | .freeifaddrs, w => ((), w)
  | .ifNameToIndex name, w => (w.index name, w)
  | .inetPton6 address, w => (w.inetPton6 address, w)
  | .setReuseAddr _, w => (w.reuseOk, w)
  | .bind binding, w =>
      if w.bindOk binding then (true, { w with bound := w.bound ++ [binding] }) else (false, w)
  | .join membership, w =>
      if w.joinOk w.joins then
        (true, { w with joins := w.joins + 1, joined := w.joined ++ [membership] })
      else (false, { w with joins := w.joins + 1 })
  | .error msg, w => ((), { w with log := w.log ++ [msg] })

/-! ### Addresses -/

/-- `MULTICAST_ADDR`. -/
def multicastAddr : Bytes := ascii "ff05::4567"

/-- `INADDR_ANY`. -/
def inaddrAny : Bytes := [0, 0, 0, 0]

/-- `in6addr_any`. -/
def in6addrAny : Bytes := List.replicate 16 0

/-- The broadcast address: the bits outside of the netmask are set. -/
def broadcastOf (addr netmask : Bytes) : Bytes := List.zipWith (fun a m => a ||| ~~~ m) addr netmask

/-- Is the address one of IPv6 (`AF_INET6`)? -/
def InAddr.isInet6 : InAddr → Bool
  | .inet _ => false
  | .inet6 _ => true

/-! ### The functions -/

/-- `bind_socket`. -/
def bindSocket (listener : Listener) (bindAddr : InAddr) (port : UInt16) : UdpProc Status := do
  if !listener.type.valid then return .failure
  else if bindAddr.isInet6 ≠ listener.type.ipv6 then do
    udpError (ascii "Bind address and listener address family mismatch")
    return .failure
  else if ← (if listener.type.udp then pure false
      else do return !(← setReuseAddr listener.socket)) then do
    udpError (ascii "Can't set the reuse option on the socket")
    return .failure
  else if !(← bindCall ⟨listener.socket, bindAddr, port⟩) then do
    let tcpUdp := if listener.type.udp then ascii "UDP" else ascii "TCP"
    udpError ((snprintfCheck 32
      (ascii "Can't bind to " ++ tcpUdp ++ ascii " port " ++ decimal port.toNat)).getD [])
    return .failure
  else return .success

/-- `join_multicast_group`. -/
def joinMulticastGroup (socket : Nat) (interfaceIndex : UInt32) (multicast : Bytes) :
    UdpProc Status := do
  if !(← joinCall ⟨socket, interfaceIndex, multicast⟩) then do
    udpError (ascii "Join multicast group failed")
    return .failure
  else return .success

/-- The loop of `iterate_interfaces`, with `if_joined`. -/
def walkInterfaces (interfaceAddr : InAddr) (listener : Listener) (port : UInt16) :
    Bytes → List IfAddr → UdpProc Status
  | _, [] => return .success
  | ifJoined, entry :: entries =>
    match entry.addr, interfaceAddr with
    | some (.inet ifaddr), .inet addr =>
        if ifaddr ≠ addr then walkInterfaces interfaceAddr listener port ifJoined entries
        else do
          -- the walk ends here, whether the socket could be bound or not
          match ← bindSocket listener (.inet (broadcastOf ifaddr entry.netmask)) port with
          | .success => return .success
          | .failure => return .failure
    | some (.inet6 ifaddr), .inet6 addr =>
        if addr ≠ in6addrAny ∧ ifaddr ≠ addr then
          walkInterfaces interfaceAddr listener port ifJoined entries
        else do
          match ← inetPton6 multicastAddr with
          | none => return .failure
          | some multicast =>
            let ifindex ← ifNameToIndex entry.name
            if ifindex.toNat ≥ ifJoined.length ∨ ifJoined.getD ifindex.toNat 0 ≠ 0 then
              walkInterfaces interfaceAddr listener port ifJoined entries
            else match ← joinMulticastGroup listener.socket ifindex multicast with
              | .failure => return .failure
              | .success =>
                walkInterfaces interfaceAddr listener port (ifJoined.set ifindex.toNat 1) entries
    | _, _ => walkInterfaces interfaceAddr listener port ifJoined entries

/-- `iterate_interfaces`. -/
def iterateInterfaces (interfaceAddr : InAddr) (listener : Listener) (port : UInt16) :
    UdpProc Status := do
  match ← getifaddrs with
  | none => return .failure
  | some entries =>
    let status ← walkInterfaces interfaceAddr listener port (List.replicate 32 0) entries
    freeifaddrs
    return status

/-- The address that `bind_udp` binds an IPv6 socket to: the group itself, or on macOS the
    configured address; none if the group is no address. -/
def bindAddr6 (mac : Bool) (bindAddrUdp : InAddr) : UdpProc (Option InAddr) := do
  if mac then return some bindAddrUdp
  else return (← inetPton6 multicastAddr).map .inet6

/-- `bind_udp`; `mac` tells whether this is macOS. -/
def bindUdp (mac : Bool) (configuration : Config) (listener : Listener) : UdpProc Status := do
  if configuration.bindAddrUdp.isInet6 ≠ listener.type.ipv6 then do
    udpError (ascii "UDP address family mismatch")
    return .failure
  else if listener.type.ipv6 then do
    match ← iterateInterfaces configuration.bindAddrUdp listener configuration.ports.udp with
    | .failure => do
        udpError (ascii "Interface iteration failed")
        return .failure
    | .success =>
      match ← bindAddr6 mac configuration.bindAddrUdp with
      | none => return .failure
      | some bindAddr => bindSocket listener bindAddr configuration.ports.udp
  else if configuration.bindAddrUdp ≠ .inet inaddrAny then
    iterateInterfaces configuration.bindAddrUdp listener configuration.ports.udp
  else bindSocket listener (.inet inaddrAny) configuration.ports.udp

end ClipShare
