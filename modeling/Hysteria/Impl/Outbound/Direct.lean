import Hysteria.Impl.Outbound.Acl

/-!
# The direct outbound

`hysteria`, `outbound.rs`: `ConfigurableDirect` and its UDP sockets. `Backend`
is an outbound as `build_backend` makes it for the ACL: a direct one, with the
resolver of the ACL, or any other.
-/

namespace Hysteria.Impl

open Framework

variable {τ κ : Type} (lib : Libraries) (outside : Outside) (resolver : Resolver)

inductive DirectMode where
  | auto
  | prefer6
  | prefer4
  | only6
  | only4
deriving DecidableEq

/-- `ConfigurableDirect`; the addresses it binds to matter only in being there. -/
structure ConfigurableDirect where
  mode : DirectMode
  bindV4 : Bool
  bindV6 : Bool

/-- `ConfigurableDirectUdp`: which of its two sockets it has. -/
structure ConfigurableDirectUdp where
  mode : DirectMode
  v4 : Bool
  v6 : Bool

/-- The socket addresses of a request address. -/
def resolveAddress (address : Str) (w : World) :
    Except TransportError (Option SocketAddr × Option SocketAddr) × World :=
  match parseHostPort lib address with
  | .error error => (.error (.protocol error), w)
  | .ok (host, port) =>
    let (resolved, w) := resolver.resolve outside host port w
    (.ok (resolved.ipv4.map ({ ip := ·, port }), resolved.ipv6.map ({ ip := ·, port })), w)

def ConfigurableDirect.resolve (address : Str) (w : World) :
    Except TransportError (Option SocketAddr × Option SocketAddr) × World :=
  match resolveAddress lib outside resolver address w with
  | (.ok (none, none), w) => (.error (protocolError "no IPv4 or IPv6 address available"), w)
  | r => r

def ConfigurableDirect.dial (address : SocketAddr) (w : World) : Except TransportError Unit × World :=
  match outside.bind w.asked address.ip.isIpv4 with
  | .error error => (.error error, w.ask)
  | .ok () =>
    let w := w.ask
    (outside.connect w.asked address, { w.ask with contacted := w.contacted ++ [address] })

/-- Both addresses at once: the first dial that succeeds. -/
def ConfigurableDirect.dialBoth (ipv4 ipv6 : SocketAddr) (w : World) : Except TransportError Unit × World :=
  let first := outside.race w.asked
  let (r4, w) := dial outside ipv4 w.ask
  let (r6, w) := dial outside ipv6 w
  match if first then (r4, r6) else (r6, r4) with
  | (.ok (), _) => (.ok (), w)
  | (.error _, r) => (r, w)

def ConfigurableDirect.dialSome (address : Option SocketAddr) (missing : String) (w : World) :
    Except TransportError Unit × World :=
  match address with
  | some address => dial outside address w
  | none => (.error (protocolError missing), w)

def ConfigurableDirect.tcp (d : ConfigurableDirect) (address : Str) (w : World) : Except TransportError Unit × World :=
  match resolve lib outside resolver address w with
  | (.error error, w) => (.error error, w)
  | (.ok (ipv4, ipv6), w) =>
    match d.mode, ipv4, ipv6 with
    | .auto, some ipv4, some ipv6 => dialBoth outside ipv4 ipv6 w
    | .auto, ipv4, ipv6 => dialSome outside (ipv4.or ipv6) "no address available" w
    | .prefer4, ipv4, ipv6 => dialSome outside (ipv4.or ipv6) "no address available" w
    | .prefer6, ipv4, ipv6 => dialSome outside (ipv6.or ipv4) "no address available" w
    | .only4, ipv4, _ => dialSome outside ipv4 "no IPv4 address available" w
    | .only6, _, ipv6 => dialSome outside ipv6 "no IPv6 address available" w

/-- `choose_udp_family`: whether it is IPv4. -/
def ConfigurableDirect.chooseUdpFamily (d : ConfigurableDirect) (ipv4 ipv6 : Option SocketAddr) :
    Except TransportError Bool :=
  let family := match d.mode with
    | .auto | .prefer4 => (ipv4.map fun _ => true).or (ipv6.map fun _ => false)
    | .prefer6 => (ipv6.map fun _ => false).or (ipv4.map fun _ => true)
    | .only4 => ipv4.map fun _ => true
    | .only6 => ipv6.map fun _ => false
  match family with
  | some family => .ok family
  | none => .error (protocolError "no address available for direct outbound mode")

/-- Binds one of the two sockets, if it is wanted. -/
def ConfigurableDirect.bindUdp (want ipv4 : Bool) (w : World) : Except TransportError Bool × World :=
  if want then
    match outside.bind w.asked ipv4 with
    | .ok () => (.ok true, w.ask)
    | .error error => (.error error, w.ask)
  else (.ok false, w)

def ConfigurableDirect.udp (d : ConfigurableDirect) (address : Str) (w : World) :
    Except TransportError ConfigurableDirectUdp × World :=
  match resolve lib outside resolver address w with
  | (.error error, w) => (.error error, w)
  | (.ok (ipv4, ipv6), w) =>
    let locked := if d.bindV4 || d.bindV6 then (d.chooseUdpFamily ipv4 ipv6).map some else .ok none
    match locked with
    | .error error => (.error error, w)
    | .ok locked =>
      let (v4, w) := bindUdp outside (locked ≠ some false ∧ d.mode ≠ .only6) true w
      let (v6, w) := bindUdp outside (locked ≠ some true ∧ d.mode ≠ .only4) false w
      let sockets : Except TransportError (Bool × Bool) := match v4, v6 with
        | .ok v4, .ok v6 => .ok (v4, v6)
        | .ok true, .error error => if d.bindV6 then .error error else .ok (true, false)
        | .error error, .ok true => if d.bindV4 then .error error else .ok (false, true)
        | .error error, _ => .error error
        | _, .error error => .error error
      match sockets with
      | .error error => (.error error, w)
      | .ok (v4, v6) =>
        if ¬ v4 ∧ ¬ v6 then (.error (protocolError "direct UDP socket has no address family"), w)
        else (.ok { mode := d.mode, v4, v6 }, w)

def ConfigurableDirectUdp.sendTo (s : ConfigurableDirectUdp) (data : List UInt8) (address : Str) (w : World) :
    Except TransportError Nat × World :=
  match resolveAddress lib outside resolver address w with
  | (.error error, w) => (.error error, w)
  | (.ok (ipv4, ipv6), w) =>
    let choices := match s.mode with
      | .auto | .prefer4 => [ipv4, ipv6]
      | .prefer6 => [ipv6, ipv4]
      | .only4 => [ipv4, none]
      | .only6 => [ipv6, none]
    match (choices.filterMap id).find? fun target => if target.ip.isIpv4 then s.v4 else s.v6 with
    | none => (.error (protocolError "no address available for UDP socket family"), w)
    | some target =>
      ((outside.sendTo w.asked target data).mapError .io, { w.ask with contacted := w.contacted ++ [target] })

/-- What `recv_from` makes of a datagram that came in on one of the sockets; the
buffer cuts off what does not fit. -/
def ConfigurableDirectUdp.recvFrom (bufferLen : Nat) (data : List UInt8) (source : SocketAddr) : List UInt8 × Str :=
  (data.take bufferLen, source.display)

def ConfigurableDirect.server (d : ConfigurableDirect) : ServerOutbound World ConfigurableDirectUdp Unit where
  tcp := d.tcp lib outside resolver
  udp := d.udp lib outside resolver
  sendTo s := s.sendTo lib outside resolver

/-- An outbound that the ACL can pick. -/
inductive Backend (τ κ : Type) where
  | direct (d : ConfigurableDirect)
  | other (server : ServerOutbound World τ κ)

/-- An outbound that is not direct adds nothing to what direct outbounds
contacted, and takes no question back. -/
def World.keepContacted {α : Type} (f : World → α × World) (w : World) : α × World :=
  ((f w).1, { (f w).2 with asked := max w.asked (f w).2.asked, contacted := w.contacted })

/-- `build_backend`. -/
def Backend.server : Backend τ κ → ServerOutbound World (ConfigurableDirectUdp ⊕ τ) (Unit ⊕ κ)
  | .direct d =>
    { tcp := fun address w => Prod.map (Except.map .inl) id ((d.server lib outside resolver).tcp address w)
      udp := fun address w => Prod.map (Except.map .inl) id ((d.server lib outside resolver).udp address w)
      checkUdp := (d.server lib outside resolver).checkUdp
      sendTo := fun socket data address w =>
        match socket with
        | .inl socket => (d.server lib outside resolver).sendTo socket data address w
        | .inr _ => (.ok 0, w) }
  | .other server =>
    { tcp := fun address => World.keepContacted fun w => Prod.map (Except.map .inr) id (server.tcp address w)
      udp := fun address => World.keepContacted fun w => Prod.map (Except.map .inr) id (server.udp address w)
      checkUdp := fun address => World.keepContacted (server.checkUdp address)
      sendTo := fun socket data address =>
        match socket with
        | .inl _ => fun w => (.ok 0, w)
        | .inr socket => World.keepContacted (server.sendTo socket data address) }

end Hysteria.Impl
