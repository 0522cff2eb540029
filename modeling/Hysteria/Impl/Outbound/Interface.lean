import Hysteria.Framework.Ip
import Hysteria.Impl.Error

/-!
# The interface of the outbounds

The traits of `hysteria-transport` that the server is configured with
(`outbound.rs`, `proxy.rs`). A trait object is a record of its methods. They
may do anything to the world outside the server, whose state `σ` they take and
return; `τ` is the type of the sockets of an outbound.

Requests have an address, which is a host and a port in one string (`hysteria`,
`outbound.rs`). `Libraries` are the functions of other crates that addresses and ACL
rules go through, and the one of the standard library that needs Unicode tables.
-/

namespace Hysteria.Impl

open Framework

/-! ## Addresses -/

structure Libraries where
  /-- `str::parse::<http::uri::Authority>`: `host()` and `port_u16()`, or the text of the error. -/
  authority : Str → Except Str (Str × Option UInt16)
  /-- `idna::domain_to_unicode(..).0`. -/
  domainToUnicode : Str → Str
  /-- `regex::Regex::new` and `is_match`. -/
  regex : Str → Except Str (Str → Bool)
  /-- `{:?}` of a string. -/
  debug : Str → Str

def protocolError (message : String) : TransportError := .protocol message.toList

def parseHostPort (lib : Libraries) (address : Str) : Except Str (Str × UInt16) :=
  match lib.authority address with
  | .error error => .error ("invalid address " ++ lib.debug address ++ ": " ++ error)
  | .ok (host, some port) => .ok (host, port)
  | .ok (_, none) => .error ("address " ++ lib.debug address ++ " requires a port")

def formatAuthority (host : Str) (port : UInt16) : Str :=
  if ':' ∈ host ∧ host.head? ≠ some '[' then '[' :: host ++ "]:" ++ showNat port.toNat
  else host ++ ':' :: showNat port.toNat

/-! ## Traits -/

/-- `ServerOutbound`, with the `send_to` of the `OutboundUdpSocket`s it opens
and the type `κ` of its streams. -/
structure ServerOutbound (σ τ κ : Type) where
  tcp : Str → σ → Except TransportError κ × σ
  udp : Str → σ → Except TransportError τ × σ
  checkUdp : Str → σ → Except TransportError Unit × σ := fun _ world => (.ok (), world)
  sendTo : τ → List UInt8 → Str → σ → Except TransportError Nat × σ

/-- `RequestHook`, as a UDP session uses it: `udp` returns the address it wrote
back. -/
structure RequestHook where
  check : Bool → Str → Bool
  udp : List UInt8 → Str → Except TransportError Str

abbrev TrafficLogger (σ : Type) := Str → UInt64 → UInt64 → σ → Bool × σ

/-- `log_traffic`: whether the connection may go on. -/
def logTraffic {σ : Type} (logger : Option (TrafficLogger σ)) (authId : Str) (tx rx : UInt64) (world : σ) : Bool × σ :=
  match logger with
  | none => (true, world)
  | some logger => logger authId tx rx world

end Hysteria.Impl
