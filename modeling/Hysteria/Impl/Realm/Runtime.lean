import Hysteria.Impl.Realm.Stun

/-!
# The socket of a Realm server

`hysteria`, `realm_runtime.rs`: what `start` makes of `realm.ipMode`, and the UDP
socket it binds. `UdpBinding.reports` is what the operating system tells about a
peer of such a socket.
-/

namespace Hysteria.Impl

open Framework

def parseFamily (value : Str) : Except Str AddrFamily :=
  let mode := toAsciiLowercase (trim value)
  if mode = [] ∨ mode = "dual" then .ok .any
  else if mode = "v4" then .ok .ipv4
  else if mode = "v6" then .ok .ipv6
  else .error "realm.ipMode must be dual, v4, or v6"

def bindAddress (family : AddrFamily) (localPort : UInt16) : SocketAddr :=
  match family with
  | .ipv4 => { ip := .v4 0, port := localPort }
  | .any | .ipv6 => { ip := .v6 0, port := localPort }

/-- A bound UDP socket; `onlyV6` is none for an IPv4 socket. -/
structure UdpBinding where
  address : SocketAddr
  onlyV6 : Option Bool
deriving DecidableEq

def udpSocket (address : SocketAddr) : UdpBinding where
  address
  onlyV6 := if address.ip.isIpv4 then none else some false

/-- `Ipv4Addr::to_ipv6_mapped`. -/
def mappedIp (bits : BitVec 32) : IpAddr := .v6 (0xffff#96 ++ bits)

/-- The source that `recv_from` gives for a peer: an IPv6 socket that is not for IPv6 only
has IPv4 peers under their mapped addresses. -/
def UdpBinding.reports (binding : UdpBinding) (peer : SocketAddr) : SocketAddr :=
  match binding.onlyV6, peer.ip with
  | some false, .v4 bits => { peer with ip := mappedIp bits }
  | _, _ => peer

/-- The socket of `start`. -/
def startSocket (family : AddrFamily) (localPort : Option UInt16) : UdpBinding :=
  udpSocket (bindAddress family (localPort.getD 0))

end Hysteria.Impl
