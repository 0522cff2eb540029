import Mathlib.Data.List.Sort
import Hysteria.Impl.Realm.PunchPacket
import Hysteria.Impl.Transport.RealmSocket

/-!
# The addresses of a hole punch

`hysteria-realm`, `engine.rs`: the addresses that `punch` and `respond` try
(`candidatePunchAddresses`).
-/

namespace Hysteria.Impl

open Framework

def symmetricPortGap : Nat := 4
def symmetricExtraPorts : Nat := 4
def symmetricMaxPortsPerHost : Nat := 32

structure PunchFamilies where
  ipv4 : Bool
  ipv6 : Bool
deriving DecidableEq

def PunchFamilies.new (localAddresses : List SocketAddr) : AddrFamily → PunchFamilies
  | .ipv4 => ⟨true, false⟩
  | .ipv6 => ⟨false, true⟩
  | .any =>
    let value : PunchFamilies := ⟨localAddresses.any (·.ip.isIpv4), localAddresses.any (!·.ip.isIpv4)⟩
    if !value.ipv4 && !value.ipv6 then ⟨true, true⟩ else value

def PunchFamilies.allows (families : PunchFamilies) (ip : IpAddr) : Bool :=
  if ip.isIpv4 then families.ipv4 else families.ipv6

/-- What `Ord` of `SocketAddr` compares, in this order. -/
def addressKey (address : SocketAddr) : List Nat :=
  match address.ip with
  | .v4 bits => [0, bits.toNat, address.port.toNat]
  | .v6 bits => [1, bits.toNat, address.port.toNat, address.scopeId.toNat]

/-- `BTreeSet::insert`, the set being its elements in ascending order. -/
def btreeInsert (address : SocketAddr) : List SocketAddr → List SocketAddr
  | [] => [address]
  | first :: rest =>
    if address = first then first :: rest
    else if addressKey address < addressKey first then address :: first :: rest
    else first :: btreeInsert address rest

def predictablePorts (ports : List Nat) : Bool :=
  2 ≤ ports.length && (ports.zip ports.tail).all fun (a, b) => b - a ≤ symmetricPortGap

/-- The loop over the ports of one host; `added` counts those that are new. -/
def insertPorts (ip : IpAddr) : Nat → List Nat → List SocketAddr → List SocketAddr
  | _, [], candidates => candidates
  | added, port :: ports, candidates =>
    let address : SocketAddr := { ip, port := UInt16.ofNat port }
    if address ∈ candidates then insertPorts ip added ports candidates
    else if added + 1 = symmetricMaxPortsPerHost then btreeInsert address candidates
    else insertPorts ip (added + 1) ports (btreeInsert address candidates)

/-- The ports of a host that its NAT may use next. -/
def expandHost (candidates : List SocketAddr) (host : IpAddr × List Nat) : List SocketAddr :=
  let ports := (host.2.insertionSort (· ≤ ·)).dedup
  if predictablePorts ports then
    let first := ports.headD 0
    let last := min (ports.getLastD 0 + symmetricExtraPorts) 65535
    insertPorts host.1 0 (List.range' first (last + 1 - first)) candidates
  else candidates

def candidatePunchAddresses (localAddresses peerAddresses : List SocketAddr) (family : AddrFamily) : List SocketAddr :=
  let families := PunchFamilies.new localAddresses family
  let allowed := peerAddresses.filter fun address => address.port ≠ 0 ∧ families.allows address.ip
  let candidates := allowed.foldr btreeInsert []
  let ipv4 := candidates.filter (·.ip.isIpv4)
  let portsByIp := (ipv4.map (·.ip)).dedup.map fun ip =>
    (ip, (ipv4.filter (·.ip = ip)).map (·.port.toNat))
  portsByIp.foldl expandHost candidates

end Hysteria.Impl
