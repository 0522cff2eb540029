import Mathlib.Data.Finset.Dedup
import Mathlib.Data.Finset.Erase
import Mathlib.Data.Finset.Insert
import Hysteria.Framework.Bytes
import Hysteria.Framework.Ip

/-!
# STUN

`hysteria-realm`, `stun.rs`: the servers that are asked (`prepareRequests`), binding
responses (`parseBindingResponse`), and the loop of `discover`, which waits on a
socket of its own.
-/

namespace Hysteria.Impl

open Framework

def magicCookie : Nat := 0x2112a442
def bindingSuccess : Nat := 0x0101
def mappedAddress : Nat := 0x0001
def xorMappedAddress : Nat := 0x0020
def defaultStunPort : UInt16 := 3478

inductive AddrFamily where
  | any
  | ipv4
  | ipv6
deriving DecidableEq

def AddrFamily.allows : AddrFamily → IpAddr → Bool
  | .any, _ => true
  | .ipv4, .v4 _ => true
  | .ipv6, .v6 _ => true
  | .ipv4, .v6 _ => false
  | .ipv6, .v4 _ => false

inductive StunError where
  | invalidConfig (message : Str)
  | io (message : Str)
  | timeout
  | invalidPacket (message : Str)
  | random (message : Str)
deriving DecidableEq

/-! ## Requests -/

structure StunRequest where
  server : SocketAddr
  transaction : List UInt8
deriving DecidableEq

def splitServer (server : Str) : Except StunError (Str × UInt16) :=
  if server = [] then .error (.invalidConfig "STUN server is empty")
  else
    match parseSocketAddr server with
    | some address => .ok (address.ip.display, address.port)
    | none =>
      match parseIpAddr server with
      | some ip => .ok (ip.display, defaultStunPort)
      | none =>
        let noPort : Except StunError (Str × UInt16) :=
          if ':' ∈ server then .error (.invalidConfig "invalid STUN server address")
          else .ok (server, defaultStunPort)
        match rsplitOnce ':' server with
        | none => noPort
        | some (host, port) =>
          if host = [] ∨ port = [] ∨ ':' ∈ host then noPort
          else
            match parseU16 port with
            | none => .error (.invalidConfig "invalid STUN server port")
            | some port =>
              if port = 0 then .error (.invalidConfig "invalid STUN server port") else .ok (host, port)

/-- The addresses of a server that are asked for, without those there are. -/
def addServers (family : AddrFamily) (output addresses : List SocketAddr) : List SocketAddr := addresses.foldl
    (fun output address => if family.allows address.ip ∧ address ∉ output then output ++ [address] else output) output

/-- `resolve_servers`; `lookupHost` is `tokio::net::lookup_host`. -/
def resolveServers (lookupHost : Str → UInt16 → Except Str (List SocketAddr)) (family : AddrFamily)
    (servers : List Str) : Except StunError (List SocketAddr) :=
  servers.foldlM
    (fun output server => do
      let (host, port) ← splitServer server
      match lookupHost host port with
      | .error error => .error (.io error)
      | .ok addresses => .ok (addServers family output addresses))
    []

/-- `prepare_requests`; `transactionId` is what the random source gives for each server. -/
def prepareRequests (lookupHost : Str → UInt16 → Except Str (List SocketAddr))
    (transactionId : Nat → Except Str (List UInt8)) (family : AddrFamily) (servers : List Str) :
    Except StunError (List StunRequest) := do
  if servers = [] then .error (.invalidConfig "at least one STUN server is required")
  else
    let addresses ← resolveServers lookupHost family servers
    if addresses = [] then .error (.invalidConfig "no STUN addresses match the requested family")
    else
      addresses.zipIdx.mapM fun (server, index) =>
        match transactionId index with
        | .error error => .error (.random error)
        | .ok transaction => .ok { server, transaction }

/-! ## Responses -/

def xorBytes (bytes mask : List UInt8) : List UInt8 := bytes.zipWith (· ^^^ ·) mask

def parseAddress (value : List UInt8) (xor : Bool) (transaction : List UInt8) : Except StunError SocketAddr :=
  match value with
  | zero :: family :: high :: low :: bytes =>
    if zero ≠ 0 then .error (.invalidPacket "invalid mapped address")
    else
      let port := UInt16.ofNat (beNat [high, low])
      let port := if xor then port ^^^ UInt16.ofNat (magicCookie / 2 ^ 16) else port
      if family = 0x01 ∧ bytes.length = 4 then
        let bytes := if xor then xorBytes bytes (beBytes 4 magicCookie) else bytes
        .ok { ip := .v4 (BitVec.ofNat 32 (beNat bytes)), port }
      else if family = 0x02 ∧ bytes.length = 16 then
        let bytes := if xor then xorBytes bytes (beBytes 4 magicCookie ++ transaction) else bytes
        .ok { ip := .v6 (BitVec.ofNat 128 (beNat bytes)), port }
      else .error (.invalidPacket "invalid mapped address family or length")
  | _ => .error (.invalidPacket "invalid mapped address")

/-- How the reading of a packet can end without an answer. -/
inductive ParseFailure where
  | error (error : StunError)
  /-- An index or a slice out of bounds. -/
  | outOfBounds
  /-- The rounds given to the loop are used up. -/
  | unfinished
deriving DecidableEq

/-- `u16::from_be_bytes([packet[position], packet[position + 1]])`. -/
def wordAt (packet : List UInt8) (position : Nat) : Except ParseFailure Nat :=
  match slice packet position (position + 2) with
  | some bytes => .ok (beNat bytes)
  | none => .error .outOfBounds

/-- The loop over the attributes, from `position` to `stop`: the last `MAPPED-ADDRESS` and the
last `XOR-MAPPED-ADDRESS`. -/
def parseAttributes (packet transaction : List UInt8) (stop : Nat) :
    (rounds position : Nat) → (mapped xorMapped : Option SocketAddr) →
      Except ParseFailure (Option SocketAddr × Option SocketAddr)
  | 0, _, _, _ => .error .unfinished
  | rounds + 1, position, mapped, xorMapped =>
    if position + 4 ≤ stop then do
      let kind ← wordAt packet position
      let length ← wordAt packet (position + 2)
      let position := position + 4
      if position + length > stop then .error (.error (.invalidPacket "truncated attribute"))
      else
        match slice packet position (position + length) with
        | none => .error .outOfBounds
        | some value =>
          let next := position + (length + 3) / 4 * 4
          let address (xor : Bool) := (parseAddress value xor transaction).toOption
          if kind = xorMappedAddress then
            parseAttributes packet transaction stop rounds next mapped (address true)
          else if kind = mappedAddress then
            parseAttributes packet transaction stop rounds next (address false) xorMapped
          else parseAttributes packet transaction stop rounds next mapped xorMapped
    else .ok (mapped, xorMapped)

def parseBindingResponse (packet : List UInt8) : Except ParseFailure (List UInt8 × SocketAddr) :=
  match packet with
  | kind :: _ =>
    if packet.length < 20 ∨ kind &&& 0xc0 ≠ 0 then .error (.error (.invalidPacket "truncated header"))
    else do
      if (← wordAt packet 0) ≠ bindingSuccess then
        .error (.error (.invalidPacket "not a binding success response"))
      else
        let bodyLength ← wordAt packet 2
        if packet.length < 20 + bodyLength ∨ slice packet 4 8 ≠ some (beBytes 4 magicCookie) then
          .error (.error (.invalidPacket "invalid header"))
        else
          match slice packet 8 20 with
          | none => .error .outOfBounds
          | some transaction =>
            let (mapped, xorMapped) ←
              parseAttributes packet transaction (20 + bodyLength) (packet.length + 1) 20 none none
            match xorMapped.or mapped with
            | some address => .ok (transaction, address)
            | none => .error (.error (.invalidPacket "missing mapped address"))
  | [] => .error (.error (.invalidPacket "truncated header"))

def parseStunResponse (packet : List UInt8) : Option (List UInt8 × SocketAddr) := (parseBindingResponse packet).toOption

/-! ## Discovery on a socket of its own -/

/-- The length of the buffer of `discover`: what is longer is cut off. -/
def discoverBufferSize : Nat := 1500

/-- `discover`, in its loop: the transactions without an answer, and the addresses so far. -/
structure Discovery where
  transactions : Finset (List UInt8)
  results : Finset SocketAddr
deriving DecidableEq

/-- Before the loop: the transactions of the requests that could be sent. -/
def Discovery.new (sent : List StunRequest) : Discovery where
  transactions := (sent.map (·.transaction)).toFinset
  results := ∅

def Discovery.waits (d : Discovery) : Bool := d.transactions ≠ ∅

/-- What a round does with a datagram. -/
def Discovery.receive (d : Discovery) (datagram : List UInt8) : Discovery :=
  match parseStunResponse (datagram.take discoverBufferSize) with
  | none => d
  | some (transaction, address) =>
    if transaction ∈ d.transactions then
      { transactions := d.transactions.erase transaction, results := insert address d.results }
    else d

/-- The loop, on what `recv_from` returns before the deadline. -/
def Discovery.run : Discovery → List (Except Str (List UInt8)) → Except StunError Discovery
  | d, [] => .ok d
  | d, received :: rest =>
    if d.waits then
      match received with
      | .error error => .error (.io error)
      | .ok datagram => (d.receive datagram).run rest
    else .ok d

/-- What both functions return after the loop. -/
def discovered (addresses : Finset SocketAddr) : Except StunError (Finset SocketAddr) :=
  if addresses = ∅ then .error .timeout else .ok addresses

/-- `discover`, once the requests are prepared: `sent` are those that could be sent. -/
def discover (sent : List StunRequest) (received : List (Except Str (List UInt8))) :
    Except StunError (Finset SocketAddr) :=
  if (Discovery.new sent).transactions = ∅ then
    .error (.invalidConfig "failed to send STUN binding requests")
  else do
    let d ← (Discovery.new sent).run received
    discovered d.results

end Hysteria.Impl
