import Hysteria.Framework.Checked
import Hysteria.Impl.Outbound.Interface

/-!
# Name resolution

`hysteria`, `resolver.rs`. `Outside` is what the network and the operating
system answer: anything, and at every question something else. `World` counts
the questions and keeps what was contacted.
-/

namespace Hysteria.Impl

open Framework

structure Resolved where
  ipv4 : Option IpAddr := none
  ipv6 : Option IpAddr := none
deriving DecidableEq

/-- `[resolved.ipv4, resolved.ipv6].into_iter().flatten()`. -/
def Resolved.ips (r : Resolved) : List IpAddr := r.ipv4.toList ++ r.ipv6.toList

/-- `Resolver`, with the server that its `exchange` asks. -/
inductive Resolver where
  | system
  | udp (address : Str)
  | tcp (address : Str)
  | tls (address name : Str)
  | https (url : Str)
deriving DecidableEq

/-- The answers to the `n`-th question. -/
structure Outside where
  lookupHost : Nat → Str → Except Str (List SocketAddr)
  /-- A query and its response over the network (`Resolver::exchange`). -/
  exchange : Nat → Resolver → List UInt8 → Except TransportError (List UInt8)
  /-- The outcome of making a socket and binding it, for IPv4 or not. -/
  bind : Nat → Bool → Except TransportError Unit
  /-- The outcome of connecting it. -/
  connect : Nat → SocketAddr → Except TransportError Unit
  /-- Whether the first of two concurrent dials ends before the second. -/
  race : Nat → Bool
  sendTo : Nat → SocketAddr → List UInt8 → Except Str Nat

structure World where
  asked : Nat := 0
  nextId : UInt16 := 1
  /-- The addresses that direct outbounds dialled or sent to. -/
  contacted : List SocketAddr := []
deriving DecidableEq

def World.ask (w : World) : World := { w with asked := w.asked + 1 }

/-! ## DNS messages -/

def buildQuery (id : UInt16) (host : Str) (qtype : UInt16) : Except TransportError (List UInt8) := do
  let labels ← ((trimEndMatches '.' host).splitOn '.').mapM fun label =>
    let bytes := utf8 label
    if bytes = [] ∨ bytes.length > 63 then .error (protocolError "invalid DNS name")
    else .ok (UInt8.ofNat bytes.length :: bytes)
  return beBytes 2 id.toNat ++ beBytes 2 0x0100 ++ beBytes 2 1 ++ List.replicate 6 0 ++ labels.flatten ++ [0] ++
    beBytes 2 qtype.toNat ++ beBytes 2 1

def readU16 (message : List UInt8) (offset : Nat) : Except TransportError UInt16 :=
  match slice message offset (offset + 2) with
  | some bytes => .ok (UInt16.ofNat (beNat bytes))
  | none => .error (protocolError "truncated DNS message")

/-- The loop of `read_name`, for so many rounds. -/
def readNameLoop (message : List UInt8) :
    Nat → (labels : List Str) → (offset : Nat) → (stop : Option Nat) → Except TransportError (Str × Nat)
  | 0, _, _, _ => .error (protocolError "DNS compression pointer loop")
  | rounds + 1, labels, offset, stop =>
    match message[offset]? with
    | none => .error (protocolError "truncated DNS name")
    | some length =>
      if length = 0 then .ok (['.'].intercalate labels, stop.getD (offset + 1))
      else if length &&& 0xc0 = 0xc0 then
        match message[offset + 1]? with
        | none => .error (protocolError "truncated DNS pointer")
        | some second =>
          readNameLoop message rounds labels ((length &&& 0x3f).toNat * 256 + second.toNat)
            (some (stop.getD (offset + 2)))
      else
        match slice message (offset + 1) (offset + 1 + length.toNat) with
        | none => .error (protocolError "truncated DNS label")
        | some bytes =>
          match fromUtf8 bytes with
          | none => .error (protocolError "invalid DNS label")
          | some label => readNameLoop message rounds (labels ++ [label]) (offset + length.toNat + 1) stop

def readName (message : List UInt8) (start : Nat) : Except TransportError (Str × Nat) :=
  readNameLoop message 128 [] start none

def skipName (message : List UInt8) (offset : Nat) : Except TransportError Nat := do
  return (← readName message offset).2

structure DnsAnswer where
  ip : Option IpAddr := none
  cname : Option Str := none

def skipQuestions (message : List UInt8) : Nat → Nat → Except TransportError Nat
  | 0, offset => .ok offset
  | questions + 1, offset => do
    let offset := (← skipName message offset) + 4
    if offset > message.length then throw (protocolError "truncated DNS question")
    skipQuestions message questions offset

/-- `<[u8; n]>::try_from(&message[data..data + n]).unwrap()`. -/
def octetsAt (message : List UInt8) (data n : Nat) : Except (Failure TransportError) (List UInt8) := do
  getOrPanic (arrayFrom n (← getOrPanic (slice message data (data + n))))

def readAnswers (message : List UInt8) (qtype : UInt16) :
    Nat → Nat → DnsAnswer → Except (Failure TransportError) DnsAnswer
  | 0, _, result => .ok result
  | answers + 1, offset, result => do
    let offset ← (skipName message offset).mapError .error
    if offset + 10 > message.length then throw (.error (protocolError "truncated DNS answer"))
    let kind ← (readU16 message offset).mapError .error
    let length := (← (readU16 message (offset + 8)).mapError .error).toNat
    let data := offset + 10
    if data + length > message.length then throw (.error (protocolError "truncated DNS record"))
    let result ←
      if kind = qtype ∧ qtype = 1 ∧ length = 4 then do
        pure { result with ip := some (.v4 (BitVec.ofNat 32 (beNat (← octetsAt message data 4)))) }
      else if kind = qtype ∧ qtype = 28 ∧ length = 16 then do
        pure { result with ip := some (.v6 (BitVec.ofNat 128 (beNat (← octetsAt message data 16)))) }
      else if kind = 5 then do
        pure { result with cname := some (← (readName message data).mapError .error).1 }
      else pure result
    readAnswers message qtype answers (data + length) result

/-- `parse_response` with the slices of its addresses; everything else that it reads goes through `get`. -/
def parseResponseChecked (message : List UInt8) (id qtype : UInt16) : Except (Failure TransportError) DnsAnswer := do
  if message.length < 12 then throw (.error (protocolError "invalid DNS response header"))
  if (← (readU16 message 0).mapError .error) ≠ id then throw (.error (protocolError "invalid DNS response header"))
  if (← (readU16 message 2).mapError .error) &&& 0x8000 = 0 then
    throw (.error (protocolError "invalid DNS response header"))
  if (← (readU16 message 2).mapError .error) &&& 0x000f ≠ 0 then
    throw (.error (protocolError "DNS query returned an error"))
  let questions := (← (readU16 message 4).mapError .error).toNat
  let answers := (← (readU16 message 6).mapError .error).toNat
  let offset ← (skipQuestions message questions 12).mapError .error
  readAnswers message qtype answers offset {}

/-- `parse_response`, which never panics. -/
def parseResponse (message : List UInt8) (id qtype : UInt16) : Except TransportError DnsAnswer :=
  withoutPanic (protocolError "panicked") (parseResponseChecked message id qtype)

/-! ## The resolver -/

variable (outside : Outside)

/-- `lookup`, for so many rounds: it follows `CNAME` records. -/
def Resolver.lookupLoop (r : Resolver) (qtype : UInt16) :
    Nat → Str → World → Except TransportError (Option IpAddr) × World
  | 0, _, w => (.error (protocolError "DNS CNAME chain is too deep"), w)
  | rounds + 1, current, w =>
    let id := w.nextId
    let w := { w with nextId := w.nextId + 1 }
    match buildQuery id current qtype with
    | .error error => (.error error, w)
    | .ok query =>
      match outside.exchange w.asked r query with
      | .error error => (.error error, w.ask)
      | .ok response =>
        match parseResponse response id qtype with
        | .error error => (.error error, w.ask)
        | .ok answer =>
          match answer.ip, answer.cname with
          | some ip, _ => (.ok (some ip), w.ask)
          | none, none => (.ok none, w.ask)
          | none, some cname => r.lookupLoop qtype rounds cname w.ask

def Resolver.lookup (r : Resolver) (host : Str) (qtype : UInt16) (w : World) :
    Except TransportError (Option IpAddr) × World :=
  r.lookupLoop outside qtype 16 host w

/-- The first IPv4 and the first IPv6 address of the system's answer. -/
def Resolved.ofAddresses (addresses : List SocketAddr) : Resolved where
  ipv4 := (addresses.find? (·.ip.isIpv4)).map (·.ip)
  ipv6 := (addresses.find? (!·.ip.isIpv4)).map (·.ip)

def Resolver.resolve (r : Resolver) (host : Str) (port : UInt16) (w : World) : Resolved × World :=
  match parseIpAddr host with
  | some (.v4 ip) => ({ ipv4 := some (.v4 ip) }, w)
  | some (.v6 ip) => ({ ipv6 := some (.v6 ip) }, w)
  | none =>
    match r with
    | .system =>
      match outside.lookupHost w.asked (formatAuthority host port) with
      | .ok addresses => (.ofAddresses addresses, w.ask)
      | .error _ => ({}, w.ask)
    | _ =>
      let (ipv4, w) := r.lookup outside host 1 w
      let (ipv6, w) := r.lookup outside host 28 w
      ({ ipv4 := ipv4.toOption.join, ipv6 := ipv6.toOption.join }, w)

end Hysteria.Impl
