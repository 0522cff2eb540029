import Hysteria.Impl.Outbound.Geo
import Hysteria.Impl.Resolver

/-!
# Outbound routing by ACL

`hysteria`, `outbound.rs`: the rules, the text they are written in
(`aclLines`, `validateAcl`, `parseAcl`), and the outbound that picks another
one by them (`AclOutbound`). `ω` are the outbounds it can pick.
-/

namespace Hysteria.Impl

open Framework

variable {ω σ τ κ : Type}

inductive AclProtocol where
  | both
  | tcp
  | udp
deriving DecidableEq

inductive HostMatcher where
  | all
  | exact (pattern : Str)
  | suffix (pattern : Str)
  | wildcard (pattern : Str)
  | ip (expected : IpAddr)
  | cidr (network : IpAddr) (length : UInt8)
  | geoIp (matcher : GeoIpMatcher)
  | geoSite (matcher : GeoSiteMatcher)

structure AclRule (ω : Type) where
  outbound : ω
  matcher : HostMatcher
  protocol : AclProtocol
  startPort : UInt16
  endPort : UInt16
  hijack : Option IpAddr

/-! ## Matching -/

/-- The loop of `wildcard_matches`: `vi` and `pi` are its indices, `star` the
last star it passed and `retry` where it tries to go on after that. `none` is the
panic of `pattern[pattern_index..]`; everything else goes through `get`. -/
def wildcardLoop (value pattern : List UInt8) (vi pi : Nat) (star : Option Nat) (retry : Nat) (h : retry ≤ vi) :
    Option Bool :=
  if hv : vi < value.length then
    if hm : pattern[pi]? = value[vi]? then
      wildcardLoop value pattern (vi + 1) (pi + 1) star retry (by omega)
    else if hs : pattern[pi]? = some 42 then
      wildcardLoop value pattern vi (pi + 1) (some pi) vi (Nat.le_refl vi)
    else
      match star with
      | some star => wildcardLoop value pattern (retry + 1) (star + 1) (some star) (retry + 1) (Nat.le_refl _)
      | none => some false
  else (slice pattern pi pattern.length).map (·.all (· = 42))
termination_by (value.length - retry, pattern.length - pi)
decreasing_by
  · have hp : pi < pattern.length := by
      rw [List.getElem?_eq_getElem hv] at hm
      exact (List.getElem?_eq_some_iff.mp hm).1
    exact Prod.Lex.right _ (by omega)
  · have hp : pi < pattern.length := (List.getElem?_eq_some_iff.mp hs).1
    rcases Nat.lt_or_eq_of_le h with hlt | rfl
    · exact Prod.Lex.left _ _ (by omega)
    · exact Prod.Lex.right _ (by omega)
  · exact Prod.Lex.left _ _ (by omega)

def wildcardChecked (value pattern : Str) : Option Bool :=
  wildcardLoop (utf8 value) (utf8 pattern) 0 0 none 0 (Nat.le_refl 0)

/-- `wildcard_matches`, which never panics. -/
def wildcardMatches (value pattern : Str) : Bool := (wildcardChecked value pattern).getD false

/-- `cidr_contains` of `outbound.rs`, with its panics. -/
def cidrContainsChecked (network : IpAddr) (length : UInt8) (candidate : IpAddr) : Option Bool :=
  match network, candidate with
  | .v4 network, .v4 candidate => (checkedMask 32 length).map fun mask => network &&& mask = candidate &&& mask
  | .v6 network, .v6 candidate => (checkedMask 128 length).map fun mask => network &&& mask = candidate &&& mask
  | _, _ => some false

/-- `cidr_contains` of `outbound.rs`; the length was checked when the rule was read. -/
def cidrContains (network : IpAddr) (length : UInt8) (candidate : IpAddr) : Bool :=
  (cidrContainsChecked network length candidate).getD false

def HostMatcher.matches (m : HostMatcher) (host : Str) (ips : List IpAddr) : Bool :=
  match m with
  | .all => true
  | .exact pattern => host = pattern
  | .suffix pattern => host = pattern ∨ endsWith host ('.' :: pattern)
  | .wildcard pattern => wildcardMatches host pattern
  | .ip expected => expected ∈ ips
  | .cidr network length => ips.any (cidrContains network length)
  | .geoIp matcher => matcher.matches ips
  | .geoSite matcher => matcher.matches host

/-! ## The text -/

/-- "ACL line {line}". -/
def aclLineText (line : Nat) : Str := "ACL line " ++ showNat line

def compileMatcher (lib : Libraries) (value : Str) (line : Nat) (geo : Option GeoDatabases) : Except Str HostMatcher :=
  let value := toAsciiLowercase (trimEndMatches '.' value)
  if value = "*" ∨ value = "all" then .ok .all
  else if let some name := stripStart "geoip:" value then
    match geo with
    | none => .error (aclLineText line ++ ": GeoIP database unavailable")
    | some geo => (geo.ipMatcher lib name).map .geoIp
  else if let some name := stripStart "geosite:" value then
    match geo with
    | none => .error (aclLineText line ++ ": GeoSite database unavailable")
    | some geo => (geo.siteMatcher lib name).map .geoSite
  else if let some suffix := stripStart "suffix:" value then
    if suffix = [] then .error (aclLineText line ++ ": empty domain suffix")
    else .ok (.suffix suffix)
  else if let some (network, length) := splitOnce '/' value then
    match parseIpAddr network with
    | none => .error (aclLineText line ++ ": invalid CIDR address " ++ lib.debug value)
    | some network =>
      match parseU8 length with
      | none => .error (aclLineText line ++ ": invalid CIDR prefix " ++ lib.debug value)
      | some length =>
        if length > if network.isIpv4 then 32 else 128 then
          .error (aclLineText line ++ ": invalid CIDR prefix " ++ lib.debug value)
        else .ok (.cidr network length)
  else if let some ip := parseIpAddr value then .ok (.ip ip)
  else if '*' ∈ value then .ok (.wildcard value)
  else .ok (.exact value)

def parseProtoPort (lib : Libraries) (value : Str) (line : Nat) : Except Str (AclProtocol × UInt16 × UInt16) :=
  let value := toAsciiLowercase value
  let invalid := aclLineText line ++ ": invalid protocol/port " ++ lib.debug value
  if value = [] ∨ value = "*" ∨ value = "*/*" then .ok (.both, 0, 0)
  else
    let (protocol, ports) := (splitOnce '/' value).getD (value, "*")
    let protocol? : Option AclProtocol :=
      if protocol = "*" then some .both
      else if protocol = "tcp" then some .tcp
      else if protocol = "udp" then some .udp
      else none
    match protocol? with
    | none => .error invalid
    | some protocol =>
      if ports = "*" then .ok (protocol, 0, 0)
      else
        let (start, stop) := (splitOnce '-' ports).getD (ports, ports)
        match parseU16 start, parseU16 stop with
        | none, _ => .error invalid
        | some _, none => .error invalid
        | some start, some stop =>
          if start > stop then
            .error (aclLineText line ++ ": invalid port range " ++ lib.debug value)
          else .ok (protocol, start, stop)

/-- One line: nothing, or the fields of a rule. The slices are by bytes, and panic where they are out of range. -/
def aclLine (number : Nat) (raw : Str) : Except (Failure Str) (Option (List Str)) :=
  let line := trim (before '#' raw)
  let invalid := "invalid ACL syntax at line " ++ showNat number ++ ": " ++ line
  if line = [] then .ok none
  else
    match findByte '(' line with
    | none => .error (.error invalid)
    | some opening =>
      if ¬ endsWith line [')'] then .error (.error invalid)
      else
        match byteSlice line 0 opening with
        | none => .error .panicked
        | some name =>
          if ¬ name.all (fun c => isAsciiAlphanumeric c || c = '_') then .error (.error invalid)
          else
            match byteSlice line (opening + 1) ((utf8 line).length - 1) with
            | none => .error .panicked
            | some inner =>
              let fields := name :: (inner.splitOn ',').map trim
              if fields.length < 2 ∨ 4 < fields.length ∨ fields[1]? = some [] then .error (.error invalid)
              else .ok (some fields)

/-- The rules of the lines from number `number` on. -/
def aclLinesFrom : Nat → List Str → Except (Failure Str) (List (Nat × List Str))
  | _, [] => .ok []
  | number, raw :: rest => do
    let fields ← aclLine number raw
    let rules ← aclLinesFrom (number + 1) rest
    return (fields.map (number, ·)).toList ++ rules

def aclLines (text : Str) : Except (Failure Str) (List (Nat × List Str)) := aclLinesFrom 1 (lines text)

def validateAclLine (lib : Libraries) (names : Str → Bool) (line : Nat) (fields : List Str) : Except Str Unit := do
  if ¬ names (toAsciiLowercase (fields.getD 0 [])) then
    throw (aclLineText line ++ ": outbound " ++ lib.debug (fields.getD 0 []) ++ " not found")
  let matcher := toAsciiLowercase (fields.getD 1 [])
  if stripStart "geoip:" matcher = some [] then
    throw (aclLineText line ++ ": empty GeoIP country code")
  if (stripStart "geosite:" matcher).any (fun name => trim name = []) then
    throw (aclLineText line ++ ": empty GeoSite name")
  if ¬ "geoip:".toList.isPrefixOf matcher ∧ ¬ "geosite:".toList.isPrefixOf matcher then
    let _ ← compileMatcher lib (fields.getD 1 []) line none
  let _ ← parseProtoPort lib (fields.getD 2 []) line
  if let some hijack := fields[3]? then
    if parseIpAddr hijack = none then
      throw (aclLineText line ++ ": invalid hijack address " ++ lib.debug hijack)

def validateAcl (lib : Libraries) (text : Str) (names : Str → Bool) : Except (Failure Str) Unit := do
  (← aclLines text).forM fun (line, fields) => (validateAclLine lib names line fields).mapError .error

def aclRule (lib : Libraries) (outbounds : Str → Option ω) (geo : Option GeoDatabases) (line : Nat)
    (fields : List Str) : Except (Failure Str) (AclRule ω) := do
  let (protocol, startPort, endPort) ← (parseProtoPort lib (fields.getD 2 []) line).mapError .error
  let outbound ←
    match outbounds (toAsciiLowercase (fields.getD 0 [])) with
    | some outbound => pure outbound
    | none => throw .panicked
  let matcher ← (compileMatcher lib (fields.getD 1 []) line geo).mapError .error
  let hijack ←
    match fields[3]? with
    | none => pure none
    | some value =>
      match parseIpAddr value with
      | some ip => pure (some ip)
      | none => throw (.error (aclLineText line ++ ": invalid hijack address"))
  return { outbound, matcher, protocol, startPort, endPort, hijack }

def parseAcl (lib : Libraries) (text : Str) (outbounds : Str → Option ω) (geo : Option GeoDatabases) :
    Except (Failure Str) (List (AclRule ω)) := do
  (← aclLines text).mapM fun (line, fields) => aclRule lib outbounds geo line fields

/-! ## The outbound -/

structure AclOutbound (ω : Type) where
  rules : List (AclRule ω)
  default : ω
  resolver : Resolver

/-- The conditions that a rule puts on a request. -/
def AclRule.accepts (rule : AclRule ω) (host : Str) (ips : List IpAddr) (port : UInt16) (protocol : AclProtocol) :
    Bool :=
  (rule.protocol = .both ∨ rule.protocol = protocol) ∧
    (rule.startPort = 0 ∨ rule.startPort ≤ port ∧ port ≤ rule.endPort) ∧ rule.matcher.matches host ips

def AclRule.target (rule : AclRule ω) (address : Str) (port : UInt16) : Str :=
  match rule.hijack with
  | none => address
  | some ip => formatAuthority ip.display port

def AclOutbound.pick (acl : AclOutbound ω) (address host : Str) (ips : List IpAddr) (port : UInt16)
    (protocol : AclProtocol) : ω × Str :=
  match acl.rules.find? (·.accepts host ips port protocol) with
  | some rule => (rule.outbound, rule.target address port)
  | none => (acl.default, address)

/-- The name that rules are matched against. -/
def normalizedHost (lib : Libraries) (host : Str) : Str :=
  lib.domainToUnicode (toAsciiLowercase (trimEndMatches '.' host))

def AclOutbound.select (lib : Libraries) (outside : Outside) (acl : AclOutbound ω) (address : Str)
    (protocol : AclProtocol) (w : World) : Except TransportError (ω × Str) × World :=
  match parseHostPort lib address with
  | .error error => (.error (.protocol error), w)
  | .ok (host, port) =>
    let (resolved, w) := acl.resolver.resolve outside host port w
    (.ok (acl.pick address (normalizedHost lib host) resolved.ips port protocol), w)

/-- `ServerOutbound for AclOutbound`. A socket is that of the outbound which
opened it. -/
def AclOutbound.server (lib : Libraries) (outside : Outside) (acl : AclOutbound ω)
    (outbounds : ω → ServerOutbound World τ κ) : ServerOutbound World (ω × τ) (ω × κ) where
  tcp address w :=
    match acl.select lib outside address .tcp w with
    | (.error error, w) => (.error error, w)
    | (.ok (outbound, target), w) =>
      match (outbounds outbound).tcp target w with
      | (.error error, w) => (.error error, w)
      | (.ok stream, w) => (.ok (outbound, stream), w)
  udp address w :=
    match acl.select lib outside address .udp w with
    | (.error error, w) => (.error error, w)
    | (.ok (outbound, target), w) =>
      match (outbounds outbound).udp target w with
      | (.error error, w) => (.error error, w)
      | (.ok socket, w) => (.ok (outbound, socket), w)
  checkUdp address w :=
    match acl.select lib outside address .udp w with
    | (.error error, w) => (.error error, w)
    | (.ok (outbound, target), w) => (outbounds outbound).checkUdp target w
  sendTo socket data address w := (outbounds socket.1).sendTo socket.2 data address w

/-- `RejectOutbound`. It never opens a socket, so nothing is ever sent on one. -/
def rejectOutbound : ServerOutbound σ τ κ where
  tcp _ world := (.error (protocolError "rejected by ACL"), world)
  udp _ world := (.error (protocolError "rejected by ACL"), world)
  checkUdp _ world := (.error (protocolError "rejected by ACL"), world)
  sendTo _ _ _ world := (.error (protocolError "rejected by ACL"), world)

end Hysteria.Impl
