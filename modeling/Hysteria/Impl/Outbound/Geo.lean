import Hysteria.Impl.Outbound.Interface

/-!
# Geo databases

`hysteria`, `geo.rs`: the matchers that the ACL takes from the GeoIP and the
GeoSite database. The databases are what their files were decoded to.
-/

namespace Hysteria.Impl

open Framework

structure Cidr where
  ip : List UInt8
  length : UInt32

structure GeoIp where
  cidr : List Cidr
  inverseMatch : Bool

structure Domain where
  kind : Int
  value : Str
  attributes : List Str

structure GeoSite where
  domain : List Domain

/-- `GeoDatabases`, by country code and by name in lower case. -/
structure GeoDatabases where
  ip : Option (Str → Option GeoIp)
  site : Option (Str → Option GeoSite)

structure GeoIpMatcher where
  networks : List (IpAddr × UInt8)
  inverse : Bool

structure GeoDomain where
  kind : Int
  value : Str
  regex : Option (Str → Bool)
  attributes : List Str

structure GeoSiteMatcher where
  domains : List GeoDomain
  required : List Str

/-- `u32::MAX.checked_shl(u32::from(32 - prefix)).unwrap_or(0)`, or the same of 128 bits; it
panics if the subtraction overflows. -/
def checkedMask (w : Nat) (length : UInt8) : Option (BitVec w) :=
  if length.toNat ≤ w then some (if w - length.toNat < w then BitVec.allOnes w <<< (w - length.toNat) else 0) else none

/-- `cidr_contains` of `geo.rs`, with its panics. -/
def geoCidrContainsChecked (network : IpAddr) (length : UInt8) (candidate : IpAddr) : Option Bool :=
  match network, candidate with
  | .v4 network, .v4 candidate =>
    if length ≤ 32 then (checkedMask 32 length).map fun mask => network &&& mask = candidate &&& mask else some false
  | .v6 network, .v6 candidate =>
    if length ≤ 128 then (checkedMask 128 length).map fun mask => network &&& mask = candidate &&& mask else some false
  | _, _ => some false

/-- `cidr_contains` of `geo.rs`, which never panics. -/
def geoCidrContains (network : IpAddr) (length : UInt8) (candidate : IpAddr) : Bool :=
  (geoCidrContainsChecked network length candidate).getD false

def GeoIpMatcher.matches (m : GeoIpMatcher) (ips : List IpAddr) : Bool :=
  (ips.any fun candidate => m.networks.any fun (network, length) => geoCidrContains network length candidate) !=
    m.inverse

def GeoDomain.matches (d : GeoDomain) (host : Str) : Bool :=
  if d.kind = 0 then contains host d.value
  else if d.kind = 1 then d.regex.any (· host)
  else if d.kind = 2 then host = d.value ∨ endsWith host ('.' :: d.value)
  else if d.kind = 3 then host = d.value
  else false

def GeoSiteMatcher.matches (m : GeoSiteMatcher) (host : Str) : Bool :=
  m.domains.any fun domain => m.required.all (domain.attributes.contains ·) && domain.matches host

def Cidr.network (c : Cidr) : Except Str (IpAddr × UInt8) := do
  let value := c.ip.foldl (fun n b => n * 256 + b.toNat) 0
  let ip ←
    if c.ip.length = 4 then pure (.v4 (BitVec.ofNat 32 value))
    else if c.ip.length = 16 then pure (.v6 (BitVec.ofNat 128 value))
    else throw "invalid GeoIP address length".toList
  if c.length.toNat < 2 ^ 8 then return (ip, c.length.toUInt8) else throw "invalid GeoIP prefix".toList

def GeoDatabases.ipMatcher (lib : Libraries) (g : GeoDatabases) (name : Str) : Except Str GeoIpMatcher :=
  match g.ip.bind (· (toAsciiLowercase name)) with
  | none => .error ("GeoIP country code " ++ lib.debug name ++ " not found")
  | some entry => do return { networks := ← entry.cidr.mapM Cidr.network, inverse := entry.inverseMatch }

def Domain.compile (lib : Libraries) (d : Domain) : Except Str GeoDomain := do
  let regex ←
    if d.kind = 1 then
      match lib.regex d.value with
      | .ok regex => pure (some regex)
      | .error error => throw ("invalid GeoSite regex: " ++ error)
    else pure none
  return { kind := d.kind, value := toAsciiLowercase d.value, regex, attributes := d.attributes.map toAsciiLowercase }

def GeoDatabases.siteMatcher (lib : Libraries) (g : GeoDatabases) (value : Str) : Except Str GeoSiteMatcher :=
  let parts := value.splitOn '@'
  let name := toAsciiLowercase (trim (parts.headD []))
  let required := (parts.tail.map fun part => toAsciiLowercase (trim part)).filter (· ≠ [])
  match g.site.bind (· name) with
  | none => .error ("GeoSite name " ++ lib.debug name ++ " not found")
  | some entry => do return { domains := ← entry.domain.mapM (Domain.compile lib), required }

end Hysteria.Impl
