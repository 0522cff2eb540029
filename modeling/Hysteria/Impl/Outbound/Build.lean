import Hysteria.Impl.Outbound.Acl

/-!
# Building the ACL

`hysteria`, `outbound.rs`: `validate_routes` checks the configured ACL, and
`build_acl` then makes the outbounds and the rules. `ω` are the outbounds, `γ` what
`build_backend` makes one of.
-/

namespace Hysteria.Impl

open Framework

variable {ω γ : Type}

structure AclConfig where
  file : Str
  inline : List Str
  geoip : Str
  geosite : Str
  geoUpdateInterval : Str

structure OutboundConfig (γ : Type) where
  name : Str
  settings : γ

/-- What is read from outside the configuration. -/
structure Files where
  readToString : Str → Except Str Str
  /-- `humantime::parse_duration`, in seconds. -/
  parseDuration : Str → Except Str Nat
  /-- `load_geoip`: the configured path and the age at which the file is fetched again. -/
  loadGeoip : Str → Nat → Except Str (Str → Option GeoIp)
  loadGeosite : Str → Nat → Except Str (Str → Option GeoSite)

def defaultUpdate : Nat := 7 * 24 * 60 * 60

def GeoDatabases.load (files : Files) (config : AclConfig) (rules : Str) : Except Str GeoDatabases := do
  let update ←
    if config.geoUpdateInterval = [] then pure defaultUpdate
    else (files.parseDuration config.geoUpdateInterval).mapError ("invalid acl.geoUpdateInterval: " ++ ·)
  let ip ←
    if contains (toAsciiLowercase rules) "geoip:" then some <$> files.loadGeoip config.geoip update
    else pure none
  let site ←
    if contains (toAsciiLowercase rules) "geosite:" then some <$> files.loadGeosite config.geosite update
    else pure none
  return { ip, site }

def aclText (files : Files) (config : AclConfig) : Except Str Str :=
  if config.file = [] then .ok (['\n'].intercalate config.inline)
  else (files.readToString config.file).mapError
    ("failed to read ACL file " ++ config.file ++ ": " ++ ·)

/-- The names that rules may use. -/
def aclNames (configs : List (OutboundConfig γ)) : List Str :=
  configs.map (fun entry => toAsciiLowercase entry.name) ++ ["direct".toList, "reject".toList, "default".toList]

/-- `validate_routes`; `resolver` is the result of `Resolver::build`. -/
def validateRoutes (lib : Libraries) (files : Files) (configs : List (OutboundConfig γ)) (acl : AclConfig)
    (resolver : Except Str Resolver) : Except (Failure Str) Unit := do
  if acl.file ≠ [] ∧ acl.inline ≠ [] then throw (.error "acl.file and acl.inline cannot both be set")
  let _ ← resolver.mapError .error
  if acl.file ≠ [] ∨ acl.inline ≠ [] then
    validateAcl lib (← (aclText files acl).mapError .error) (aclNames configs).contains

/-! ## The outbounds -/

def insertOutbound (outbounds : Str → Option ω) (name : Str) (outbound : ω) : Str → Option ω :=
  fun other => if other = name then some outbound else outbounds other

/-- `entry(name).or_insert_with(outbound)`. -/
def orInsertOutbound (outbounds : Str → Option ω) (name : Str) (outbound : ω) : Str → Option ω :=
  if (outbounds name).isSome then outbounds else insertOutbound outbounds name outbound

/-- The loop of `build_acl` over the configured outbounds. -/
def buildBackends (buildBackend : OutboundConfig γ → Except Str ω) (configs : List (OutboundConfig γ)) :
    Except Str (Str → Option ω) :=
  configs.foldlM (fun outbounds config => do
    return insertOutbound outbounds (toAsciiLowercase config.name) (← buildBackend config)) fun _ => none

def defaultOutbound (direct : ω) (configs : List (OutboundConfig γ)) (outbounds : Str → Option ω) : ω :=
  ((outbounds "default").or
    (configs.head?.bind fun entry => outbounds (toAsciiLowercase entry.name))).getD direct

/-- The map that `parse_acl` looks names up in, and the default. -/
def aclOutbounds (buildBackend : OutboundConfig γ → Except Str ω) (direct reject : ω)
    (configs : List (OutboundConfig γ)) : Except Str ((Str → Option ω) × ω) := do
  let outbounds ← buildBackends buildBackend configs
  let outbounds := orInsertOutbound outbounds "direct" direct
  let outbounds := orInsertOutbound outbounds "reject" reject
  let default := defaultOutbound direct configs outbounds
  return (orInsertOutbound outbounds "default" default, default)

def buildAcl (lib : Libraries) (files : Files) (buildBackend : OutboundConfig γ → Except Str ω) (direct reject : ω)
    (configs : List (OutboundConfig γ)) (acl : AclConfig) (resolver : Resolver) :
    Except (Failure Str) (AclOutbound ω) := do
  let (outbounds, default) ← (aclOutbounds buildBackend direct reject configs).mapError .error
  let text ← (aclText files acl).mapError .error
  let geo ← (GeoDatabases.load files acl text).mapError .error
  return { rules := ← parseAcl lib text outbounds (some geo), default, resolver }

end Hysteria.Impl
