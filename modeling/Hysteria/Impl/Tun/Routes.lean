import Hysteria.Framework.LongestPrefix
import Hysteria.Impl.Tun.LinuxPolicy

/-!
# Routes of the TUN device

`hysteria`: the route section of the TUN configuration (`config.rs`,
`parseIpPrefix`, `TunRouteConfig.parsed`) and the routes made from it (`tun.rs`,
`RouteSet`): a copy of an existing route for every exclusion, then the routes
through the device, then, in strict mode, the policy of the platform. The kernel
is the state that is acted on; whatever goes wrong, the routes added so far are
dropped.
-/

namespace Hysteria.Impl

open Framework

/-! ## Configuration -/

/-- Texts that other code gives. -/
structure RouteTexts where
  /-- `{:?}` of a string. -/
  debug : Str → Str
  /-- The error of `parse::<IpAddr>`. -/
  invalidAddress : Str → Str
  /-- The error of `parse::<u8>`. -/
  invalidNumber : Str → Str

abbrev IpPrefix := IpAddr × UInt8

/-- `{destination}/{prefix}`. -/
def showPrefix (p : IpPrefix) : Str := p.1.display ++ '/' :: showNat p.2.toNat

def parseIpPrefix (texts : RouteTexts) (value field : Str) (ipv4 : Bool) : Except Str IpPrefix :=
  let invalid (reason : Str) : Str := "invalid " ++ field ++ ' ' :: texts.debug value ++ ": " ++ reason
  let (address, prefixText) := match rsplitOnce '/' value with
    | some (address, prefixText) => (address, some prefixText)
    | none => (value, none)
  match parseIpAddr address with
  | none => .error (invalid (texts.invalidAddress address))
  | some ip =>
    if ip.isIpv4 ≠ ipv4 then .error (invalid "wrong address family")
    else
      let maximum : UInt8 := if ipv4 then 32 else 128
      match prefixText.elim (.ok maximum) fun text =>
          (parseU8 text).elim (.error (invalid (texts.invalidNumber text))) Except.ok with
      | .error error => .error error
      | .ok prefixLength =>
        if maximum < prefixLength then
          .error (invalid ("prefix exceeds " ++ showNat maximum.toNat))
        else .ok (ip, prefixLength)

structure TunRouteConfig where
  strict : Bool := false
  ipv4 : List Str := []
  ipv6 : List Str := []
  ipv4Exclude : List Str := []
  ipv6Exclude : List Str := []

structure ParsedTunRoutes where
  ipv4 : List IpPrefix
  ipv6 : List IpPrefix
  ipv4Exclude : List IpPrefix
  ipv6Exclude : List IpPrefix

def TunRouteConfig.parsed (texts : RouteTexts) (config : TunRouteConfig) : Except Str ParsedTunRoutes := do
  let parseAll (entries : List Str) (field : Str) (ipv4 : Bool) : Except Str (List IpPrefix) :=
    entries.mapM fun entry => parseIpPrefix texts entry field ipv4
  return {
    ipv4 := ← parseAll config.ipv4 "tun.route.ipv4" true
    ipv6 := ← parseAll config.ipv6 "tun.route.ipv6" false
    ipv4Exclude := ← parseAll config.ipv4Exclude "tun.route.ipv4Exclude" true
    ipv6Exclude := ← parseAll config.ipv6Exclude "tun.route.ipv6Exclude" false }

/-- The prefixes excluded from the device. -/
def ParsedTunRoutes.excluded (parsed : ParsedTunRoutes) : List IpPrefix := parsed.ipv4Exclude ++ parsed.ipv6Exclude

/-- The prefixes routed through the device: everything, for a family with none. -/
def ParsedTunRoutes.included (parsed : ParsedTunRoutes) : List IpPrefix :=
  (if parsed.ipv4.isEmpty then [(.v4 0, 0)] else parsed.ipv4) ++
    if parsed.ipv6.isEmpty then [(.v6 0, 0)] else parsed.ipv6

/-! ## Routes -/

/-- A route of the system; `table` has a meaning on Linux only. -/
structure Route where
  destination : IpAddr
  prefixLength : UInt8
  gateway : Option IpAddr := none
  ifIndex : Option UInt32 := none
  ifName : Option Str := none
  table : UInt8 := 0
deriving DecidableEq

def Route.contains (route : Route) (ip : IpAddr) : Bool :=
  IpAddr.samePrefix route.prefixLength.toNat route.destination ip

inductive Platform where
  | linux
  | macos
  | windows
deriving DecidableEq

def copyRoute (platform : Platform) (base : Route) (p : IpPrefix) : Route :=
  let route : Route := { destination := p.1, prefixLength := p.2 }
  let route := { route with gateway := base.gateway, ifIndex := base.ifIndex, ifName := base.ifName }
  match platform with
  | .linux => { route with table := base.table }
  | .macos | .windows => route

def tunRoute (platform : Platform) (tunIndex : UInt32) (strictTable : Option UInt8) (p : IpPrefix) : Route :=
  let route : Route := { destination := p.1, prefixLength := p.2, ifIndex := some tunIndex }
  match platform with
  | .linux => { route with table := strictTable.getD 254 }
  | .macos | .windows => route

/-- `max_by_key`: the last of the largest. -/
def maxByKey {α : Type} (key : α → Nat) (xs : List α) : Option α :=
  xs.foldl (fun best x => match best with
    | some b => if key x < key b then some b else some x
    | none => some x) none

/-- The route that an exclusion is copied from. -/
def baseRoute (original : List Route) (tunIndex : UInt32) (destination : IpAddr) : Option Route :=
  maxByKey (·.prefixLength.toNat)
    ((original.filter fun route => route.ifIndex ≠ some tunIndex).filter fun route => route.contains destination)

def selectLinuxTable (routes : List Route) : Option UInt8 :=
  ((List.range' 202 51).map UInt8.ofNat).find? fun table => routes.all fun route => route.table ≠ table

/-! ## Installation -/

structure Kernel where
  routes : List Route
  rules : List RuleMessage
  /-- Windows: the interfaces of the sessions that have filters installed. -/
  filters : List UInt32
deriving DecidableEq

/-- What the system refuses, beside the entries it has already. -/
structure RouteFaults where
  /-- `RouteManager::new`. -/
  openManager : Option Str
  /-- `manager.list`. -/
  list : Option Str
  /-- `manager.add`, when so many routes are installed. -/
  add : Nat → Option Str
  /-- The error for a route that is there. -/
  present : Str
  policy : RuleFaults
  /-- `PolicyFilters::install`, which is one transaction. -/
  filters : Option Str

def addRoute (faults : RouteFaults) (count : Nat) (route : Route) (kernel : Kernel) : Except Str Kernel :=
  (tableAdd (faults.add count) faults.present route kernel.routes).map fun routes => { kernel with routes }

def deleteRoute (route : Route) (kernel : Kernel) : Kernel := { kernel with routes := kernel.routes.erase route }

inductive Policy where
  | rules (installed : PolicyRules)
  | filters (tunIndex : UInt32)
deriving DecidableEq

structure RouteSet where
  installed : List Route
  policy : Option Policy
deriving DecidableEq

def Policy.drop (policy : Policy) (kernel : Kernel) : Kernel :=
  match policy with
  | .rules installed => { kernel with rules := installed.drop kernel.rules }
  | .filters tunIndex => { kernel with filters := kernel.filters.erase tunIndex }

def RouteSet.drop (routes : RouteSet) (kernel : Kernel) : Kernel :=
  let kernel := routes.policy.elim kernel fun policy => policy.drop kernel
  routes.installed.foldr deleteRoute kernel

section Install

variable (platform : Platform) (texts : RouteTexts) (faults : RouteFaults) (tunIndex : UInt32)

/-- One round of the loop over the exclusions. -/
def addExclusion (original : List Route) (count : Nat) (p : IpPrefix) (kernel : Kernel) : Except Str (Route × Kernel) :=
  match baseRoute original tunIndex p.1 with
  | none => .error ("no existing route covers TUN exclusion " ++ showPrefix p)
  | some base =>
    let route := copyRoute platform base p
    match addRoute faults count route kernel with
    | .error error =>
      .error ("failed to add TUN exclusion route " ++ showPrefix p ++ ": " ++ error)
    | .ok kernel => .ok (route, kernel)

/-- One round of the loop over the included prefixes. -/
def addInclusion (strictTable : Option UInt8) (count : Nat) (p : IpPrefix) (kernel : Kernel) :
    Except Str (Route × Kernel) :=
  let route := tunRoute platform tunIndex strictTable p
  match addRoute faults count route kernel with
  | .error error => .error ("failed to add TUN route " ++ showPrefix p ++ ": " ++ error)
  | .ok kernel => .ok (route, kernel)

def addRoutes (original : List Route) (strictTable : Option UInt8) (parsed : ParsedTunRoutes)
    (routes : UndoLog Kernel Route) : Except Str Unit × UndoLog Kernel Route :=
  match routes.runEach (addExclusion platform faults tunIndex original) parsed.excluded with
  | (.error error, routes) => (.error error, routes)
  | (.ok (), routes) => routes.runEach (addInclusion platform faults tunIndex strictTable) parsed.included

/-- The routing table of the strict mode, on Linux. -/
def strictTable (strict : Bool) (original : List Route) : Except Str (Option UInt8) :=
  match platform with
  | .linux =>
    if strict then
      match selectLinuxTable original with
      | some table => .ok (some table)
      | none => .error "no unused Linux routing table is available for TUN strict mode"
    else .ok none
  | .macos | .windows => .ok none

def installPolicy (strict : Bool) (strictTable : Option UInt8) (ipv4Address : BitVec 32 × UInt8)
    (ipv6Address : BitVec 128 × UInt8) (kernel : Kernel) : Except Str (Option Policy) × Kernel :=
  match platform with
  | .linux =>
    match strictTable with
    | none => (.ok none, kernel)
    | some table =>
      match PolicyRules.install faults.policy table ipv4Address ipv6Address kernel.rules with
      | (.error error, rules) =>
        (.error ("failed to install TUN strict-route policy rules: " ++ error), { kernel with rules })
      | (.ok policy, rules) => (.ok (some (.rules policy)), { kernel with rules })
  | .windows =>
    if strict then
      match faults.filters with
      | some error => (.error ("failed to install TUN strict-route WFP filters: " ++ error), kernel)
      | none => (.ok (some (.filters tunIndex)), { kernel with filters := tunIndex :: kernel.filters })
    else (.ok none, kernel)
  | .macos => (.ok none, kernel)

/-- The system before and after. Where it fails after the route set is made, the
set goes out of scope. -/
def RouteSet.install (config : TunRouteConfig) (ipv4Address : BitVec 32 × UInt8)
    (ipv6Address : BitVec 128 × UInt8) (kernel : Kernel) : Except Str RouteSet × Kernel :=
  match config.parsed texts with
  | .error error => (.error error, kernel)
  | .ok parsed =>
    match faults.openManager with
    | some error => (.error ("failed to open route manager: " ++ error), kernel)
    | none =>
      match faults.list with
      | some error => (.error ("failed to inspect system routes: " ++ error), kernel)
      | none =>
        let original := kernel.routes
        match strictTable platform config.strict original with
        | .error error => (.error error, RouteSet.drop ⟨[], none⟩ kernel)
        | .ok strictTable =>
          match addRoutes platform faults tunIndex original strictTable parsed ⟨kernel, []⟩ with
          | (.error error, routes) => (.error error, RouteSet.drop ⟨routes.log, none⟩ routes.state)
          | (.ok (), routes) =>
            match installPolicy platform faults tunIndex config.strict strictTable ipv4Address ipv6Address
                routes.state with
            | (.error error, kernel) => (.error error, RouteSet.drop ⟨routes.log, none⟩ kernel)
            | (.ok policy, kernel) => (.ok ⟨routes.log, policy⟩, kernel)

end Install

end Hysteria.Impl
