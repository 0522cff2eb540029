import Hysteria.Impl.Tun.Routes

/-!
# Longest-prefix-match forwarding

Where a table of routes sends an address. Routes of the same length may tie, so
that `Forwards` is a relation. An exclusion is meant to leave the addresses it
covers to the routes they had (`KeepsForwarding`).
-/

namespace Hysteria.Spec

open Framework Impl

/-- The gateway and the interface that packets leave through. -/
structure Hop where
  gateway : Option IpAddr
  ifIndex : Option UInt32
  ifName : Option Str
deriving DecidableEq

def hop (route : Route) : Hop := ⟨route.gateway, route.ifIndex, route.ifName⟩

def covers (p : IpPrefix) (ip : IpAddr) : Bool := IpAddr.samePrefix p.2.toNat p.1 ip

abbrev LongestRoute := Longest Route.contains fun route => route.prefixLength.toNat

def Forwards (table : List Route) (ip : IpAddr) (h : Hop) : Prop :=
  ∃ route, LongestRoute table ip route ∧ hop route = h

instance (table : List Route) (ip : IpAddr) (h : Hop) : Decidable (Forwards table ip h) :=
  decidable_of_iff (∃ route ∈ table, LongestRoute table ip route ∧ hop route = h)
    ⟨fun ⟨route, _, hroute⟩ => ⟨route, hroute⟩, fun ⟨route, hroute⟩ => ⟨route, hroute.1.1, hroute⟩⟩

/-- The address is forwarded, and as it was before. -/
def KeepsForwarding (before after : List Route) (ip : IpAddr) : Prop :=
  (∃ h, Forwards after ip h) ∧ ∀ h, Forwards after ip h → Forwards before ip h

/-- An exclusion does what it is for: its addresses are forwarded as before,
except where a longer prefix is routed through the device. -/
def ExclusionKept (before after : List Route) (included : List IpPrefix) (e : IpPrefix) : Prop :=
  ∀ ip, covers e ip → (∀ q ∈ included, covers q ip → q.2 ≤ e.2) → KeepsForwarding before after ip

/-- Neither a route of the table nor a configured prefix longer than this covers the address. -/
def NoneLonger (table : List Route) (configured : List IpPrefix) (length : UInt8) (ip : IpAddr) : Prop :=
  (∀ route ∈ table, route.contains ip → route.prefixLength ≤ length) ∧ ∀ p ∈ configured, covers p ip → p.2 ≤ length

/-- Some address of the prefix is left to it. -/
def Unshadowed (table : List Route) (configured : List IpPrefix) (e : IpPrefix) : Prop :=
  ∃ ip, covers e ip ∧ NoneLonger table configured e.2 ip

/-- Where the routes that cover a whole prefix send it. -/
def ForwardsWhole (table : List Route) (e : IpPrefix) (h : Hop) : Prop :=
  Forwards (table.filter fun route => route.prefixLength.toNat ≤ e.2.toNat) e.1 h

instance (table : List Route) (e : IpPrefix) (h : Hop) : Decidable (ForwardsWhole table e h) :=
  inferInstanceAs (Decidable (Forwards _ _ _))

/-- A new route as long as an exclusion that covers it sends it where the table did. -/
def CopiesWhole (tunIndex : UInt32) (before : List Route) (excluded included : List IpPrefix) (e : IpPrefix) : Prop :=
  (∀ e' ∈ excluded, e'.2 = e.2 → covers e e'.1 → ∀ base, baseRoute before tunIndex e'.1 = some base →
    ForwardsWhole before e (hop base)) ∧
  ∀ q ∈ included, q.2 = e.2 → covers e q.1 → ForwardsWhole before e ⟨none, some tunIndex, none⟩

end Hysteria.Spec
