import Mathlib.Logic.Function.Basic
import Mathlib.Logic.Relation
import Hysteria.Impl.Acme.Dns

/-!
# A Namecheap account

`NamecheapServer` holds the hosts of every zone. `getHosts` shows them; `setHosts` gives
a zone the hosts that its form numbers (`readHosts`), or has no effect and then reports
no success. `NamecheapStep` is one `create` or `remove` of a solver with such a server,
and `added` are the challenges that these calls have written and not taken away.
-/

namespace Hysteria.Spec

open Framework Impl
open Framework.Dialogue (Runs)
open Function (update)

/-! ## Hosts -/

inductive HostField
  | name
  | type
  | address
  | ttl
  | mxPref
  deriving DecidableEq

namespace HostField

def all : List HostField := [name, type, address, ttl, mxPref]

/-- The attribute in a host list. -/
def source : HostField → Str
  | name => "Name"
  | type => "Type"
  | address => "Address"
  | ttl => "TTL"
  | mxPref => "MXPref"

/-- The field in a form, before its number. -/
def target : HostField → Str
  | name => "HostName"
  | type => "RecordType"
  | address => "Address"
  | ttl => "TTL"
  | mxPref => "MXPref"

def key (field : HostField) (number : Nat) : Str := field.target ++ showNat number

end HostField

@[ext]
structure HostRecord where
  attr : HostField → Option Str

namespace HostRecord

def ofElement (host : Element) : HostRecord := ⟨fun field => host.attr field.source⟩

def ofChallenge (challenge : Str × Str) : HostRecord where
  attr
    | .name => some challenge.1
    | .type => some "TXT"
    | .address => some challenge.2
    | .ttl => some "300"
    | .mxPref => none

/-- It has a name, a type, an address and a TTL. -/
def Complete (host : HostRecord) : Prop := ∀ field, field ≠ .mxPref → (host.attr field).isSome = true

/-- Whether it is a TXT record of the name with the value. -/
def has (host : HostRecord) (challenge : Str × Str) : Bool :=
  host.attr .name = some challenge.1 ∧ host.attr .type = some "TXT" ∧ host.attr .address = some challenge.2

end HostRecord

/-! ## Forms -/

abbrev HostForm := List (Str × Str)

def formField (form : HostForm) (key : Str) : Option Str := (form.find? (·.1 = key)).map (·.2)

def formZone (form : HostForm) : Option Str := do
  return (← formField form "SLD") ++ '.' :: (← formField form "TLD")

/-- The hosts of a form from a number on, as long as they have a name. -/
def hostsFrom (form : HostForm) : (limit number : Nat) → List HostRecord
  | 0, _ => []
  | limit + 1, number =>
    if (formField form (HostField.name.key number)).isSome then
      ⟨fun field => formField form (field.key number)⟩ :: hostsFrom form limit (number + 1)
    else []

def readHosts (form : HostForm) : List HostRecord := hostsFrom form form.length 1

/-- The hosts of the form have the numbers from 1 on. -/
def Numbered (form : HostForm) : Prop := ∃ count, ∀ (field : HostField) number,
    ((∃ value, (field.key number, value) ∈ form) → 1 ≤ number ∧ number ≤ count) ∧
      (field ≠ .mxPref → 1 ≤ number → number ≤ count → ∃ value, (field.key number, value) ∈ form)

/-! ## The server -/

structure NamecheapServer where
  zones : Str → List HostRecord
  /-- The calls of `setHosts`, and whether they have had their effect. -/
  calls : List (HostForm × Bool)

namespace NamecheapServer

def write (s : NamecheapServer) (form : HostForm) (written : Bool) : NamecheapServer where
  zones := if written then (formZone form).elim s.zones fun zone => update s.zones zone (readHosts form) else s.zones
  calls := s.calls ++ [(form, written)]

variable (parseXml : List UInt8 → Option Element)

def Answers (s : NamecheapServer) (form : HostForm) (answer : Except Str ApiReply) (t : NamecheapServer) : Prop :=
  if formField form "Command" = some NamecheapProvider.getHosts then
    t = s ∧ ∀ response result zone, NamecheapProvider.commandResponse parseXml answer = .ok response →
      NamecheapProvider.hostList response = .ok result → formZone form = some zone →
      result.hosts.map .ofElement = s.zones zone
  else if formField form "Command" = some NamecheapProvider.setHosts then
    ∃ written, t = s.write form written ∧
      ∀ response, NamecheapProvider.commandResponse parseXml answer = .ok response →
        NamecheapProvider.isSuccess response = true → written = true
  else t = s

def Serves (s : NamecheapServer) : (request : SolverRequest) → request.Answer → NamecheapServer → Prop
  | .http { body := .form form, .. }, answer, t => Answers parseXml s form answer t
  | _, _, t => t = s

/-- Whether a call of `setHosts` since `s` has had its effect. -/
def wrote (s t : NamecheapServer) : Bool := (t.calls.drop s.calls.length).any (·.2)

/-- Whether there is such a record in the zone. -/
def has (s : NamecheapServer) (zone : Str) (challenge : Str × Str) : Bool := (s.zones zone).any (·.has challenge)

/-- Whether an operation has changed the zone: one that succeeds has done what it is for, and
one that fails may have done it, if the answer to `setHosts` was lost. -/
def changed {α : Type} (s : NamecheapServer) (result : Except Str α) (purpose : Bool) (t : NamecheapServer) : Bool :=
  match result with
  | .ok _ => purpose
  | .error _ => s.wrote t

end NamecheapServer

/-! ## Runs of the solver -/

/-- A handle that `create` has returned, with its value; whether it has added the record, which
it does if there is none. -/
structure HeldHandle where
  handle : RecordHandle
  value : Str
  own : Bool
deriving DecidableEq

structure NamecheapWorld where
  server : NamecheapServer
  /-- The handles that have been returned and not been used. -/
  handles : List HeldHandle
  /-- The challenges that were added to each zone and not removed, in order. -/
  added : Str → List (Str × Str)

def NamecheapWorld.init (zones : Str → List HostRecord) : NamecheapWorld := ⟨⟨zones, []⟩, [], fun _ => []⟩

inductive NamecheapStep (lib : DnsLibraries) (provider : NamecheapProvider) : NamecheapWorld → NamecheapWorld → Prop
  | create {w : NamecheapWorld} {fqdn zone name value : Str} {result : Except Str RecordHandle}
      {server : NamecheapServer}
      (runs : Runs (NamecheapServer.Serves lib.parseXml) w.server
        (DnsSolver.create lib (.namecheap provider) fqdn zone name value) result server) :
      NamecheapStep lib provider w {
        server
        handles := (result.toOption.map (⟨·, value, !w.server.has zone (name, value)⟩)).toList ++ w.handles
        added := if w.server.changed result (!w.server.has zone (name, value)) server then
            update w.added zone (w.added zone ++ [(name, value)]) else w.added }
  | remove {w : NamecheapWorld} {held : HeldHandle} {result : Except Str Unit} {server : NamecheapServer}
      (mem : held ∈ w.handles)
      (runs : Runs (NamecheapServer.Serves lib.parseXml) w.server
        (DnsSolver.remove lib (.namecheap provider) held.handle held.value) result server) :
      NamecheapStep lib provider w {
        server
        handles := w.handles.erase held
        added := if w.server.changed result held.own server then
            update w.added held.handle.zone ((w.added held.handle.zone).erase (held.handle.name, held.value))
          else w.added }

end Hysteria.Spec
