import Mathlib.Logic.Function.Basic
import Hysteria.Impl.Acme.Dns

/-!
# TXT record sets behind an API

`TxtApi.Serves`: a service that holds the record set of every URL. A `GET` shows the set
that is stored, a `PUT` replaces it and a `DELETE` takes it away. `SetProvider` are the
two providers whose API writes whole sets; `added` and `removed` say what their
`create` and `remove` make of a set, and `Spared` which records come out of both unchanged.
-/

namespace Hysteria.Spec

open Framework Impl
open Function (update)

structure TxtRecord where
  value : Str
  ttl : Nat
  deriving DecidableEq

/-- The record set of each URL; an absent set is empty. -/
abbrev TxtStore := Str → List TxtRecord

/-- How an API writes a set down. -/
structure TxtApi where
  /-- In the reply to a `GET`. -/
  Reads : List UInt8 → List TxtRecord → Prop
  /-- In a `PUT`. -/
  Writes : ApiBody → List TxtRecord → Prop

namespace TxtApi

variable (api : TxtApi) (s : TxtStore)

/-- A reply that reports success, and what the request has done. -/
def Done (request : ApiRequest) (reply : ApiReply) (t : TxtStore) : Prop :=
  match request.method with
  | .get => t = s ∧ ∀ bytes, reply.body = .ok bytes → ∀ records, api.Reads bytes records → records = s request.url
  | .put => ∀ records, api.Writes request.body records → t = update s request.url records
  | .delete => t = update s request.url []
  | .post => t = s

/-- A request that fails, with or without a reply, may have changed the set it names. -/
def Replies (request : ApiRequest) : Except Str ApiReply → TxtStore → Prop
  | .ok reply, t =>
    if reply.isSuccess then api.Done s request reply t
    else (∀ other, other ≠ request.url → t other = s other) ∧
      (request.method = .get → t = s ∧ (reply.status = 404 → s request.url = []))
  | .error _, t => ∀ other, other ≠ request.url → t other = s other

def Serves : (request : SolverRequest) → request.Answer → TxtStore → Prop
  | .http request, answer, t => api.Replies s request answer t
  | .soaLookup _, _, t => t = s
  | .txtLookup _, _, t => t = s
  | .now, _, t => t = s
  | .sleep _, _, t => t = s

end TxtApi

def gandiRecords (values : List Str) (ttl : Nat) : List TxtRecord := values.map (⟨·, ttl⟩)

def goDaddyRecords (records : List GoDaddyRecord) : List TxtRecord :=
  records.map fun record => ⟨record.data, record.ttl⟩

inductive SetProvider
  | gandi
  | goDaddy

namespace SetProvider

def provider (token : Str) : SetProvider → DnsProvider
  | gandi => .gandi token
  | goDaddy => .goDaddy token

def url (zone name : Str) : SetProvider → Str
  | gandi => gandiUrl zone name
  | goDaddy => goDaddyUrl zone name

def api (lib : DnsLibraries) : SetProvider → TxtApi
  | gandi => {
      Reads bytes records := ∃ record, lib.gandiRecord bytes = .ok record ∧
        records = gandiRecords record.rrsetValues record.rrsetTtl
      Writes body records := ∃ values ttl, body = gandiBody values ttl ∧ records = gandiRecords values ttl }
  | goDaddy => {
      Reads bytes records := ∃ found, lib.goDaddyRecords bytes = .ok found ∧ records = goDaddyRecords found
      Writes body records := ∃ found, body = goDaddyBody found ∧ records = goDaddyRecords found }

/-- The set with the value. -/
def added (value : Str) (set : List TxtRecord) : SetProvider → List TxtRecord
  | gandi =>
    let values := set.map (·.value)
    gandiRecords (if values.any (· = value) then values else values ++ [value]) dnsTtl
  | goDaddy => if set.any (·.value = value) then set else set ++ [⟨value, 600⟩]

/-- Whether `remove` leaves the record. -/
def keeps (value : Str) (record : TxtRecord) : SetProvider → Bool
  | gandi => record.value ≠ value ∧ trimQuotes record.value ≠ value
  | goDaddy => record.value ≠ value

/-- The set without the value. -/
def removed (value : Str) (set : List TxtRecord) : SetProvider → List TxtRecord
  | gandi => (set.filter (gandi.keeps value)).map fun record => ⟨record.value, max record.ttl dnsTtl⟩
  | goDaddy => set.filter (goDaddy.keeps value)

/-- The records that are as before after `create` and `remove`. -/
def Spared (value : Str) (record : TxtRecord) (p : SetProvider) : Prop :=
  p.keeps value record ∧ (p = gandi → record.ttl = dnsTtl)

end SetProvider

end Hysteria.Spec
