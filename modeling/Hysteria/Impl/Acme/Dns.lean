import Hysteria.Impl.Acme.Namecheap

/-!
# The ACME DNS-01 solver

`hysteria`, `acme_dns.rs`: `DnsSolver` makes the TXT record of a challenge with the API
of a DNS provider (`create`) and takes it away again (`remove`).
-/

namespace Hysteria.Impl

open Framework DnsClient

def dnsTtl : Nat := 300

inductive DnsProvider
  | namecheap (provider : NamecheapProvider)
  | njalla (token : Str)
  | porkbun (key secret : Str)
  | cloudflare (token : Str)
  | duckDns (token domain : Str)
  | gandi (token : Str)
  | goDaddy (token : Str)
  | nameDotCom (token user server : Str)
  | vultr (token : Str)

structure RecordHandle where
  zone : Str
  name : Str
  id : Str
  deriving DecidableEq

structure CfZone where
  id : Str
  name : Str

structure GandiRecord where
  rrsetValues : List Str
  rrsetTtl : Nat

structure GoDaddyRecord where
  data : Str
  ttl : Nat

structure PorkbunResponse where
  status : Str
  id : Json

/-- What the solver takes from `http`, `serde_json` and `xmltree`. -/
structure DnsLibraries where
  reasons : Reasons
  cfZones : List UInt8 → Except Str (List CfZone)
  cfRecord : List UInt8 → Except Str Str
  gandiRecord : List UInt8 → Except Str GandiRecord
  goDaddyRecords : List UInt8 → Except Str (List GoDaddyRecord)
  jsonValue : List UInt8 → Except Str Json
  porkbunResponse : List UInt8 → Except Str PorkbunResponse
  nameRecord : List UInt8 → Except Str Int
  vultrRecord : List UInt8 → Except Str Str
  parseXml : List UInt8 → Option Element

def showInt : Int → Str
  | .ofNat n => showNat n
  | .negSucc n => '-' :: showNat (n + 1)

namespace PorkbunResponse

def check (response : PorkbunResponse) : Except Str Unit :=
  if response.status = "SUCCESS" then .ok () else .error "Porkbun API rejected the request"

def recordId (response : PorkbunResponse) : Except Str Str := do
  response.check
  let id := match response.id with
    | .string id => id
    | .unsigned id => showNat id
    | _ => []
  if id = [] ∨ ¬ id.all (fun c => (decimalDigit c).isSome) then .error "Porkbun returned an invalid record ID"
  else .ok id

end PorkbunResponse

def duckdnsDomain (fqdn : Str) : Except Str Str :=
  let fqdn := trimEndMatches '.' fqdn
  let labels := fqdn.splitOn '.'
  if endsWith (toAsciiLowercase fqdn) ".duckdns.org" then
    if labels.length < 3 then .error ("invalid DuckDNS name " ++ fqdn)
    else .ok (['.'].intercalate (labels.drop (labels.length - 3)))
  else
    match labels.getLast? with
    | some label => .ok label
    | none => .error ("invalid DuckDNS name " ++ fqdn)

def trimQuotes (s : Str) : Str := trimEndMatches '"' (s.dropWhile (· == '"'))

/-! ## The requests -/

def challengeJson (name content : Str) (ttl : Json) : List (Str × Json) :=
  [("name", .string name), ("type", .string "TXT"), ("content", .string content), ("ttl", ttl)]

def gandiUrl (zone name : Str) : Str :=
  "https://api.gandi.net/v5/livedns/domains/" ++ zone ++ "/records/" ++ name ++ "/TXT"

def gandiBody (values : List Str) (ttl : Nat) : ApiBody :=
  .json (.object [("rrset_values", .array (values.map .string)), ("rrset_ttl", .unsigned ttl)])

def goDaddyUrl (zone name : Str) : Str := "https://api.godaddy.com/v1/domains/" ++ zone ++ "/records/TXT/" ++ name

def goDaddyAuth (token : Str) : ApiAuth := .header ("sso-key " ++ token)

def goDaddyBody (records : List GoDaddyRecord) : ApiBody := .json (.array (records.map fun record => .object
    [("data", .string record.data), ("ttl", .unsigned record.ttl)]))

def duckDnsRequest (domain token txt : Str) (clear : List (Str × Str)) : ApiRequest where
  method := .get
  url := "https://www.duckdns.org/update".toList
  query := [("domains".toList, domain), ("token".toList, token), ("txt".toList, txt)] ++ clear ++
    [("verbose".toList, "true".toList)]

namespace DnsSolver

variable (lib : DnsLibraries)

def njallaCall (token method : Str) (params : Json) : Solver Json := do
  let response ← json lib.reasons lib.jsonValue
    { method := .post, url := "https://njal.la/api/1/", auth := .header ("Njalla " ++ token),
      body := .json (.object [("jsonrpc", .string "2.0"), ("id", .string "1"),
        ("method", .string method), ("params", params)]) }
    "Njalla DNS request"
  if (response.get "error").any (!·.isNull) then .fail "Njalla API rejected the request"
  else
    match response.get "result" with
    | some result => return result
    | none => .fail "Njalla API response is missing result"

/-- `duckdns_domain`, unless the domain is configured. -/
def duckDnsTarget (domain fqdn : Str) : Except Str Str :=
  if domain = [] then duckdnsDomain fqdn else .ok (trimEndMatches '.' domain)

/-! ## `create`, by the provider: the identifier of the record -/

def createCloudflare (token fqdn zone value : Str) : Solver Str := do
  let zones ← json lib.reasons lib.cfZones
    { method := .get, url := "https://api.cloudflare.com/client/v4/zones", auth := .bearer token,
      query := [("name", zone)] }
    "Cloudflare zone lookup"
  match zones.find? (trimEndMatches '.' ·.name = zone) with
  | none => .fail ("Cloudflare zone " ++ zone ++ " was not found")
  | some item =>
    let id ← json lib.reasons lib.cfRecord
      { method := .post, auth := .bearer token,
        url := "https://api.cloudflare.com/client/v4/zones/" ++ item.id ++ "/dns_records",
        body := .json (.object [("type", .string "TXT"), ("name", .string fqdn),
          ("content", .string value), ("ttl", .unsigned dnsTtl)]) }
      "Cloudflare record creation"
    return item.id ++ ':' :: id

def createDuckDns (token domain fqdn value : Str) : Solver Str := do
  let domain ← .ofExcept (duckDnsTarget domain fqdn)
  let body ← text lib.reasons (duckDnsRequest domain token value []) "DuckDNS record creation"
  if (lines body).head? ≠ some "OK" then
    .fail ("DuckDNS record creation failed: " ++ bounded body)
  else return []

def createGandi (token zone name value : Str) : Solver Str := do
  let url := gandiUrl zone name
  let record ← jsonAllowNotFound lib.reasons lib.gandiRecord { method := .get, url, auth := .bearer token }
    "Gandi record lookup"
  let values := (record.map (·.rrsetValues)).getD []
  let values := if values.any (· = value) then values else values ++ [value]
  empty lib.reasons { method := .put, url, auth := .bearer token, body := gandiBody values dnsTtl }
    "Gandi record creation"
  return []

def createGoDaddy (token zone name value : Str) : Solver Str := do
  let url := goDaddyUrl zone name
  let records ← jsonAllowNotFound lib.reasons lib.goDaddyRecords { method := .get, url, auth := goDaddyAuth token }
    "GoDaddy record lookup"
  let records := records.getD []
  let records := if records.any (·.data = value) then records else records ++ [⟨value, 600⟩]
  empty lib.reasons { method := .put, url, auth := goDaddyAuth token, body := goDaddyBody records }
    "GoDaddy record creation"
  return []

def createNamecheap (provider : NamecheapProvider) (zone name value : Str) : Solver Str := do
  if ← provider.update lib.parseXml zone name value true then return "created" else return []

def createNjalla (token zone name value : Str) : Solver Str := do
  let result ← njallaCall lib token "add-record" (.object (("domain", .string zone) ::
    challengeJson name value (.unsigned dnsTtl)))
  match ((result.get "id").bind Json.asStr).filter (· ≠ []) with
  | some id => return id
  | none => .fail "Njalla returned an invalid record ID"

def createPorkbun (key secret zone name value : Str) : Solver Str := do
  let response ← json lib.reasons lib.porkbunResponse
    { method := .post, url := "https://api.porkbun.com/api/json/v3/dns/create/" ++ zone,
      body := .json (.object ([("apikey".toList, .string key), ("secretapikey".toList, .string secret)] ++
        challengeJson name value (.string (showNat dnsTtl)))) }
    "Porkbun record creation"
  .ofExcept response.recordId

def createNameDotCom (token user server zone name value : Str) : Solver Str := do
  let id ← json lib.reasons lib.nameRecord
    { method := .post, auth := .basic user token,
      url := trimEndMatches '/' server ++ "/v4/domains/" ++ zone ++ "/records",
      body := .json (.object [("host", .string name), ("type", .string "TXT"),
        ("answer", .string value), ("ttl", .unsigned dnsTtl)]) }
    "name.com record creation"
  return showInt id

def createVultr (token zone name value : Str) : Solver Str := json lib.reasons lib.vultrRecord
    { method := .post, auth := .bearer token, url := "https://api.vultr.com/v2/domains/" ++ zone ++ "/records",
      body := .json (.object [("name", .string name), ("type", .string "TXT"),
        ("data", .string ('"' :: value ++ ['"'])), ("ttl", .unsigned dnsTtl)]) }
    "Vultr record creation"

def create (provider : DnsProvider) (fqdn zone name value : Str) : Solver RecordHandle := do
  let id ← match provider with
    | .cloudflare token => createCloudflare lib token fqdn zone value
    | .duckDns token domain => createDuckDns lib token domain fqdn value
    | .gandi token => createGandi lib token zone name value
    | .goDaddy token => createGoDaddy lib token zone name value
    | .namecheap provider => createNamecheap lib provider zone name value
    | .njalla token => createNjalla lib token zone name value
    | .porkbun key secret => createPorkbun lib key secret zone name value
    | .nameDotCom token user server => createNameDotCom lib token user server zone name value
    | .vultr token => createVultr lib token zone name value
  return { zone, name, id }

/-! ## `remove`, by the provider -/

def removeNamecheap (provider : NamecheapProvider) (handle : RecordHandle) (value : Str) : Solver Unit := do
  if handle.id = "created" then
    let _ ← provider.update lib.parseXml handle.zone handle.name value false
    return
  else return

def removePorkbun (key secret : Str) (handle : RecordHandle) : Solver Unit := do
  let response ← json lib.reasons lib.porkbunResponse
    { method := .post, url := "https://api.porkbun.com/api/json/v3/dns/delete/" ++ handle.zone ++ '/' :: handle.id,
      body := .json (.object [("apikey", .string key), ("secretapikey", .string secret)]) }
    "Porkbun record cleanup"
  .ofExcept response.check

def removeCloudflare (token : Str) (handle : RecordHandle) : Solver Unit :=
  match splitOnce ':' handle.id with
  | none => .fail "invalid Cloudflare record handle"
  | some (zoneId, recordId) =>
    empty lib.reasons
      { method := .delete, auth := .bearer token,
        url := "https://api.cloudflare.com/client/v4/zones/" ++ zoneId ++ "/dns_records/" ++ recordId }
      "Cloudflare record cleanup"

def removeDuckDns (token domain : Str) (handle : RecordHandle) : Solver Unit := do
  let domain ← .ofExcept (duckDnsTarget domain (handle.name ++ '.' :: handle.zone))
  let body ← text lib.reasons (duckDnsRequest domain token [] [("clear", "true")])
    "DuckDNS record cleanup"
  if (lines body).head? = some "OK" then return
  else .fail ("DuckDNS record cleanup failed: " ++ bounded body)

def removeGandi (token : Str) (handle : RecordHandle) (value : Str) : Solver Unit := do
  let url := gandiUrl handle.zone handle.name
  let record ← jsonAllowNotFound lib.reasons lib.gandiRecord { method := .get, url, auth := .bearer token }
    "Gandi record cleanup lookup"
  match record with
  | none => return
  | some record =>
    let values := record.rrsetValues.filter fun item => item ≠ value ∧ trimQuotes item ≠ value
    if values = [] then
      empty lib.reasons { method := .delete, url, auth := .bearer token } "Gandi record cleanup"
    else
      empty lib.reasons
        { method := .put, url, auth := .bearer token, body := gandiBody values (max record.rrsetTtl dnsTtl) }
        "Gandi record cleanup"

def removeGoDaddy (token : Str) (handle : RecordHandle) (value : Str) : Solver Unit := do
  let url := goDaddyUrl handle.zone handle.name
  let records ← jsonAllowNotFound lib.reasons lib.goDaddyRecords { method := .get, url, auth := goDaddyAuth token }
    "GoDaddy record cleanup lookup"
  match records with
  | none => return
  | some records =>
    match records.filter (·.data ≠ value) with
    | [] => empty lib.reasons { method := .delete, url, auth := goDaddyAuth token } "GoDaddy record cleanup"
    | records =>
      empty lib.reasons { method := .put, url, auth := goDaddyAuth token, body := goDaddyBody records }
        "GoDaddy record cleanup"

def remove (provider : DnsProvider) (handle : RecordHandle) (value : Str) : Solver Unit :=
  match provider with
  | .namecheap provider => removeNamecheap lib provider handle value
  | .njalla token => do
    let _ ← njallaCall lib token "remove-record"
      (.object [("domain", .string handle.zone), ("id", .string handle.id)])
    return
  | .porkbun key secret => removePorkbun lib key secret handle
  | .cloudflare token => removeCloudflare lib token handle
  | .duckDns token domain => removeDuckDns lib token domain handle
  | .gandi token => removeGandi lib token handle value
  | .goDaddy token => removeGoDaddy lib token handle value
  | .nameDotCom token user server =>
    empty lib.reasons
      { method := .delete, auth := .basic user token,
        url := trimEndMatches '/' server ++ "/v4/domains/" ++ handle.zone ++ "/records/" ++ handle.id }
      "name.com record cleanup"
  | .vultr token =>
    empty lib.reasons
      { method := .delete, auth := .bearer token,
        url := "https://api.vultr.com/v2/domains/" ++ handle.zone ++ "/records/" ++ handle.id }
      "Vultr record cleanup"

end DnsSolver

end Hysteria.Impl
