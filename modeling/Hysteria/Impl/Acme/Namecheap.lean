import Hysteria.Impl.Acme.Http

/-!
# Namecheap

`hysteria`, `acme_namecheap.rs`: `Provider::update` reads all hosts of a zone, adds or
removes one, and writes all of them. `Element` is what `xmltree` makes of a reply.
-/

namespace Hysteria.Impl

open Framework

inductive XmlNode
  | element (name : Str) (attributes : List (Str × Str)) (children : List XmlNode)
  | other

structure Element where
  name : Str
  attributes : List (Str × Str)
  children : List XmlNode

namespace Element

def ofNode : XmlNode → Option Element
  | .element name attributes children => some ⟨name, attributes, children⟩
  | .other => none

def elements (element : Element) : List Element := element.children.filterMap ofNode

def getChild (element : Element) (name : Str) : Option Element := element.elements.find? (·.name = name)

def attr (element : Element) (key : Str) : Option Str := (element.attributes.find? (·.1 = key)).map (·.2)

def hosts (element : Element) : List Element := element.elements.filter (·.name = "Host")

end Element

structure NamecheapProvider where
  key : Str
  user : Str
  ip : Str
  endpoint : Str

/-- The fields of a host, in a reply and in a request. -/
def hostAttributes : List (Str × Str) := [("Name", "HostName"), ("Type", "RecordType"), ("Address", "Address"),
    ("TTL", "TTL"), ("MXPref", "MXPref")]

/-- The body of `host_fields`, for one attribute of one host. -/
def hostField (index : Nat) (record : Element) (fields : List (Str × Str)) (names : Str × Str) :
    Except Str (List (Str × Str)) :=
  match record.attr names.1 with
  | some value => .ok (fields ++ [(names.2 ++ showNat (index + 1), value)])
  | none =>
    if names.1 ≠ "MXPref" then
      .error ("Namecheap host is missing " ++ names.1 ++ "; refusing to overwrite records")
    else .ok fields

def recordFields (fields : List (Str × Str)) (record : Element × Nat) : Except Str (List (Str × Str)) :=
  hostAttributes.foldlM (hostField record.2 record.1) fields

def hostFields (records : List Element) : Except Str (List (Str × Str)) := records.zipIdx.foldlM recordFields []

namespace NamecheapProvider

variable (parseXml : List UInt8 → Option Element) (provider : NamecheapProvider)

def callFields (sld tld command : Str) : List (Str × Str) :=
  [("ApiUser", provider.user), ("UserName", provider.user), ("ApiKey", provider.key),
    ("ClientIp", provider.ip), ("SLD", sld), ("TLD", tld), ("Command", command)]

def request (fields : List (Str × Str)) : ApiRequest where
  method := .post
  url := provider.endpoint
  body := .form fields

/-- What `call` does with the reply. -/
def commandResponse : Except Str ApiReply → Except Str Element
  | .error _ => .error "Namecheap API request failed"
  | .ok reply =>
    if ¬ reply.isSuccess then .error "Namecheap API HTTP error"
    else
      match reply.body with
      | .error _ => .error "Namecheap response read failed"
      | .ok body =>
        match parseXml body with
        | none => .error "invalid Namecheap XML response"
        | some root =>
          if root.name ≠ "ApiResponse" ∨ root.attr "Status" ≠ some "OK" then
            .error "Namecheap API rejected the request"
          else
            match root.getChild "CommandResponse" with
            | none => .error "missing Namecheap command response"
            | some response => .ok response

def call (zone command : Str) (fields : List (Str × Str)) : Solver Element :=
  match splitOnce '.' zone with
  | none => .fail "invalid Namecheap zone"
  | some (sld, tld) =>
    .ask (.http (provider.request (fields ++ provider.callFields sld tld command))) fun answer =>
      .ofExcept (commandResponse parseXml answer)

def getHosts : Str := "namecheap.domains.dns.getHosts"
def setHosts : Str := "namecheap.domains.dns.setHosts"

def hostList (response : Element) : Except Str Element :=
  match response.getChild "DomainDNSGetHostsResult" with
  | none => .error "missing Namecheap host list"
  | some result =>
    if result.attr "IsUsingOurDNS" ≠ some "true" then
      .error "domain is not using Namecheap DNS"
    else .ok result

def isSuccess (response : Element) : Bool :=
  (response.getChild "DomainDNSSetHostsResult").bind (·.attr "IsSuccess") = some "true"

/-- The closure `matches` of `update`. -/
def isRecord (name value : Str) (record : Element) : Bool :=
  record.attr "Name" = some name ∧ record.attr "Type" = some "TXT" ∧ record.attr "Address" = some value

def challengeHost (name value : Str) : Element where
  name := "Host"
  attributes := [("Name", name), ("Type", "TXT"), ("Address", value), ("TTL", "300")]
  children := []

/-- The end of `update`: the hosts are written, with the `EmailType` that was read. -/
def write (zone : Str) (add : Bool) (result : Element) (records : List Element) : Solver Bool := do
  let fields ← .ofExcept (hostFields records)
  let email := ((result.attr "EmailType".toList).map fun email => ("EmailType".toList, email)).toList
  let response ← provider.call parseXml zone setHosts (fields ++ email)
  if isSuccess response then return add
  else .fail "Namecheap failed to update DNS records".toList

def update (zone name value : Str) (add : Bool) : Solver Bool := do
  let response ← provider.call parseXml zone getHosts []
  let result ← .ofExcept (hostList response)
  let records := result.hosts
  let existing := records.findIdx? (isRecord name value)
  if add then
    if existing.isSome then return false
    else provider.write parseXml zone add result (records ++ [challengeHost name value])
  else
    match existing with
    | none => return false
    | some index => provider.write parseXml zone add result (records.eraseIdx index)

end NamecheapProvider

end Hysteria.Impl
