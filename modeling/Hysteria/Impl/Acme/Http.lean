import Hysteria.Framework.Dialogue
import Hysteria.Framework.Text

/-!
# The ACME DNS client

`hysteria`, `acme_dns.rs`: the requests of `DnsSolver`, and `response`, `json`,
`json_allow_not_found`, `text` and `empty`, which send one of them and read the reply.
A solver is a `Dialogue`: it asks its HTTP client, its resolver and the clock.
-/

namespace Hysteria.Impl

open Framework

/-- A `serde_json::Value`. -/
inductive Json
  | null
  | bool (value : Bool)
  | unsigned (value : Nat)
  | signed (value : Int)
  | float (text : Str)
  | string (value : Str)
  | array (items : List Json)
  | object (fields : List (Str × Json))

namespace Json

def get (key : Str) : Json → Option Json
  | object fields => (fields.find? (·.1 = key)).map (·.2)
  | _ => none

def asStr : Json → Option Str
  | string value => some value
  | _ => none

def isNull : Json → Bool
  | null => true
  | _ => false

end Json

inductive ApiMethod
  | get
  | post
  | put
  | delete

inductive ApiAuth
  | none
  | bearer (token : Str)
  | basic (user password : Str)
  | header (value : Str)

inductive ApiBody
  | empty
  | json (value : Json)
  | form (fields : List (Str × Str))

structure ApiRequest where
  method : ApiMethod
  url : Str
  auth : ApiAuth := .none
  query : List (Str × Str) := []
  body : ApiBody := .empty

structure ApiReply where
  status : Nat
  body : Except Str (List UInt8)

def ApiReply.isSuccess (reply : ApiReply) : Bool := 200 ≤ reply.status ∧ reply.status < 300

inductive SolverRequest
  | http (request : ApiRequest)
  /-- Whether the name has an SOA record. -/
  | soaLookup (name : Str)
  /-- The TXT records of a name, each in its parts, without the cache. -/
  | txtLookup (name : Str)
  /-- The time, in nanoseconds. -/
  | now
  | sleep (seconds : Nat)

def SolverRequest.Answer : SolverRequest → Type
  | .http _ => Except Str ApiReply
  | .soaLookup _ => Bool
  | .txtLookup _ => Option (List (List (List UInt8)))
  | .now => Nat
  | .sleep _ => Unit

abbrev Solver := Dialogue SolverRequest.Answer Str

/-- `StatusCode::canonical_reason`. -/
abbrev Reasons := Nat → Option Str

namespace DnsClient

def showStatus (reasons : Reasons) (status : Nat) : Str :=
  showNat status ++ ' ' :: (reasons status).getD "<unknown status code>"

def bounded (value : Str) : Str := value.take 512

def response (request : ApiRequest) (operation : Str) : Solver ApiReply :=
  .ask (.http request) fun answer => .ofExcept (answer.mapError (operation ++ " failed: " ++ ·))

variable (reasons : Reasons) {τ : Type}

def returned (operation : Str) (status : Nat) (body : Str) : Str :=
  operation ++ " returned HTTP " ++ showStatus reasons status ++ ": " ++ bounded body

/-- What `json` and `json_allow_not_found` do with a reply. -/
def readJson (decode : List UInt8 → Except Str τ) (reply : ApiReply) (operation : Str) : Except Str τ := do
  let bytes ← reply.body.mapError (operation ++ " response failed: " ++ ·)
  if reply.isSuccess then (decode bytes).mapError (operation ++ " returned invalid JSON: " ++ ·)
  else .error (returned reasons operation reply.status (fromUtf8Lossy bytes))

def json (decode : List UInt8 → Except Str τ) (request : ApiRequest) (operation : Str) : Solver τ := do
  let reply ← response request operation
  .ofExcept (readJson reasons decode reply operation)

def jsonAllowNotFound (decode : List UInt8 → Except Str τ) (request : ApiRequest) (operation : Str) :
    Solver (Option τ) := do
  let reply ← response request operation
  if reply.status = 404 then return none
  else .ofExcept ((readJson reasons decode reply operation).map some)

def text (request : ApiRequest) (operation : Str) : Solver Str := do
  let reply ← response request operation
  let body ← .ofExcept (reply.body.mapError (operation ++ " response failed: " ++ ·))
  if reply.isSuccess then return fromUtf8Lossy body
  else .fail (returned reasons operation reply.status (fromUtf8Lossy body))

def empty (request : ApiRequest) (operation : Str) : Solver Unit := do
  let reply ← response request operation
  if reply.isSuccess then return
  else .fail (returned reasons operation reply.status (fromUtf8Lossy (reply.body.toOption.getD [])))

end DnsClient

end Hysteria.Impl
