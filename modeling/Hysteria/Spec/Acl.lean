import Mathlib.Data.List.Forall2
import Hysteria.Impl.Outbound.Acl

/-!
# What an ACL says

The text of an ACL, line by line: `LineText` is how a line is written, `Means`
what its fields stand for, and `firstMatch` what the lines decide about a
request. The host matchers are those of the source.
-/

namespace Hysteria.Spec

open Framework Impl

variable {ω : Type}

/-- The ports of a rule, as written. -/
inductive Ports where
  | all
  | range (first last : UInt16)
deriving DecidableEq

def Ports.Covers : Ports → UInt16 → Prop
  | .all, _ => True
  | .range first last, port => first ≤ port ∧ port ≤ last

instance (ports : Ports) (port : UInt16) : Decidable (ports.Covers port) := by
  cases ports <;> unfold Ports.Covers <;> infer_instance

structure Line (ω : Type) where
  outbound : ω
  host : HostMatcher
  protocol : AclProtocol
  ports : Ports
  hijack : Option IpAddr

structure Query where
  host : Str
  ips : List IpAddr
  port : UInt16
  protocol : AclProtocol

/-- The rule applies to requests of this protocol and host. -/
def Line.Concerns (line : Line ω) (q : Query) : Prop :=
  (line.protocol = .both ∨ line.protocol = q.protocol) ∧ line.host.matches q.host q.ips = true

def Line.Covers (line : Line ω) (q : Query) : Prop := line.Concerns q ∧ line.ports.Covers q.port

instance (line : Line ω) (q : Query) : Decidable (line.Concerns q) := by unfold Line.Concerns; infer_instance

instance (line : Line ω) (q : Query) : Decidable (line.Covers q) := by unfold Line.Covers; infer_instance

/-- The address itself, or the hijack address in the place of its host. -/
def Line.target (line : Line ω) (address : Str) (port : UInt16) : Str :=
  match line.hijack with
  | none => address
  | some ip => SocketAddr.display { ip, port }

/-- The outbound and the target of the first rule that covers the request. -/
def firstMatch (lines : List (Line ω)) (default : ω) (address : Str) (q : Query) : ω × Str :=
  match lines.find? (·.Covers q) with
  | some line => (line.outbound, line.target address q.port)
  | none => (default, address)

/-! ## The text -/

inductive ProtocolText : Str → AclProtocol → Prop
  | any : ProtocolText "*" .both
  | tcp : ProtocolText "tcp" .tcp
  | udp : ProtocolText "udp" .udp

inductive PortsText : Str → Ports → Prop
  | all : PortsText "*" .all
  | one {text : Str} {n : UInt16} : parseU16 text = some n → PortsText text (.range n n)
  | range {a b : Str} {first last : UInt16} : parseU16 a = some first → parseU16 b = some last → first ≤ last →
    PortsText (a ++ '-' :: b) (.range first last)

/-- The field for the protocol and the ports, in lower case. -/
inductive ProtoPortText : Str → AclProtocol → Ports → Prop
  | empty : ProtoPortText [] .both .all
  | protocol {text : Str} {protocol : AclProtocol} : ProtocolText text protocol → ProtoPortText text protocol .all
  | ports {a b : Str} {protocol : AclProtocol} {ports : Ports} : ProtocolText a protocol → PortsText b ports →
    ProtoPortText (a ++ '/' :: b) protocol ports

inductive HijackText : Option Str → Option IpAddr → Prop
  | none : HijackText none none
  | some {text : Str} {ip : IpAddr} : parseIpAddr text = some ip → HijackText (some text) (some ip)

/-- A name and up to three fields: host, protocol and ports, hijack address. -/
structure Means (outbounds : Str → Option ω) (hosts : Str → Option HostMatcher) (name : Str) (fields : List Str)
    (line : Line ω) : Prop where
  length_le : fields.length ≤ 3
  outbound : outbounds (toAsciiLowercase name) = some line.outbound
  host : ∃ host, fields[0]? = some host ∧ host ≠ [] ∧ hosts host = some line.host
  protoPort : ProtoPortText (toAsciiLowercase (fields.getD 1 [])) line.protocol line.ports
  hijack : HijackText fields[2]? line.hijack

/-- A field between white space. -/
def FieldText (text field : Str) : Prop := Trimmed field ∧ Padded field text ∧ ',' ∉ text

/-- Nothing, or a comment. -/
def Comment (text : Str) : Prop := text = [] ∨ ∃ rest, text = '#' :: rest

/-- `name(field, field, field)` between white space, or nothing but that; and a comment. -/
inductive LineText : Str → Option (Str × List Str) → Prop
  | blank {pad comment : Str} : Padded [] pad → Comment comment → LineText (pad ++ comment) none
  | rule {body name comment : Str} {texts fields : List Str} :
    Padded (name ++ '(' :: ([','].intercalate texts ++ [')'])) body → '#' ∉ body →
    (∀ c ∈ name, isAsciiAlphanumeric c = true ∨ c = '_') → List.Forall₂ FieldText texts fields →
    Comment comment → LineText (body ++ comment) (some (name, fields))

/-- A host as rules keep it: without the dots at its end, in lower case. -/
def plainName (host : Str) : Str := toAsciiLowercase (trimEndMatches '.' host)

/-- What a line says: nothing, or a rule. -/
inductive Reads (outbounds : Str → Option ω) (hosts : Str → Option HostMatcher) : Str → Option (Line ω) → Prop
  | blank {raw : Str} : LineText raw none → Reads outbounds hosts raw none
  | rule {raw name : Str} {fields : List Str} {line : Line ω} : LineText raw (some (name, fields)) →
    Means outbounds hosts name fields line → Reads outbounds hosts raw (some line)

end Hysteria.Spec
