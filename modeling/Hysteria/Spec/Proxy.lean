import Hysteria.Framework.HttpHead
import Hysteria.Impl.Outbound.Socks5

/-!
# Requests to a proxy

A request that is not a CONNECT, as an application sends it to an HTTP proxy
(`PlainRequest.raw`) and as its origin should get it (`PlainRequest.originForm`).
`AbsoluteTarget` is the target of one by itself, with its path and query apart.
`Isolated`: what a proxy has written into its tunnels is, for each tunnel, the
requests for the host and port of that tunnel and nothing else. `UdpPacket` are the
packets that carry a datagram through a SOCKS5 proxy.
-/

namespace Hysteria.Spec

open Framework

/-- No whitespace. -/
def Word (s : Str) : Prop := ∀ c ∈ s, isWhitespace c = false

instance (s : Str) : Decidable (Word s) := List.decidableBAll _ s

/-- What can stand in a component of an authority. -/
def AuthorityPart (s : Str) : Prop := ∀ c ∈ s, c ≠ '/' ∧ c ≠ '?' ∧ c ≠ '#' ∧ c ≠ '@'

instance (s : Str) : Decidable (AuthorityPart s) := List.decidableBAll _ s

/-- A colon in a host stands between brackets. -/
structure Host (host : Str) : Prop where
  ne_nil : host ≠ []
  word : Word host
  part : AuthorityPart host
  colon : (host.head? = some '[' ∧ host.getLast? = some ']') ∨ ':' ∉ host

/-- A port, as it stands after the colon: it can be empty. -/
def Port (port : Str) : Prop :=
  port = [] ∨ (∀ c ∈ port, (decimalDigit c).isSome = true) ∧ (parseU16 port).isSome = true

/-- A header field: the bytes of its value, with the whitespace around it. -/
structure RawHeader where
  name : Str
  value : List UInt8
  name_ne : name ≠ []
  name_visible : ∀ c ∈ name, 0x20 < c.toNat ∧ c.toNat < 0x7f ∧ c ≠ ':'
  value_clean : 13 ∉ value ∧ 10 ∉ value

structure PlainRequest where
  method : Str
  scheme : Str
  userinfo : Option Str
  host : Str
  port : Option Str
  /-- The path and the query. -/
  origin : Str
  version : Str
  headers : List RawHeader
  body : List UInt8
  method_word : method ≠ [] ∧ Word method
  method_plain : toAsciiLowercase method ≠ "connect"
  scheme_word : scheme ≠ [] ∧ Word scheme ∧ ':' ∉ scheme ∧ '/' ∉ scheme
  userinfo_part : ∀ info ∈ userinfo, Word info ∧ AuthorityPart info
  host_valid : Host host
  port_valid : ∀ digits ∈ port, Port digits
  origin_word : Word origin ∧ ∀ c ∈ origin.head?, c = '/' ∨ c = '?'
  version_word : Word version ∧ "HTTP/" <+: version

/-! ## Header fields -/

namespace RawHeader

variable (header : RawHeader)

def line : List UInt8 := utf8 header.name ++ 58 :: header.value

/-- Its text, without the whitespace around it. -/
def text : Option Str := (fromUtf8 header.value).map trim

/-- A header field that is meant for the proxy. -/
def forProxy : Bool := toAsciiLowercase header.name = "proxy-authorization" ∨
    toAsciiLowercase header.name = "proxy-connection"

/-- Its line, with one space before the value. -/
def trimmed : List UInt8 := utf8 header.name ++ utf8 ": " ++ (header.text.map utf8).getD header.value

end RawHeader

/-! ## Requests -/

namespace PlainRequest

variable (r : PlainRequest)

def authority : Str := (r.userinfo.elim [] (· ++ ['@'])) ++ r.host ++ r.port.elim [] (':' :: ·)

/-- The target in absolute form. -/
def target : Str := r.scheme ++ "://" ++ r.authority ++ r.origin

def requestLine (target : Str) : Str := r.method ++ ' ' :: target ++ ' ' :: r.version

/-- What the application sends before the body. -/
def head : List UInt8 :=
  utf8 (r.requestLine r.target) ++ [13, 10] ++ r.headers.flatMap (·.line ++ [13, 10]) ++ [13, 10]

/-- What the application sends. -/
def raw : List UInt8 := r.head ++ r.body

/-- The port it names; that of `http`, if none. -/
def portText : Str := match r.port with
  | none | some [] => "80"
  | some digits => digits

/-- The host and port that the request line names. -/
def tunnel : Str := r.host ++ ':' :: r.portText

/-- The target in origin form. -/
def path : Str := if r.origin.head? = some '/' then r.origin else '/' :: r.origin

/-- What the origin should get. -/
def originForm : List UInt8 := utf8 (r.requestLine r.path) ++ [13, 10] ++
    (r.headers.filter fun header => ¬ header.forProxy).flatMap (·.trimmed ++ [13, 10]) ++ [13, 10] ++ r.body

end PlainRequest

/-! ## Targets -/

/-- A target in absolute form, without user information. -/
structure AbsoluteTarget where
  host : Str
  port : Option Str
  path : Str
  query : Str
  host_valid : Host host
  port_valid : ∀ digits ∈ port, digits ≠ [] ∧ Port digits
  path_valid : ∀ c ∈ path.head?, c = '/'
  query_valid : ∀ c ∈ query.head?, c = '?'

namespace AbsoluteTarget

variable (t : AbsoluteTarget)

def authority : Str := t.host ++ t.port.elim [] (':' :: ·)

def text : Str := "http://" ++ (t.authority ++ (t.path ++ t.query))

/-- The host and port that it names; the port of `http`, if none. -/
def address : Str := t.host ++ ':' :: t.port.getD "80"

def originForm : Str := (if t.path = [] then "/".toList else t.path) ++ t.query

end AbsoluteTarget

/-! ## Tunnels -/

/-- What was written to an address. -/
def writtenTo (tunnels : List (Str × List UInt8)) (address : Str) : List UInt8 :=
  (tunnels.filter (·.1 = address)).flatMap (·.2)

/-- The proxy has come to some request, and of those before it, each that it
serves is in the tunnel it names, in origin form. There is nothing else in the
tunnels. -/
def Isolated (serves : PlainRequest → Bool) (requests : List PlainRequest) (tunnels : List (Str × List UInt8)) : Prop :=
  ∃ k, ∀ address, writtenTo tunnels address =
    ((requests.take k).filter fun r => serves r ∧ r.tunnel = address).flatMap (·.originForm)

/-! ## SOCKS5 -/

open Impl

/-- A host and how it is encoded. -/
inductive HostBytes : List UInt8 → Str → Prop
  | v4 {octets : List UInt8} : octets.length = 4 →
    HostBytes (1 :: octets) (IpAddr.v4 (BitVec.ofNat 32 (beNat octets))).display
  | v6 {octets : List UInt8} : octets.length = 16 →
    HostBytes (4 :: octets) (IpAddr.v6 (BitVec.ofNat 128 (beNat octets))).display
  | domain {length : UInt8} {name : List UInt8} {host : Str} : name.length = length.toNat →
    fromUtf8 name = some host → HostBytes (3 :: length :: name) host

/-- `s` starts with an address of `size` bytes. -/
def AddressIn (s : List UInt8) (host : Str) (port : UInt16) (size : Nat) : Prop :=
  ∃ bytes portBytes rest, s = bytes ++ (portBytes ++ rest) ∧ HostBytes bytes host ∧ portBytes.length = 2 ∧
    port = UInt16.ofNat (beNat portBytes) ∧ size = bytes.length + 2

/-- The addresses that not all decoders take, or not all write in the same way: those without
a host, and those of a host with a colon that is neither an IPv6 address nor in brackets. -/
def Disputed (s : List UInt8) : Prop := ∃ host port size, AddressIn s host port size ∧
    (host = [] ∨ ':' ∈ host ∧ host.head? ≠ some '[' ∧ parseIpv6 host = none)

/-- The packet carries `payload` from `source`. -/
def UdpPacket (packet payload : List UInt8) (source : Str) : Prop :=
  ∃ bytes host port, HostBytes bytes host ∧ port.length = 2 ∧
    source = formatAuthority host (UInt16.ofNat (beNat port)) ∧ packet = 0 :: 0 :: 0 :: (bytes ++ (port ++ payload))

end Hysteria.Spec
