import Hysteria.Framework.HttpHead
import Hysteria.Framework.Ip
import Hysteria.Spec.ClientHello

/-!
# Hosts in what a client sends first

The header block of an HTTP/1 request (`HttpBlock`), the host that its `Host`
header names (`HttpBlock.hostValue`, `WithoutPort`), and what an address may become
when a host from a client is put in it (`RoutableHost`, `RoutedTo`).
-/

namespace Hysteria.Spec

open Framework

/-! ## The header block -/

/-- `name: value`. -/
def headerLine (header : Str × Str) : Str := header.1 ++ ':' :: header.2

/-- The lines of a header block, with the empty line at its end. -/
def blockLines (method target : Str) (headers : List (Str × Str)) : List Str :=
  (method ++ ' ' :: target) :: (headers.map headerLine ++ [[]])

/-- A header block in UTF-8 that a client begins with. -/
structure HttpBlock where
  method : Str
  /-- The request target and the version. -/
  target : Str
  headers : List (Str × Str)
  method_letters : 3 ≤ method.length ∧ ∀ c ∈ method.take 3, c.isAlpha = true
  method_colon : ':' ∉ method
  method_clean : Clean method
  target_clean : Clean target
  name_colon : ∀ header ∈ headers, ':' ∉ header.1
  headers_clean : ∀ header ∈ headers, Clean header.1 ∧ Clean header.2
  fits : (utf8 (endLines (blockLines method target headers))).length ≤ 256 * 1024

namespace HttpBlock

variable (block : HttpBlock)

def lines : List Str := blockLines block.method block.target block.headers

def text : Str := endLines block.lines

def bytes : List UInt8 := utf8 block.text

def hostValue : Option Str :=
  (block.headers.find? fun header => toAsciiLowercase header.1 = "host").map fun header => trim header.2

end HttpBlock

/-- A host and a port, or a host alone: the host. -/
inductive WithoutPort : Str → Str → Prop where
  | brackets {host : Str} (h : ']' ∉ host) (port : Str) : WithoutPort ('[' :: (host ++ ']' :: port)) host
  | unclosed {rest : Str} (h : ']' ∉ rest) : WithoutPort ('[' :: rest) ('[' :: rest)
  | port {host port : Str} (hstart : host.head? ≠ some '[') (hport : (parseU16 port).isSome = true) :
      WithoutPort (host ++ ':' :: port) host
  | whole {host : Str} (hstart : host.head? ≠ some '[')
      (h : ∀ name port, host = name ++ ':' :: port → parseU16 port = none) : WithoutPort host host

/-! ## Any stream -/

/-- What of a stream is its header: up to the first empty line, but no more than 256 KiB. -/
structure HttpHead (stream header : List UInt8) : Prop where
  start : header <+: stream
  limit : header.length ≤ 256 * 1024
  first : ∀ shorter, shorter <+: header → [13, 10, 13, 10] <:+ shorter → shorter = header
  ends : [13, 10, 13, 10] <:+ header ∨ header.length = 256 * 1024 ∨ header = stream

/-- The line is a `Host` header with this value. -/
def HostLine (line value : Str) : Prop :=
  ∃ name rest, ':' ∉ name ∧ toAsciiLowercase name = "host" ∧ line = name ++ ':' :: rest ∧ value = trim rest

/-- The first `Host` header of the lines has this value. -/
def HostValue (lines : List Str) (value : Str) : Prop :=
  ∃ before line after, lines = before ++ line :: after ∧ HostLine line value ∧
    ∀ other ∈ before, ∀ value, ¬ HostLine other value

/-- The stream names this host: in the `Host` header if it begins with three letters, or in the
ClientHello of a TLS record. -/
inductive NamedBy (stream : List UInt8) : Str → Prop
  | host {a b c : UInt8} {rest header : List UInt8} {value name : Str} : stream = a :: b :: c :: rest →
    (∀ letter ∈ [a, b, c], 65 ≤ letter ∧ letter ≤ 90 ∨ 97 ≤ letter ∧ letter ≤ 122) → HttpHead stream header →
    HostValue (lines (fromUtf8Lossy header)) value → WithoutPort value name → NamedBy stream name
  | sni {kind version high low : UInt8} {data rest sni : List UInt8} {name : Str} :
    stream = kind :: 3 :: version :: high :: low :: (data ++ rest) → kind = 0x16 ∨ kind = 0x17 → version ≤ 9 →
    data.length = high.toNat * 256 + low.toNat → HelloName data sni → fromUtf8 sni = some name → NamedBy stream name

/-! ## Addresses -/

/-- An IPv6 literal in brackets, or a name without what ends a name. -/
def RoutableHost (host : Str) : Prop :=
  (∃ literal, (parseIpv6 literal).isSome = true ∧ host = '[' :: (literal ++ [']'])) ∨
    host ≠ [] ∧ ∀ c ∈ host, c ≠ ':' ∧ isWhitespace c = false ∧ isControl c = false

/-- A name that makes a routable host: an IPv6 literal gets its brackets. -/
def RoutableName (name : Str) : Prop := (parseIpv6 name).isSome = true ∨ RoutableHost name

/-- The address is this host and this port. -/
def HostPort (address host : Str) (port : UInt16) : Prop :=
  ∃ text, address = host ++ ':' :: text ∧ parseU16 text = some port

/-- `address` is kept, or its host is replaced by one that can be dialled. -/
def RoutedTo (address address' : Str) : Prop := address' = address ∨
    ∃ host host' port, HostPort address host port ∧ HostPort address' host' port ∧ RoutableHost host'

end Hysteria.Spec
