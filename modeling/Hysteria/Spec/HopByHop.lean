import Hysteria.Framework.HttpHead
import Hysteria.Impl.Masquerade

/-!
# Hop-by-hop headers

The headers of a request that concern one connection only: the well-known ones and
those that a `Connection` field names. A proxy is to strip them, and to forward
the others (`Stripped`). `Strippable` says of a request when the masquerade proxy
gets that right.
-/

namespace Hysteria.Spec

open Framework Impl

/-- The bytes of a field as characters. -/
def fieldChars (value : List UInt8) : Str := value.map fun b => Char.ofNat b.toNat

/-- The names in a `Connection` field, in lower case. -/
def fieldNames (value : List UInt8) : List Str :=
  ((fieldChars value).splitOn ',').map fun token => toAsciiLowercase (trimOws token)

/-- The names in all the `Connection` fields. -/
def connectionNames (headers : HeaderMap) : List Str := (valuesOf "connection".toList headers).flatMap fieldNames

def HopByHop (headers : HeaderMap) (name : Str) : Prop := name ∈ hopHeaders ∨ name ∈ connectionNames headers

/-- The headers of a protocol upgrade. -/
def UpgradeHeader (headers : HeaderMap) (name : Str) : Prop :=
  isUpgradeRequest headers = true ∧ (name = "connection" ∨ name = "upgrade")

/-- The headers that the proxy sets or clears. -/
def ownHeaders : List Str := "host" :: "content-length" :: forwardingHeaders

/-- No hop-by-hop header is sent, those of an upgrade apart, and all other headers
that the proxy does not set are sent unchanged. -/
def Stripped (headers upstream : HeaderMap) : Prop :=
  (∀ name, HopByHop headers name → ¬UpgradeHeader headers name → valuesOf name upstream = []) ∧
  ∀ name, ¬HopByHop headers name → name ∉ ownHeaders → valuesOf name upstream = valuesOf name headers

/-- The first `Connection` field is text, and names this header. -/
def FirstNames (headers : HeaderMap) (name : Str) : Prop :=
  ∃ first ∈ (valuesOf "connection".toList headers).head?,
    (∀ b ∈ first, 32 ≤ b ∧ b < 127 ∨ b = 9) ∧ name ∈ fieldNames first

/-- The proxy sends a header of this name of its own. -/
def SetByProxy (backend : ProxyBackend) (request : BackendRequest) (name : Str) : Prop :=
  let host := (requestHost request.uri request.headers).bind headerValue
  name = "host" ∧ backend.rewriteHost = false ∧ host.isSome ∨
  name = "content-length" ∧ (request.bodyLength.bind fun length => headerValue (showNat length)).isSome ∨
  backend.xForwarded = true ∧
    (name = "x-forwarded-proto" ∨ name = "x-forwarded-host" ∧ host.isSome ∨
      name = "x-forwarded-for" ∧ (headerValue request.remote.ip.display).isSome)

/-- The proxy clears the header that the request has of this name. -/
def ClearedByProxy (backend : ProxyBackend) (name : Str) : Prop :=
  name ∈ forwardingHeaders ∨ name = "host" ∧ backend.rewriteHost = true

/-- An upgrade has no other hop-by-hop header, and in any other request the first
`Connection` field names what the request has of those that any of them names. None of the
names is of a header that the proxy sets, and those that it clears do not matter. -/
structure Strippable (backend : ProxyBackend) (request : BackendRequest) : Prop where
  unset : ∀ name, HopByHop request.headers name → ¬UpgradeHeader request.headers name →
    ¬SetByProxy backend request name
  upgrade : isUpgradeRequest request.headers = true → ∀ name, HopByHop request.headers name →
    name ≠ "connection" → name ≠ "upgrade" → valuesOf name request.headers = [] ∨ ClearedByProxy backend name
  named : isUpgradeRequest request.headers = false → ∀ name ∈ connectionNames request.headers,
    name ∈ hopHeaders ∨ FirstNames request.headers name ∨
      valuesOf name request.headers = [] ∨ ClearedByProxy backend name

end Hysteria.Spec
