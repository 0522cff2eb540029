import Hysteria.Framework.Base64
import Hysteria.Impl.Outbound.Interface
import Hysteria.Impl.Transport.TcpStream

/-!
# The HTTP CONNECT outbound

`hysteria`, `outbound.rs`: `HttpConnectOutbound`, and the way of a TCP request
to it in a server that has no other outbound and no ACL. `build` then takes the
outbound as it is, with `SpeedTestOutbound` before it if that is enabled.
-/

namespace Hysteria.Impl

open Framework

def maxConnectHeader : Nat := 64 * 1024
def speedTestDestination : Str := "@SpeedTest:0"

/-- What the outbound reads of the `reqwest::Url` it is configured with. -/
structure ProxyUrl where
  scheme : Str
  hostStr : Option Str
  portOrKnownDefault : Option UInt16
  username : Str
  password : Option Str

structure HttpConnectOutbound where
  proxyAddress : Str
  serverName : Str
  tls : Bool
  authorization : Option Str

/-- The upstream proxy, as one call of `connect` sees it. A step that is `none`
times out. -/
structure ProxyPeer where
  dial : Option (Except Str Unit)
  serverName : Except Str Unit
  handshake : Option (Except Str Unit)
  write : Except Str Unit
  /-- What it answers; then it closes the connection with this error, or stays silent. -/
  response : List UInt8
  closed : Option Str

def timeout {α : Type} (operation : String) : Option (Except Str α) → Except TransportError α
  | none => .error (.io (operation.toList ++ " timed out"))
  | some (.error error) => .error (.io error)
  | some (.ok a) => .ok a

/-- The loop of `read_http_header`, with what it has read; `none` if it waits forever. -/
def readHttpHeader (closed : Option Str) : List UInt8 → (header : List UInt8) →
    Option (Except TransportError (List UInt8))
  | response, header =>
    if header.length < maxConnectHeader then
      match response with
      | [] => closed.map fun error => .error (.io error)
      | byte :: response =>
        let header := header ++ [byte]
        if [13, 10, 13, 10].isSuffixOf header then some (.ok header) else readHttpHeader closed response header
    else some (.error (protocolError "HTTP proxy response headers are too large"))

def parseConnectStatus (header : List UInt8) : Except TransportError UInt16 := do
  let line ← match fromUtf8 (header.takeWhile (· ≠ 10)) with
    | some line => pure line
    | none => throw (protocolError "HTTP proxy response is not UTF-8")
  let fields := splitFields isAsciiWhitespace line
  let some version := fields[0]? | throw (protocolError "invalid HTTP proxy status line")
  if ¬ "HTTP/".toList.isPrefixOf version then throw (protocolError "invalid HTTP proxy status line")
  let some status := fields[1]? | throw (protocolError "HTTP proxy status is missing")
  let some status := parseU16 status | throw (protocolError "invalid HTTP proxy status")
  return status

namespace HttpConnectOutbound

def new (url : ProxyUrl) : Except Str HttpConnectOutbound := do
  let some serverName := url.hostStr | throw "outbound HTTP URL requires a host".toList
  let some port := url.portOrKnownDefault | throw "outbound HTTP URL requires a port".toList
  return {
    proxyAddress := formatAuthority serverName port
    serverName
    tls := url.scheme = "https"
    authorization :=
      if url.username = [] then none
      else some (base64Encode (utf8 (url.username ++ ':' :: url.password.getD []))) }

/-- The request that `connect` writes. -/
def request (outbound : HttpConnectOutbound) (target : Str) : Str :=
  "CONNECT " ++ target ++ " HTTP/1.1\r\nHost: " ++ target ++ "\r\nProxy-Connection: Keep-Alive\r\n" ++
    (match outbound.authorization with
      | some authorization => "Proxy-Authorization: Basic " ++ authorization ++ "\r\n"
      | none => []) ++ "\r\n"

/-- What `connect` reads after the request. -/
def readStatus (peer : ProxyPeer) : Option (Except TransportError Unit) :=
  (readHttpHeader peer.closed peer.response []).map fun header => do
    let status ← parseConnectStatus (← header)
    if ¬ (200 ≤ status ∧ status < 300) then
      throw (.protocol ("HTTP proxy CONNECT returned status " ++ showNat status.toNat))

/-- `connect`: its result, and what it has written to the proxy. -/
def connect (outbound : HttpConnectOutbound) (peer : ProxyPeer) (target : Str) :
    Except TransportError Unit × List UInt8 :=
  match timeout "HTTP proxy dial" peer.dial with
  | .error error => (.error error, [])
  | .ok () =>
    let handshake : Except TransportError Unit := if outbound.tls then
        match peer.serverName with
        | .error error => .error (.protocol ("invalid HTTP proxy TLS name: " ++ error))
        | .ok () => timeout "HTTP proxy TLS handshake" peer.handshake
      else .ok ()
    match handshake with
    | .error error => (.error error, [])
    | .ok () =>
      let outcome : Option (Except TransportError Unit) := match peer.write with
        | .error error => some (.error (.io error))
        | .ok () => readStatus peer
      (timeout "HTTP proxy CONNECT" (outcome.map (·.mapError TransportError.display)), utf8 (outbound.request target))

/-- What is written to the proxy for a request address. -/
def tcp (outbound : HttpConnectOutbound) (speedTest : Bool) (peer : ProxyPeer) (address : Str) : List UInt8 :=
  if speedTest ∧ address = speedTestDestination then [] else (outbound.connect peer address).2

/-- A TCP stream of a client: the address it asks for, and what is written to the
proxy before anything is relayed. -/
def serve (texts : StreamTexts) (outbound : HttpConnectOutbound) (speedTest : Bool) (peer : ProxyPeer)
    (stream : List UInt8) : Option (Str × List UInt8) :=
  match (readTcpRequest texts).run stream with
  | .error _ => none
  | .ok (request, _) => some (request.address, outbound.tcp speedTest peer request.address)

end HttpConnectOutbound

end Hysteria.Impl
