import Hysteria.Framework.Multimap
import Hysteria.Impl.Transport.Handshake

/-!
# The masquerade proxy

`hysteria`, `masquerade.rs`: the headers of the request that `proxy_request_inner`
sends to the masqueraded site, from those of the request it got. The target URL,
the body and the way back are not part of it. Then the middleware of the two TCP
listeners that `start_tcp` binds.
-/

namespace Hysteria.Impl

open Framework

/-- `HeaderMap::remove`: all values; the name may be in any case. -/
def HeaderMap.remove (headers : HeaderMap) (name : Str) : HeaderMap := removeKey (toAsciiLowercase name) headers

def HeaderMap.insert (headers : HeaderMap) (name : Str) (value : List UInt8) : HeaderMap :=
  setKey (toAsciiLowercase name) value headers

/-- `if let Some(value) = value { headers.insert(name, value); }`. -/
def HeaderMap.insertSome (headers : HeaderMap) (name : Str) (value : Option (List UInt8)) : HeaderMap :=
  value.elim headers (headers.insert name)

def headerValue (text : Str) : Option (List UInt8) :=
  if (utf8 text).all (fun b => 32 ≤ b && b ≠ 127 || b = 9) then some (utf8 text) else none

def hopHeaders : List Str := ["connection", "proxy-connection", "keep-alive", "proxy-authenticate",
    "proxy-authorization", "te", "trailer", "transfer-encoding", "upgrade"]

/-- The headers about the way of a request, which come from the proxy itself. -/
def forwardingHeaders : List Str := ["forwarded", "x-forwarded-for", "x-forwarded-host", "x-forwarded-proto"]

structure ProxyBackend where
  rewriteHost : Bool
  xForwarded : Bool
deriving DecidableEq

structure BackendRequest where
  remote : SocketAddr
  uri : Uri
  headers : HeaderMap
  /-- The extension `Http3Request`. -/
  http3 : Bool
  /-- The extension `RequestScheme`. -/
  scheme : Option Str
  /-- `size_hint().exact()` of the body. -/
  bodyLength : Option Nat
deriving DecidableEq

/-- `split(',')` and `trim`. -/
def commaTokens (text : Str) : List Str := (text.splitOn ',').map trim

/-- The names in the `Connection` field, as `get` and `to_str` give it. -/
def connectionTokens (headers : HeaderMap) : List Str :=
  (((headers.get "connection").bind headerText).map commaTokens).getD []

def isUpgradeRequest (headers : HeaderMap) : Bool := (headers.get "upgrade").isSome &&
    (connectionTokens headers).any fun token => toAsciiLowercase token = "upgrade"

def requestHost (uri : Uri) (headers : HeaderMap) : Option Str :=
  uri.authority.or ((headers.get "host").bind headerText)

def removeHopHeaders (headers : HeaderMap) : HeaderMap :=
  let headers := (connectionTokens headers).foldl HeaderMap.remove headers
  hopHeaders.foldl HeaderMap.remove headers

namespace ProxyBackend

variable (backend : ProxyBackend)

def setHost (host : Option Str) (headers : HeaderMap) : HeaderMap :=
  if backend.rewriteHost then headers.remove "host"
  else headers.insertSome "host" (host.bind headerValue)

def setForwarded (remote : SocketAddr) (host : Option Str) (scheme : Str) (headers : HeaderMap) : HeaderMap :=
  if backend.xForwarded then
    let headers := headers.insertSome "x-forwarded-for" (headerValue remote.ip.display)
    let headers := headers.insertSome "x-forwarded-host" (host.bind headerValue)
    headers.insert "x-forwarded-proto" (utf8 scheme)
  else headers

def setContentLength (bodyLength : Option Nat) (headers : HeaderMap) : HeaderMap :=
  if headers.get "content-length" = none then
    headers.insertSome "content-length" (bodyLength.bind fun length => headerValue (showNat length))
  else headers

/-- `proxy_request_inner`, up to `send`: the headers that go to the site; none
if the answer is 501. -/
def proxyRequest (request : BackendRequest) : Option HeaderMap :=
  let upgrading := isUpgradeRequest request.headers
  if upgrading && request.http3 then none
  else
    let scheme := request.scheme.getD "https"
    let originalHost := requestHost request.uri request.headers
    let headers := if upgrading then request.headers else removeHopHeaders request.headers
    let headers := forwardingHeaders.foldl HeaderMap.remove headers
    let headers := backend.setHost originalHost headers
    let headers := backend.setForwarded request.remote originalHost scheme headers
    some (setContentLength request.bodyLength headers)

end ProxyBackend

/-! ## The listeners -/

structure MasqueradeConfig where
  listenHttp : Str
  listenHttps : Str
  forceHttps : Bool
deriving DecidableEq

structure FrontendConfig where
  quicPort : UInt16
  httpsPort : UInt16
  forceHttps : Bool
  scheme : Str
deriving DecidableEq

def normalizeListen (listen : Str) : Str := if listen.head? = some ':' then "0.0.0.0" ++ listen else listen

def parseListenPort (listen : Str) : UInt16 := ((parseSocketAddr (normalizeListen listen)).map (·.port)).getD 0

/-- The port that `bind_frontend` listens on: a text that is no socket address is a
host name and a port for `ToSocketAddrs`. -/
def bindFrontendPort (listen : Str) : Option UInt16 :=
  match parseSocketAddr (normalizeListen listen) with
  | some address => some address.port
  | none => (rsplitOnce ':' (normalizeListen listen)).bind fun (_, port) => parseU16 port

/-- The two routers of `start_tcp`. -/
def MasqueradeConfig.httpFrontend (config : MasqueradeConfig) (quicPort : UInt16) : FrontendConfig :=
  ⟨quicPort, parseListenPort config.listenHttps, config.forceHttps, "http"⟩

def MasqueradeConfig.httpsFrontend (config : MasqueradeConfig) (quicPort : UInt16) : FrontendConfig :=
  ⟨quicPort, parseListenPort config.listenHttps, false, "https"⟩

/-- `path_and_query().map_or("/", PathAndQuery::as_str)`. -/
def Uri.pathAndQuery (uri : Uri) : Str :=
  let text := uri.path ++ uri.query.elim [] ('?' :: ·)
  if text = [] then "/" else text

/-- `str::replace` of a character. -/
def replaceChar (c : Char) (text s : Str) : Str := s.flatMap fun x => if x = c then text else [x]

def htmlEscape (value : Str) : Str :=
  let value := replaceChar '&' "&amp;" value
  let value := replaceChar '\x27' "&#39;" value
  let value := replaceChar '<' "&lt;" value
  let value := replaceChar '>' "&gt;" value
  replaceChar '"' "&#34;" value

/-- `redirect_to_https`; none, if the `expect` of the location panics. -/
def redirectToHttps (request : HttpRequest) (httpsPort : UInt16) : Option HttpResponse :=
  let host := ((request.headers.get "host").bind headerText).getD []
  let authority := if httpsPort = 0 ∨ httpsPort = 443 then host else host ++ ':' :: showNat httpsPort.toNat
  let location := "https://" ++ authority ++ request.uri.pathAndQuery
  let body := if request.method = .head then []
    else utf8 ("<a href=\"" ++ htmlEscape location ++ "\">Moved Permanently</a>.\n\n")
  (headerValue location).map fun location =>
    { status := 301
      headers := [("location", location), ("content-type", utf8 "text/html; charset=utf-8")]
      data := [body]
      finished := true }

/-- `frontend_response`; `next` has the scheme as an extension. -/
def frontendResponse (config : FrontendConfig) (next : Str → HttpRequest → HttpResponse) (request : HttpRequest) :
    Option HttpResponse :=
  if config.forceHttps then redirectToHttps request config.httpsPort
  else
    let response := next config.scheme request
    let altSvc := "h3=\":" ++ showNat config.quicPort.toNat ++ "\"; ma=2592000"
    some { response with headers := response.headers.insert "alt-svc" (utf8 altSvc) }

end Hysteria.Impl
