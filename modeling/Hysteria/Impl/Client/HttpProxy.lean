import Hysteria.Framework.Base64
import Hysteria.Framework.HttpHead
import Hysteria.Framework.Ip

/-!
# The local HTTP proxy

`hysteria`, `http_proxy.rs`: one connection of an application to the HTTP proxy
of the client. The bytes that the application sends come in as the chunks that
`read` returns, and end with the last of them. What it is answered and what goes
into the tunnels is kept in `Handled`; a tunnel is not cut off before everything
is copied into it.
-/

namespace Hysteria.Impl

open Framework

def maxHeaderSize : Nat := 64 * 1024

structure HttpProxyConfig where
  username : Str
  password : Str
  realm : Str

/-- `HttpRequest`, with `buffered_body`. -/
structure ProxyRequest where
  method : Str
  target : Str
  version : Str
  headers : List (Str × Str)
  bufferedBody : List UInt8

def eqIgnoreAsciiCase (a b : Str) : Bool := toAsciiLowercase a = toAsciiLowercase b

/-! ## Reading a request -/

/-- `windows(4).position(|window| window == b"\r\n\r\n")`. -/
def headerEnd : List UInt8 → Option Nat
  | [] => none
  | byte :: rest => if [13, 10, 13, 10].isPrefixOf (byte :: rest) then some 0 else (headerEnd rest).map (· + 1)

/-- The loop of `read_request`: the buffer, the end of the head in it, and the
chunks that were not read. -/
def readHead : List (List UInt8) → (buffer : List UInt8) → Except Str (List UInt8 × Nat × List (List UInt8))
  | chunks, buffer =>
    match headerEnd buffer with
    | none =>
      if buffer.length ≥ maxHeaderSize then .error "HTTP proxy request headers are too large"
      else
        match chunks with
        | [] => .error "connection closed before HTTP request headers"
        | chunk :: chunks =>
          if chunk = [] then .error "connection closed before HTTP request headers"
          else readHead chunks (buffer ++ chunk)
    | some position => .ok (buffer, position + 4, chunks)

def parseHeader (line : Str) : Except Str (Str × Str) :=
  match splitOnce ':' line with
  | none => .error "invalid HTTP header"
  | some (name, value) =>
    if name = [] ∨ (utf8 name).any (fun byte => byte ≤ 0x20 ∨ byte ≥ 0x7f) then
      .error "invalid HTTP header name"
    else .ok (name, trim value)

/-- `read_request` after its loop, on the text of the head. -/
def parseRequest (header : Str) (bufferedBody : List UInt8) : Except Str ProxyRequest :=
  match splitCrlf header with
  | [] => .error "missing HTTP request line"
  | requestLine :: lines =>
    match splitFields isWhitespace requestLine with
    | [] => .error "missing HTTP method"
    | [_] => .error "missing HTTP request target"
    | [_, _] => .error "missing HTTP version"
    | method :: target :: version :: more => do
      if more ≠ [] ∨ ¬ "HTTP/".toList.isPrefixOf version then throw "invalid HTTP request line".toList
      let headers ← lines.mapM parseHeader
      return { method, target, version, headers, bufferedBody }

/-- `read_request`, and the chunks that it leaves; `invalid` is the text of the
error of `from_utf8`. -/
def readRequest (invalid : Str) (chunks : List (List UInt8)) : Except Str (ProxyRequest × List (List UInt8)) := do
  let (buffer, stop, chunks) ← readHead chunks []
  match fromUtf8 (buffer.take (stop - 4)) with
  | none => .error ("invalid HTTP request header: " ++ invalid)
  | some header => return (← parseRequest header (buffer.drop stop), chunks)

/-! ## Handling it -/

def authorized (request : ProxyRequest) (config : HttpProxyConfig) : Bool :=
  config.username = [] ∨ request.headers.any fun (name, value) =>
    eqIgnoreAsciiCase name "proxy-authorization" ∧ eqIgnoreAsciiCase (value.take 6) "basic " ∧
      base64Decode (value.drop 6) = some (utf8 (config.username ++ ':' :: config.password))

def normalizeAuthority (authority : Str) (defaultPort : UInt16) : Except Str Str :=
  if (parseSocketAddr authority).isSome then .ok authority
  else if authority.head? = some '[' ∧ authority.getLast? = some ']' then
    .ok (authority ++ ':' :: showNat defaultPort.toNat)
  else if (rsplitOnce ':' authority).any fun (host, port) => host ≠ [] ∧ (parseU16 port).isSome then .ok authority
  else if authority ≠ [] ∧ ¬ authority.any fun c => c = '/' ∨ c = '\r' ∨ c = '\n' then
    .ok (authority ++ ':' :: showNat defaultPort.toNat)
  else .error "invalid HTTP proxy authority"

/-- The authority and the path of `parse_absolute_http_target`. -/
def splitPath (remainder : Str) : Str × Str :=
  (splitOnce '/' remainder).elim (remainder, "/") fun (authority, path) => (authority, '/' :: path)

/-- The address to dial and the target in origin form. -/
def parseAbsoluteHttpTarget (target : Str) : Except Str (Str × Str) :=
  match stripStart "http://" target with
  | none => .error "HTTP proxy requires an absolute http:// request target"
  | some remainder =>
    let (authority, path) := splitPath remainder
    if authority = [] then .error "HTTP request target has no host"
    else (normalizeAuthority authority 80).map (·, path)

def escapeHeaderValue (value : Str) : Str := value.filter fun c => c ≠ '\r' ∧ c ≠ '\n' ∧ c ≠ '"'

structure Handled where
  result : Except Str Unit
  /-- What the proxy itself has answered. -/
  answered : List UInt8 := []
  /-- The tunnels that were opened, with all that went into them. -/
  tunnels : List (Str × List UInt8) := []

def badGateway (version : Str) : List UInt8 :=
  utf8 (version ++ " 502 Bad Gateway\r\nContent-Length: 0\r\nConnection: close\r\n\r\n")

def isProxyHeader (name : Str) : Bool :=
  eqIgnoreAsciiCase name "proxy-authorization" ∨ eqIgnoreAsciiCase name "proxy-connection"

/-- What `handle_plain_http` writes into the tunnel before it copies. -/
def plainOutbound (request : ProxyRequest) (originForm : Str) : List UInt8 :=
  utf8 (request.method ++ ' ' :: originForm ++ ' ' :: request.version ++ "\r\n") ++
    (request.headers.filter fun (name, _) => ¬ isProxyHeader name).flatMap (fun (name, value) =>
      utf8 name ++ utf8 ": " ++ utf8 value ++ [13, 10]) ++ [13, 10] ++ request.bufferedBody

/-- `dial` tells whether a tunnel to an address opens. -/
def handlePlainHttp (dial : Str → Except Str Unit) (request : ProxyRequest) (chunks : List (List UInt8)) : Handled :=
  match parseAbsoluteHttpTarget request.target with
  | .error error => { result := .error error }
  | .ok (target, originForm) =>
    match dial target with
    | .error error => { result := .error error, answered := badGateway request.version }
    | .ok () =>
      { result := .ok ()
        -- `copy_bidirectional` copies everything that comes after the first request.
        tunnels := [(target, plainOutbound request originForm ++ chunks.flatten)] }

def handleConnect (dial : Str → Except Str Unit) (request : ProxyRequest) (chunks : List (List UInt8)) : Handled :=
  match normalizeAuthority request.target 80 with
  | .error error => { result := .error error }
  | .ok target =>
    match dial target with
    | .error error => { result := .error error, answered := badGateway request.version }
    | .ok () =>
      { result := .ok ()
        answered := utf8 (request.version ++ " 200 OK\r\n\r\n")
        tunnels := [(target, request.bufferedBody ++ chunks.flatten)] }

def handleConnection (config : HttpProxyConfig) (dial : Str → Except Str Unit) (invalid : Str)
    (chunks : List (List UInt8)) : Handled :=
  match readRequest invalid chunks with
  | .error error => { result := .error error }
  | .ok (request, chunks) =>
    if ¬ authorized request config then
      let realm := if config.realm = [] then "Hysteria".toList else config.realm
      { result := .ok ()
        answered := utf8 (request.version ++
          " 407 Proxy Authentication Required\r\nProxy-Authenticate: Basic realm=\"" ++
          escapeHeaderValue realm ++ "\"\r\nContent-Length: 0\r\nConnection: close\r\n\r\n") }
    else if eqIgnoreAsciiCase request.method "CONNECT" then handleConnect dial request chunks
    else handlePlainHttp dial request chunks

end Hysteria.Impl
