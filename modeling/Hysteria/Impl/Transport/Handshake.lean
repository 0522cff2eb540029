import Hysteria.Framework.Ip
import Hysteria.Impl.Error
import Hysteria.Impl.Protocol.Auth

/-!
# HTTP/3 on a server connection

`hysteria-transport`, `handshake.rs`: one request of the loop in
`authenticate_server_connection`, for a masquerade handler that is a function of
the whole request.
-/

namespace Hysteria.Impl

open Framework

/-! ## Messages -/

inductive Method where
  | options
  | get
  | post
  | put
  | delete
  | head
  | trace
  | connect
  | patch
  | extension (name : Str)
deriving DecidableEq

structure Uri where
  scheme : Option Str
  authority : Option Str
  path : Str
  query : Option Str
deriving DecidableEq

/-- `HeaderMap`: names, in lower case, and values. -/
abbrev HeaderMap := List (Str × List UInt8)

/-- `HeaderMap::get`: the first value; the name may be in any case. -/
def HeaderMap.get (headers : HeaderMap) (name : Str) : Option (List UInt8) :=
  (headers.find? (·.1 = toAsciiLowercase name)).map (·.2)

/-- `HeaderMap::insert` of a name that is not there yet. -/
def HeaderMap.add (headers : HeaderMap) (name : Str) (value : Str) : HeaderMap :=
  headers ++ [(toAsciiLowercase name, utf8 value)]

/-- `HeaderValue::to_str`: visible ASCII only. -/
def headerText (value : List UInt8) : Option Str :=
  if value.all (fun b => 32 ≤ b && b < 127 || b = 9) then some (value.map fun b => Char.ofNat b.toNat) else none

/-- A request, with its body in the chunks in which `recv_data` gives it. -/
structure HttpRequest where
  method : Method
  uri : Uri
  headers : HeaderMap
  body : List (List UInt8)
deriving DecidableEq

/-- What goes out on the stream of a request: the head, the data frames, and
whether the stream was finished. -/
structure HttpResponse where
  status : UInt16
  headers : HeaderMap
  data : List (List UInt8)
  finished : Bool
deriving DecidableEq

/-! ## Masquerading -/

/-- `MasqueradeRequest`, once the body is read. -/
structure MasqueradeRequest where
  remoteAddress : SocketAddr
  method : Method
  uri : Uri
  headers : HeaderMap
  body : List UInt8
deriving DecidableEq

/-- `MasqueradeResponse`; `bodyStream` is what its producer sends. -/
structure MasqueradeResponse where
  status : UInt16
  headers : HeaderMap
  body : List UInt8
  bodyStream : Option (List (Except Str (List UInt8)))

/-- The loop over the chunks of the body: those that are sent, and the error that ends it. -/
def sendBodyStream : List (Except Str (List UInt8)) → List (List UInt8) × Except TransportError Unit
  | [] => ([], .ok ())
  | .error error :: _ => ([], .error (.http3Stream error))
  | .ok chunk :: rest => (chunk :: (sendBodyStream rest).1, (sendBodyStream rest).2)

/-- `body_allowed` of `send_masquerade_response`. -/
def bodyAllowed (status : UInt16) (suppressBody : Bool) : Bool :=
  !suppressBody && status ≠ 204 && status ≠ 304 && !(100 ≤ status && status < 200)

/-- `send_masquerade_response`, with the date as `now` has it: what is sent,
and its result. -/
def sendMasqueradeResponse (now : Str) (response : MasqueradeResponse) (suppressBody : Bool) :
    HttpResponse × Except TransportError Unit :=
  let headers :=
    if response.headers.get "date" = none then response.headers.add "date" now else response.headers
  let allowed := bodyAllowed response.status suppressBody
  let headers :=
    if headers.get "content-length" = none ∧ response.bodyStream.isNone ∧ (allowed || suppressBody) then
      headers.add "content-length" (showNat response.body.length)
    else headers
  let whole := if allowed && response.body ≠ [] then [response.body] else []
  let (chunks, result) := if allowed then sendBodyStream (response.bodyStream.getD []) else ([], .ok ())
  ({ status := response.status, headers, data := whole ++ chunks, finished := result.isOk }, result)

/-! ## Authentication -/

structure ServerHandshake where
  udpEnabled : Bool
  maxTx : UInt64
  maxRx : UInt64
  rxAuto : Bool

def HttpRequest.isAuth (request : HttpRequest) : Bool :=
  request.method = .post ∧ request.uri.authority = some authHost ∧ request.uri.path = authPath

def HttpRequest.authRequest (request : HttpRequest) : AuthRequest :=
  .fromHeaderValues ((request.headers.get headerAuth).bind headerText)
    ((request.headers.get headerCcRx).bind headerText)

def ServerHandshake.response (config : ServerHandshake) (padding : Str) : HttpResponse where
  status := authStatusOk
  headers :=
    let values : AuthResponse := { udpEnabled := config.udpEnabled, rx := config.maxRx, rxAuto := config.rxAuto }
    let headers := values.headerValues.foldl (fun headers (name, value) => HeaderMap.add headers name value) []
    HeaderMap.add headers headerPadding padding
  data := []
  finished := true

end Hysteria.Impl
