import Hysteria.Impl.Transport.ServerConnection

/-!
# The request loop of a server connection

`hysteria-transport`, `handshake.rs`: the loop of `authenticate_server_connection`
over the request streams that `accept` yields, when streams may fail. The
connection itself stays healthy.
-/

namespace Hysteria.Impl

open Framework

variable {σ τ κ : Type}

inductive StreamCall where
  | response (status : UInt16) (headers : HeaderMap)
  | data (chunk : List UInt8)
  | finish
deriving DecidableEq

/-- A request stream, and how the peer treats it. -/
structure RequestStream where
  resolved : Except Str HttpRequest
  /-- The error of `recv_data` after the chunks of the body, if it has one. -/
  bodyError : Option Str
  /-- The number of sends that succeed and the error of the one after them, if
  the peer resets the stream. -/
  reset : Option (Nat × Str)

/-- Sends, each followed by `?`: those that succeed, and the error of the first
one that does not. -/
def sendCalls : Option (Nat × Str) → List StreamCall → List StreamCall × Except TransportError Unit
  | _, [] => ([], .ok ())
  | none, call :: calls => (call :: (sendCalls none calls).1, (sendCalls none calls).2)
  | some (0, error), _ :: _ => ([], .error (.http3Stream error))
  | some (n + 1, error), call :: calls =>
    (call :: (sendCalls (some (n, error)) calls).1, (sendCalls (some (n, error)) calls).2)

def HttpResponse.calls (response : HttpResponse) : List StreamCall :=
  .response response.status response.headers :: response.data.map .data ++ if response.finished then [.finish] else []

/-- A response is sent on a stream. `result` is how it ends if all sends succeed. -/
def RequestStream.send (stream : RequestStream) (response : HttpResponse) (result : Except TransportError Unit) :
    List StreamCall × Except TransportError Unit :=
  match sendCalls stream.reset response.calls with
  | (sent, .error error) => (sent, .error error)
  | (sent, .ok ()) => (sent, result)

/-- The configuration, with the answer of the masquerade handler to a request
whose body ends with an error. -/
structure RequestLoop (σ τ κ : Type) extends ConnectionConfig σ τ κ where
  masqueradeBroken : MasqueradeRequest → Str → MasqueradeResponse

namespace RequestLoop

variable (loop : RequestLoop σ τ κ)

def handle (request : HttpRequest) (bodyError : Option Str) : MasqueradeResponse :=
  match bodyError with
  | none => loop.masquerade (loop.masqueradeRequest request)
  | some error => loop.masqueradeBroken (loop.masqueradeRequest request) error

/-- `handle_masquerade_request` for the `n`-th request. -/
def handleMasqueradeRequest (n : Nat) (request : HttpRequest) (stream : RequestStream) :
    List StreamCall × Except TransportError Unit :=
  let (response, result) :=
    sendMasqueradeResponse (loop.now n) (loop.handle request stream.bodyError) (request.method = .head)
  stream.send response result

/-- The body of the loop for the `n`-th request, after `asked` calls of the
authenticator. `none` goes on with the loop. -/
def round (n asked : Nat) (stream : RequestStream) : List StreamCall × Except TransportError (Option Str) :=
  match stream.resolved with
  | .error error => ([], .error (.http3Stream error))
  | .ok request =>
    match (loop.consult asked request).bind (·.2) with
    | some authId =>
      let (sent, result) := stream.send (loop.handshake.response loop.padding) (.ok ())
      (sent, result.map fun _ => some authId)
    | none =>
      let (sent, result) := loop.handleMasqueradeRequest n request stream
      (sent, result.map fun _ => none)

end RequestLoop

/-- The calls of the authenticator for a stream. -/
def RequestStream.asks (stream : RequestStream) : Nat :=
  match stream.resolved with
  | .error _ => 0
  | .ok request => if request.isAuth then 1 else 0

/-- The loop: what is sent on each stream that it comes to, and its result. The
identifier is `none` if the streams end first. -/
def RequestLoop.run (loop : RequestLoop σ τ κ) (n asked : Nat) :
    List RequestStream → List (List StreamCall) × Except TransportError (Option Str)
  | [] => ([], .ok none)
  | stream :: streams =>
    match loop.round n asked stream with
    | (sent, .error error) => ([sent], .error error)
    | (sent, .ok (some authId)) => ([sent], .ok (some authId))
    | (sent, .ok none) =>
      let (more, result) := loop.run (n + 1) (asked + stream.asks) streams
      (sent :: more, result)

def authenticateServerConnection (loop : RequestLoop σ τ κ) (streams : List RequestStream) :
    List (List StreamCall) × Except TransportError (Option Str) :=
  loop.run 0 0 streams

end Hysteria.Impl
