import Hysteria.Impl.Transport.Congestion
import Hysteria.Impl.Transport.Handshake

/-!
# Bandwidth negotiation

`hysteria-transport`, `handshake.rs`: what the two sides make of the headers of
the authentication exchange (`authenticate_client_connection`,
`authenticate_server_connection`). Header values are not checked when they are
inserted; those of the exchange are visible ASCII.
-/

namespace Hysteria.Impl

open Framework

variable {φ : Type}

/-- `set_brutal_bandwidth`, on a connection with the adaptive controller. -/
def AdaptiveCongestion.setBrutalBandwidth (a : AdaptiveCongestion φ) (bytesPerSecond : UInt64) :
    Except TransportError (AdaptiveCongestion φ) :=
  (a.brutal.control.setBandwidth bytesPerSecond).map fun control => { a with brutal := { a.brutal with control } }

/-! ## The client -/

structure ClientHandshake where
  auth : Str
  maxRx : UInt64
  maxTx : UInt64

structure HandshakeInfo where
  udpEnabled : Bool
  actualTx : UInt64
  rxAuto : Bool
deriving DecidableEq

def ClientHandshake.request (handshake : ClientHandshake) (padding : Str) : HttpRequest where
  method := .post
  uri := { scheme := some "https", authority := some authHost, path := authPath, query := none }
  headers :=
    let headers := HeaderMap.add [] headerAuth handshake.auth
    let headers := HeaderMap.add headers headerCcRx (showNat handshake.maxRx.toNat)
    HeaderMap.add headers headerPadding padding
  body := []

def HttpResponse.authResponse (response : HttpResponse) : AuthResponse :=
  .fromHeaderValues ((response.headers.get headerUdpEnabled).bind headerText)
    ((response.headers.get headerCcRx).bind headerText)

def ClientHandshake.actualTx (handshake : ClientHandshake) (response : AuthResponse) : UInt64 :=
  if response.rxAuto then 0
  else if response.rx = 0 ∨ response.rx > handshake.maxTx then handshake.maxTx
  else response.rx

/-- The rest of `authenticate_client_connection`, from the response on. -/
def ClientHandshake.finish (handshake : ClientHandshake) (response : HttpResponse) (a : AdaptiveCongestion φ) :
    Except TransportError (HandshakeInfo × AdaptiveCongestion φ) := do
  if response.status ≠ authStatusOk then throw (.authenticationFailed response.status)
  let auth := response.authResponse
  let actualTx := handshake.actualTx auth
  let a ← if actualTx > 0 then a.setBrutalBandwidth actualTx else pure a
  return ({ udpEnabled := auth.udpEnabled, actualTx, rxAuto := auth.rxAuto }, a)

/-! ## The server -/

def ServerHandshake.peerRx (config : ServerHandshake) (request : AuthRequest) : UInt64 :=
  if config.maxTx > 0 ∧ request.rx > config.maxTx then config.maxTx else request.rx

/-- What is left of `authenticate_server_connection` once the response to an
accepted request is sent. -/
def ServerHandshake.finish (config : ServerHandshake) (request : HttpRequest) (a : AdaptiveCongestion φ) :
    Except TransportError (UInt64 × AdaptiveCongestion φ) := do
  let peerRx := config.peerRx request.authRequest
  let a ← if !config.rxAuto && peerRx > 0 then a.setBrutalBandwidth peerRx else pure a
  return (peerRx, a)

end Hysteria.Impl
