import Hysteria.Impl.Transport.Handshake
import Hysteria.Impl.Transport.ServerUdp

/-!
# A server connection from its first request on

`hysteria-transport`, `handshake.rs` and `proxy.rs`: the authentication loop of
a connection, and the service that starts once it has succeeded, with its TCP
streams and its UDP sessions. `ConnectionStep` is one step of one of their
tasks. The calls of the service to the outside are kept (`Recorded`), and so is
what happened on the HTTP/3 connection.
-/

namespace Hysteria.Impl

open Framework

variable {σ τ κ : Type}

/-! ## Calls to the outside -/

/-- `TrafficLogger`; `StreamStats` is its three identifiers. -/
structure TrafficLog (σ : Type) where
  logTraffic : TrafficLogger σ
  logOnlineState : Str → Bool → σ → σ
  traceStream : Str → UInt32 → UInt64 → σ → σ
  untraceStream : UInt32 → UInt64 → σ → σ

inductive Call where
  | tcp (address : Str)
  | udp (address : Str)
  | checkUdp (address : Str)
  | sendTo (data : List UInt8) (address : Str)
  | traffic (id : Str) (tx rx : UInt64)
  | onlineState (id : Str) (online : Bool)
  | traceStream (id : Str) (connectionId : UInt32) (streamId : UInt64)
  | untraceStream (connectionId : UInt32) (streamId : UInt64)
deriving DecidableEq

/-- The outside, with the calls made so far. -/
structure Recorded (σ : Type) where
  world : σ
  calls : List Call

def Recorded.make {α : Type} (call : Call) (f : σ → α × σ) (r : Recorded σ) : α × Recorded σ :=
  ((f r.world).1, { world := (f r.world).2, calls := r.calls ++ [call] })

def ServerOutbound.recorded (outbound : ServerOutbound σ τ κ) : ServerOutbound (Recorded σ) τ κ where
  tcp address := Recorded.make (.tcp address) (outbound.tcp address)
  udp address := Recorded.make (.udp address) (outbound.udp address)
  checkUdp address := Recorded.make (.checkUdp address) (outbound.checkUdp address)
  sendTo socket data address := Recorded.make (.sendTo data address) (outbound.sendTo socket data address)

def TrafficLog.recorded (log : TrafficLog σ) : TrafficLog (Recorded σ) where
  logTraffic id tx rx := Recorded.make (.traffic id tx rx) (log.logTraffic id tx rx)
  logOnlineState id online r := (r.make (.onlineState id online) fun w => ((), log.logOnlineState id online w)).2
  traceStream id connectionId streamId r :=
    (r.make (.traceStream id connectionId streamId) fun w => ((), log.traceStream id connectionId streamId w)).2
  untraceStream connectionId streamId r :=
    (r.make (.untraceStream connectionId streamId) fun w => ((), log.untraceStream connectionId streamId w)).2

/-! ## TCP streams -/

structure TcpServerContext (σ τ κ : Type) where
  trafficLogger : Option (TrafficLog σ)
  authId : Str
  connectionId : UInt32
  outbound : ServerOutbound σ τ κ
  requestHook : Option RequestHook

inductive TcpStream (κ : Type) where
  /-- Before the request and the hook. -/
  | reading
  /-- The request is for this address; the hook has read these bytes. -/
  | dialing (address : Str) (putback : List UInt8)
  | relaying (stream : κ)
  | finished

/-- The address and the bytes read after the hook, if it is asked; `hooked` is
what its `tcp` returns. -/
def hookTcp (hook : Option RequestHook) (address : Str) (hooked : Except TransportError (Str × List UInt8)) :
    Except TransportError (Str × List UInt8) :=
  if hook.any (·.check false address) then hooked else .ok (address, [])

/-- The guard that `handle_tcp_stream` drops at its end. -/
def TcpServerContext.finish (context : TcpServerContext σ τ κ) (streamId : UInt64) (world : σ) : σ :=
  match context.trafficLogger with
  | none => world
  | some log => log.untraceStream context.connectionId streamId world

/-- The start of `handle_tcp_stream`. -/
def TcpServerContext.start (context : TcpServerContext σ τ κ) (streamId : UInt64) (world : σ) : σ :=
  match context.trafficLogger with
  | none => world
  | some log => log.traceStream context.authId context.connectionId streamId world

def TcpServerContext.log (context : TcpServerContext σ τ κ) (tx rx : UInt64) (world : σ) : Bool × σ :=
  logTraffic (context.trafficLogger.map (·.logTraffic)) context.authId tx rx world

/-- `write_hooked_prefix`, up to the write. -/
def writeHookedPrefix (context : TcpServerContext σ τ κ) (putback : List UInt8) (world : σ) : Bool × σ :=
  if putback = [] then (true, world) else context.log (UInt64.ofNat putback.length) 0 world

inductive TcpStep (context : TcpServerContext σ τ κ) (streamId : UInt64) : TcpStream κ × σ → TcpStream κ × σ → Prop
  | readError (world : σ) : TcpStep context streamId (.reading, world) (.finished, context.finish streamId world)
  | request {address address' : Str} {putback : List UInt8} (hooked : Except TransportError (Str × List UInt8))
    (h : hookTcp context.requestHook address hooked = .ok (address', putback)) (world : σ) :
    TcpStep context streamId (.reading, world) (.dialing address' putback, world)
  | dialError {address : Str} {putback : List UInt8} {error : TransportError} {world world' : σ}
    (h : context.outbound.tcp address world = (.error error, world')) :
    TcpStep context streamId (.dialing address putback, world) (.finished, context.finish streamId world')
  | dialed {address : Str} {putback : List UInt8} {stream : κ} {world world' world'' : σ}
    (h : context.outbound.tcp address world = (.ok stream, world'))
    (hput : writeHookedPrefix context putback world' = (true, world'')) :
    TcpStep context streamId (.dialing address putback, world) (.relaying stream, world'')
  | dialedLimit {address : Str} {putback : List UInt8} {stream : κ} {world world' world'' : σ}
    (h : context.outbound.tcp address world = (.ok stream, world'))
    (hput : writeHookedPrefix context putback world' = (false, world'')) :
    TcpStep context streamId (.dialing address putback, world) (.finished, context.finish streamId world'')
  | responseError {address : Str} {putback : List UInt8} {stream : κ} {world world' : σ}
    (h : context.outbound.tcp address world = (.ok stream, world')) :
    TcpStep context streamId (.dialing address putback, world) (.finished, context.finish streamId world')
  /-- A round of one of the two `copy_with_traffic`. -/
  | copied {stream : κ} {tx rx : UInt64} {world world' : σ} (h : context.log tx rx world = (true, world')) :
    TcpStep context streamId (.relaying stream, world) (.relaying stream, world')
  | copiedLimit {stream : κ} {tx rx : UInt64} {world world' : σ} (h : context.log tx rx world = (false, world')) :
    TcpStep context streamId (.relaying stream, world) (.finished, context.finish streamId world')
  | done (stream : κ) (world : σ) :
    TcpStep context streamId (.relaying stream, world) (.finished, context.finish streamId world)

/-! ## The connection -/

/-- What the server is configured with, and what it finds: the answers of the
authenticator (to its `n`-th question) and of the masquerade handler, the dates
and the padding. -/
structure ConnectionConfig (σ τ κ : Type) where
  handshake : ServerHandshake
  remoteAddress : SocketAddr
  authenticator : Nat → SocketAddr → AuthRequest → Option Str
  masquerade : MasqueradeRequest → MasqueradeResponse
  now : Nat → Str
  padding : Str
  outbound : ServerOutbound σ τ κ
  trafficLogger : Option (TrafficLog σ)
  requestHook : Option RequestHook

/-- `ProxyServerConnection::serve`: the identifier it was given, the UDP
service and the tasks for streams. -/
structure Serving (σ τ κ : Type) where
  authId : Str
  connectionId : UInt32
  udp : Option (ServerUdp (Recorded σ) τ)
  streams : List (UInt64 × TcpStream κ)
  /-- Whether it still accepts streams. -/
  accepting : Bool

inductive Phase (σ τ κ : Type) where
  /-- The loop over requests. -/
  | handshake
  /-- `AuthenticatedConnection`, on its way to `serve`. -/
  | authenticated (authId : Str)
  | serving (serving : Serving σ τ κ)
  | ended

/-- A connection: the requests it has taken, the calls of the authenticator
with their results, the responses it has sent, the request it has accepted. -/
structure ServerConnection (σ τ κ : Type) where
  requests : List HttpRequest
  consulted : List (AuthRequest × Option Str)
  responses : List HttpResponse
  accepted : Option (HttpRequest × Str)
  phase : Phase σ τ κ
  recorded : Recorded σ

def ServerConnection.init (world : σ) : ServerConnection σ τ κ where
  requests := []
  consulted := []
  responses := []
  accepted := none
  phase := .handshake
  recorded := { world, calls := [] }

variable (config : ConnectionConfig σ τ κ)

def ConnectionConfig.masqueradeRequest (request : HttpRequest) : MasqueradeRequest where
  remoteAddress := config.remoteAddress
  method := request.method
  uri := request.uri
  headers := request.headers
  body := request.body.flatten

/-- `handle_masquerade_request` for the `n`-th request. -/
def ConnectionConfig.handleMasqueradeRequest (n : Nat) (request : HttpRequest) :
    HttpResponse × Except TransportError Unit :=
  sendMasqueradeResponse (config.now n) (config.masquerade (config.masqueradeRequest request))
    (request.method = .head)

/-- The call of the authenticator for a request, if there is one. -/
def ConnectionConfig.consult (n : Nat) (request : HttpRequest) : Option (AuthRequest × Option Str) :=
  if request.isAuth then
    some (request.authRequest, config.authenticator n config.remoteAddress request.authRequest)
  else none

def ConnectionConfig.tcpContext (authId : Str) (connectionId : UInt32) : TcpServerContext (Recorded σ) τ κ where
  trafficLogger := config.trafficLogger.map (·.recorded)
  authId
  connectionId
  outbound := config.outbound.recorded
  requestHook := config.requestHook

def ConnectionConfig.udpContext (authId : Str) : ServerUdpContext (Recorded σ) τ κ where
  trafficLogger := config.trafficLogger.map (·.recorded.logTraffic)
  authId
  outbound := config.outbound.recorded
  requestHook := config.requestHook

def ConnectionConfig.onlineState (authId : Str) (online : Bool) (r : Recorded σ) : Recorded σ :=
  match config.trafficLogger with
  | none => r
  | some log => log.recorded.logOnlineState authId online r

inductive ConnectionStep : ServerConnection σ τ κ → ServerConnection σ τ κ → Prop
  /-- A request that is not accepted is answered by the masquerade handler. -/
  | masquerade {s : ServerConnection σ τ κ} (request : HttpRequest) (hphase : s.phase = .handshake)
    (hid : (config.consult s.consulted.length request).bind (·.2) = none) :
    ConnectionStep s { s with
      requests := s.requests ++ [request]
      consulted := s.consulted ++ (config.consult s.consulted.length request).toList
      responses := s.responses ++ [(config.handleMasqueradeRequest s.requests.length request).1]
      phase := if (config.handleMasqueradeRequest s.requests.length request).2.isOk then .handshake else .ended }
  | accept {s : ServerConnection σ τ κ} {request : HttpRequest} {authId : Str} (hphase : s.phase = .handshake)
    (hid : (config.consult s.consulted.length request).bind (·.2) = some authId) :
    ConnectionStep s { s with
      requests := s.requests ++ [request]
      consulted := s.consulted ++ (config.consult s.consulted.length request).toList
      responses := s.responses ++ [config.handshake.response config.padding]
      accepted := some (request, authId)
      phase := .authenticated authId }
  /-- The connection is lost or dropped before `serve`. -/
  | lost {s : ServerConnection σ τ κ} (hphase : s.phase = .handshake ∨ ∃ authId, s.phase = .authenticated authId) :
    ConnectionStep s { s with phase := .ended }
  | serve {s : ServerConnection σ τ κ} {authId : Str} (connectionId : UInt32)
    (hphase : s.phase = .authenticated authId) :
    ConnectionStep s { s with
      phase := .serving
        { authId, connectionId, streams := [], accepting := true
          udp := if config.handshake.udpEnabled then some (.init (config.onlineState authId true s.recorded))
            else none }
      recorded := config.onlineState authId true s.recorded }
  | acceptStream {s : ServerConnection σ τ κ} {serving : Serving σ τ κ} (streamId : UInt64)
    (hphase : s.phase = .serving serving) (haccepting : serving.accepting = true) :
    ConnectionStep s { s with
      phase := .serving { serving with streams := serving.streams ++ [(streamId, .reading)] }
      recorded := (config.tcpContext serving.authId serving.connectionId).start streamId s.recorded }
  | tcp {s : ServerConnection σ τ κ} {serving : Serving σ τ κ} {i : Nat} {streamId : UInt64}
    {stream stream' : TcpStream κ} {recorded : Recorded σ} (hphase : s.phase = .serving serving)
    (hstream : serving.streams[i]? = some (streamId, stream))
    (hstep : TcpStep (config.tcpContext serving.authId serving.connectionId) streamId (stream, s.recorded)
      (stream', recorded)) :
    ConnectionStep s { s with
      phase := .serving { serving with streams := serving.streams.set i (streamId, stream') }
      recorded }
  | udp {s : ServerConnection σ τ κ} {serving : Serving σ τ κ} {udp udp' : ServerUdp (Recorded σ) τ}
    (hphase : s.phase = .serving serving) (hudp : serving.udp = some udp)
    (hstep : UdpStep (config.udpContext serving.authId) { udp with world := s.recorded } udp') :
    ConnectionStep s { s with
      phase := .serving { serving with udp := some udp' }
      recorded := udp'.world }
  /-- `accept_bi` fails: `serve` returns. -/
  | serveEnd {s : ServerConnection σ τ κ} {serving : Serving σ τ κ} (hphase : s.phase = .serving serving)
    (haccepting : serving.accepting = true) :
    ConnectionStep s { s with
      phase := .serving { serving with accepting := false }
      recorded := config.onlineState serving.authId false s.recorded }

end Hysteria.Impl
