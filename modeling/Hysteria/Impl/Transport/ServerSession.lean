import Hysteria.Impl.Outbound.Interface
import Hysteria.Impl.Transport.DatagramSender

/-!
# A server UDP session

`hysteria-transport`, `udp.rs`: `run_server_session`. `sessionStep` is what the
task does with one thing that happens to it, up to the point where it waits
again; `runSession` is a sequence of them.
-/

namespace Hysteria.Impl

open Framework

variable {σ τ κ : Type}

structure ServerUdpContext (σ τ κ : Type) where
  trafficLogger : Option (TrafficLogger σ)
  authId : Str
  outbound : ServerOutbound σ τ κ
  requestHook : Option RequestHook

inductive SessionState (τ : Type) where
  /-- It waits for the first message. -/
  | first (defragger : Defragger)
  /-- The relay loop. -/
  | relay (defragger : Defragger) (socket : τ)
  /-- All that is left is `remove_server_session`. -/
  | removing
  | finished

inductive SessionEvent where
  | timeout
  /-- The channel from the dispatcher; `none` once it is closed. -/
  | client (message : Option UdpMessage)
  /-- `recv_from` of the socket, with the connection and the packet ID counter
  as a reply to the client finds them. -/
  | remote (received : Except TransportError (List UInt8 × Str)) (connection : Connection) (counter : UInt32)

inductive SessionAction (τ : Type) where
  /-- `send_to` on the socket. -/
  | forward (socket : τ) (data : List UInt8) (address : Str)
  /-- Datagrams to the client. -/
  | reply (datagrams : List (List UInt8))
  /-- The connection is closed (traffic limit). -/
  | close

/-- The address of the first message after the request hook. -/
def hookAddress (hook : Option RequestHook) (first : UdpMessage) : Except TransportError Str :=
  match hook with
  | none => .ok first.address
  | some hook => if hook.check true first.address then hook.udp first.data first.address else .ok first.address

/-- From the first message to the relay loop. -/
def openSession (context : ServerUdpContext σ τ κ) (defragger : Defragger) (first : UdpMessage) (world : σ) :
    SessionState τ × σ × List (SessionAction τ) :=
  match hookAddress context.requestHook first with
  | .error _ => (.removing, world, [])
  | .ok address =>
    match context.outbound.udp address world with
    | (.error _, world) => (.removing, world, [])
    | (.ok socket, world) =>
      match context.outbound.sendTo socket first.data address world with
      | (.error _, world) => (.removing, world, [.forward socket first.data address])
      | (.ok _, world) => (.relay defragger socket, world, [.forward socket first.data address])

def relayClient (context : ServerUdpContext σ τ κ) (defragger : Defragger) (socket : τ) (message : UdpMessage)
    (world : σ) : SessionState τ × σ × List (SessionAction τ) :=
  match defragger.feed message with
  | (none, defragger) => (.relay defragger socket, world, [])
  | (some message, defragger) =>
    match context.outbound.checkUdp message.address world with
    | (.error _, world) => (.relay defragger socket, world, [])
    | (.ok (), world) =>
      (.relay defragger socket, (context.outbound.sendTo socket message.data message.address world).2,
        [.forward socket message.data message.address])

def relayRemote (context : ServerUdpContext σ τ κ) (sessionId : UInt32) (defragger : Defragger) (socket : τ)
    (payload : List UInt8) (source : Str) (connection : Connection) (counter : UInt32) (world : σ) :
    SessionState τ × σ × List (SessionAction τ) :=
  match logTraffic context.trafficLogger context.authId 0 (UInt64.ofNat payload.length) world with
  | (false, world) => (.removing, world, [.close])
  | (true, world) =>
    let sent := send connection counter (udpPacket sessionId source payload)
    match sent.result with
    | .error _ => (.removing, world, [.reply sent.datagrams])
    | .ok () => (.relay defragger socket, world, [.reply sent.datagrams])

def sessionStep (context : ServerUdpContext σ τ κ) (sessionId : UInt32) :
    SessionState τ → SessionEvent → σ → SessionState τ × σ × List (SessionAction τ)
  | .first defragger, .client (some message), world =>
    match defragger.feed message with
    | (none, defragger) => (.first defragger, world, [])
    | (some first, defragger) => openSession context defragger first world
  | .first _, .client none, world => (.removing, world, [])
  | .first _, .timeout, world => (.removing, world, [])
  | .relay defragger socket, .client (some message), world =>
    relayClient context defragger socket message world
  | .relay defragger socket, .remote (.ok (payload, source)) connection counter, world =>
    relayRemote context sessionId defragger socket payload source connection counter world
  | .relay _ _, .client none, world => (.removing, world, [])
  | .relay _ _, .remote (.error _) _ _, world => (.removing, world, [])
  | .relay _ _, .timeout, world => (.removing, world, [])
  -- There is no socket before the relay loop, and nothing is read after it.
  | state, _, world => (state, world, [])

/-- The steps of the task from `state` on. -/
def runSession (context : ServerUdpContext σ τ κ) (sessionId : UInt32) :
    SessionState τ → List SessionEvent → σ → SessionState τ × σ × List (SessionAction τ)
  | state, [], world => (state, world, [])
  | state, event :: events, world =>
    let (state, world, actions) := sessionStep context sessionId state event world
    let (state, world, rest) := runSession context sessionId state events world
    (state, world, actions ++ rest)

/-- `run_server_session`, up to its `remove_server_session`. -/
def runServerSession (context : ServerUdpContext σ τ κ) (sessionId : UInt32) (events : List SessionEvent)
    (world : σ) : SessionState τ × σ × List (SessionAction τ) :=
  runSession context sessionId (.first {}) events world

end Hysteria.Impl
