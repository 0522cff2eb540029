import Hysteria.Impl.Client.Socks5
import Hysteria.Impl.Transport.DatagramSender

/-!
# UDP relays of the client

`hysteria`: the loops that relay the datagrams of one local peer, each over a
session of its own (`hysteria-transport`, `udp.rs`, `UdpSession`): for a SOCKS5
association (`socks5.rs`, `relayUdp`), for a UDP forwarding (`runtime.rs`,
`runUdpPeer`) and for the TUN device (`tun.rs`, `runUdpFlow`). A loop is given by
what it does with each event that its `select!` can see.
-/

namespace Hysteria.Impl

open Framework

/-! ## Sessions -/

structure UdpSession where
  sessionId : UInt32
  defragger : Defragger := {}

/-- The connection and the counter of packet IDs, as a call of `send` finds them. -/
structure Uplink where
  connection : Connection
  counter : UInt32

def UdpSession.send (session : UdpSession) (uplink : Uplink) (data : List UInt8) (address : Str) : Sent :=
  Impl.send uplink.connection uplink.counter (udpPacket session.sessionId address data)

/-- One round of `receive`: the payload and its source, once they are complete. -/
def UdpSession.receive (session : UdpSession) (message : UdpMessage) : Option (List UInt8 × Str) × UdpSession :=
  let (complete, defragger) := session.defragger.feed message
  (complete.map fun message => (message.data, message.address), { session with defragger })

/-! ## The loops -/

variable (texts : RelayTexts)

inductive Relayed where
  | dropped
  /-- These datagrams went to the server. -/
  | sent (datagrams : List (List UInt8))
  /-- `send_to` of the local socket. -/
  | delivered (packet : List UInt8) (peer : SocketAddr)
  /-- Handed to the TUN device, as a datagram from `source`. -/
  | replied (packet : List UInt8) (source peer : SocketAddr)

inductive Turn (σ : Type) where
  | next (state : σ) (relayed : Relayed)
  | stop (result : Except Str Unit)

structure Socks5Relay where
  session : UdpSession
  clientAddress : Option SocketAddr := none

inductive Socks5Event where
  /-- `stream.read`: how many bytes. -/
  | control (read : Except Str Nat)
  /-- `socket.recv_from`. -/
  | localDatagram (received : Except Str (List UInt8 × SocketAddr)) (uplink : Uplink)
  /-- A message for the session, none when its channel is closed; and what `send_to` returns. -/
  | message (message : Option UdpMessage) (sendTo : List UInt8 → Except Str Unit)

def relayUdp (relay : Socks5Relay) : Socks5Event → Turn Socks5Relay
  | .control (.error error) => .stop (.error error)
  | .control (.ok size) => if size = 0 then .stop (.ok ()) else .next relay .dropped
  | .localDatagram (.error error) _ => .stop (.error error)
  | .localDatagram (.ok (datagram, source)) uplink =>
    if relay.clientAddress.any (· ≠ source) then .next relay .dropped
    else
      match decodeUdpDatagram texts datagram with
      | .error _ => .next relay .dropped
      | .ok (target, payload) =>
        let sent := relay.session.send uplink payload target
        match sent.result with
        | .error error => .stop (.error error.display)
        | .ok () => .next { relay with clientAddress := some (relay.clientAddress.getD source) } (.sent sent.datagrams)
  | .message message sendTo =>
    match relay.clientAddress with
    -- The branch is disabled, and the message stays in the channel.
    | none => .next relay .dropped
    | some client =>
      match message with
      | none => .stop (.error TransportError.sessionClosed.display)
      | some message =>
        match relay.session.receive message with
        | (none, session) => .next { relay with session } .dropped
        | (some (payload, source), session) =>
          match encodeUdpDatagram texts source payload with
          | .error error => .stop (.error error)
          | .ok packet =>
            match sendTo packet with
            | .error error => .stop (.error error)
            | .ok () => .next { relay with session } (.delivered packet client)

/-- What the loops of a forwarding and of the TUN device see. -/
inductive UdpEvent where
  | timeout
  /-- A packet for the flow, none when its channel is closed. -/
  | localPacket (packet : Option (List UInt8)) (uplink : Uplink)
  /-- A message for the session, none when its channel is closed; and what delivering a packet returns. -/
  | message (message : Option UdpMessage) (deliver : List UInt8 → Except Str Unit)

structure UdpPeer where
  session : UdpSession
  peer : SocketAddr
  remote : Str

def runUdpPeer (flow : UdpPeer) : UdpEvent → Turn UdpPeer
  | .timeout => .stop (.ok ())
  | .localPacket none _ => .stop (.ok ())
  | .localPacket (some packet) uplink =>
    let sent := flow.session.send uplink packet flow.remote
    match sent.result with
    | .error _ => .stop (.ok ())
    | .ok () => .next flow (.sent sent.datagrams)
  | .message none _ => .stop (.ok ())
  | .message (some message) sendTo =>
    match flow.session.receive message with
    | (none, session) => .next { flow with session } .dropped
    | (some (packet, _), session) =>
      match sendTo packet with
      | .error _ => .stop (.ok ())
      | .ok () => .next { flow with session } (.delivered packet flow.peer)

structure TunFlow where
  session : UdpSession
  source : SocketAddr
  destination : SocketAddr

def runUdpFlow (flow : TunFlow) : UdpEvent → Turn TunFlow
  | .timeout => .stop (.ok ())
  | .localPacket none _ => .stop (.ok ())
  | .localPacket (some packet) uplink =>
    let sent := flow.session.send uplink packet flow.destination.display
    match sent.result with
    | .error _ => .stop (.ok ())
    | .ok () => .next flow (.sent sent.datagrams)
  | .message none _ => .stop (.ok ())
  | .message (some message) send =>
    match flow.session.receive message with
    | (none, session) => .next { flow with session } .dropped
    | (some (packet, remote), session) =>
      match parseSocketAddr remote with
      | none => .next { flow with session } .dropped
      | some remote =>
        match send packet with
        | .error _ => .stop (.ok ())
        | .ok () => .next { flow with session } (.replied packet remote flow.source)

/-! ## Any of them -/

inductive RelayKind where
  | socks5
  | forwarding
  | tun

abbrev RelayKind.State : RelayKind → Type
  | .socks5 => Socks5Relay
  | .forwarding => UdpPeer
  | .tun => TunFlow

abbrev RelayKind.Event : RelayKind → Type
  | .socks5 => Socks5Event
  | .forwarding | .tun => UdpEvent

def RelayKind.turn : (kind : RelayKind) → kind.State → kind.Event → Turn kind.State
  | .socks5 => relayUdp texts
  | .forwarding => runUdpPeer
  | .tun => runUdpFlow

end Hysteria.Impl
