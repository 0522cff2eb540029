import Hysteria.Framework.Ip
import Hysteria.Impl.Obfs.Reassembler

/-!
# The codec of the sockets

`hysteria-transport`, `obfs_socket.rs`: what the sockets make of a datagram
from the wire. The reassembler is the state of the Gecko codec.
-/

namespace Hysteria.Impl

open Framework

inductive PacketCodec where
  | salamander (codec : Salamander)
  | gecko (codec : Gecko)

/-- A datagram as a socket reads it. `now` is what `Instant::now()` returns in
`decode`, `order` the order of the entries then. -/
structure WireDatagram where
  source : SocketAddr
  packet : List UInt8
  now : Nat
  order : IterationOrder

/-- The call of `receive_packet` for a datagram. -/
def WireDatagram.arrival (datagram : WireDatagram) : Arrival where
  source := datagram.source.display
  datagram := datagram.packet
  now := datagram.now
  order := datagram.order

namespace PacketCodec

variable (blake2b : List UInt8 → Vector UInt8 keyLength)

def decode (codec : PacketCodec) (datagram : WireDatagram) (r : Reassembler) :
    Option (Option (List UInt8) × Reassembler) :=
  match codec with
  | .salamander codec => some ((codec.deobfuscate blake2b datagram.packet).toOption, r)
  | .gecko codec =>
    (codec.receivePacket blake2b datagram.arrival r).map fun (result, r) => (result.toOption.join, r)

/-- `decode` on one datagram after the other: what each returns. -/
def decodeAll (codec : PacketCodec) : List WireDatagram → Reassembler →
    Option (List (Option (List UInt8)) × Reassembler)
  | [], r => some ([], r)
  | datagram :: rest, r => do
    let (packet, r) ← codec.decode blake2b datagram r
    let (packets, r) ← codec.decodeAll rest r
    return (packet :: packets, r)

end PacketCodec

end Hysteria.Impl
