import Hysteria.Impl.Protocol.UdpMessage

/-!
# Fragmentation of UDP messages

`hysteria-protocol`, `fragment.rs`: the splitter (`fragmentUdpMessage`) and the
reassembler of one session (`Defragger`).
-/

namespace Hysteria.Impl

open Framework

/-- Splits a message so that no fragment, with its header, exceeds `maxSize`
bytes. No fragments at all if the header leaves no room for data. -/
def fragmentUdpMessage (message : UdpMessage) (maxSize : Nat) : Except ProtocolError (List UdpMessage) :=
  if message.encodedSize ≤ maxSize then .ok [message]
  else
    let maxPayloadSize := maxSize - message.headerSize
    if maxPayloadSize = 0 then .ok []
    else
      let fragmentCount := divCeil message.data.length maxPayloadSize
      match u8TryFrom fragmentCount with
      | none => .error (.tooManyFragments fragmentCount)
      | some count =>
        (chunks maxPayloadSize message.data).zipIdx.mapM fun (data, index) =>
          match u8TryFrom index with
          | none => .error (.tooManyFragments fragmentCount)
          | some fragmentId => .ok { message with fragmentId, fragmentCount := count, data }

/-- The reassembler of one session: it collects the fragments of one packet at
a time. -/
structure Defragger where
  packetId : UInt16 := 0
  fragments : List (Option UdpMessage) := []
  received : Nat := 0
deriving DecidableEq

/-- The complete message once all its fragments arrived, and the reassembler
after `message`. A new packet ID or fragment count discards an incomplete
packet. -/
def Defragger.feed (d : Defragger) (message : UdpMessage) : Option UdpMessage × Defragger :=
  if message.fragmentCount ≤ 1 then (some message, d)
  else if message.fragmentId ≥ message.fragmentCount then (none, d)
  else
    let index := message.fragmentId.toNat
    let expected := message.fragmentCount.toNat
    if message.packetId ≠ d.packetId ∨ d.fragments.length ≠ expected then
      (none, { packetId := message.packetId
               fragments := (List.replicate expected none).set index (some message)
               received := 1 })
    else if d.fragments[index]? = some none then
      let fragments := d.fragments.set index (some message)
      let received := d.received + 1
      let d' : Defragger := { d with fragments, received }
      if received = fragments.length then
        (some { message with
          fragmentId := 0
          fragmentCount := 1
          data := (fragments.filterMap id).flatMap (·.data) }, d')
      else (none, d')
    else (none, d)

/-- `feed` on a sequence of messages: what each one returns. -/
def Defragger.feedAll (d : Defragger) : List UdpMessage → List (Option UdpMessage)
  | [] => []
  | message :: rest => (d.feed message).1 :: (d.feed message).2.feedAll rest

end Hysteria.Impl
