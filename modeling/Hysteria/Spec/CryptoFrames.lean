import Hysteria.Framework.Bytes
import Hysteria.Framework.Tiling

/-!
# The frames of an Initial packet

The payload of an Initial packet that a client sends first: CRYPTO frames with the
pieces of its handshake, and PADDING and PING frames between them. Types, offsets and
lengths are variable-length integers of any width.
-/

namespace Hysteria.Spec

open Framework

/-- An integer of `2 ^ k` bytes, with `k` in the top two bits. -/
def VarintBytes (value : Nat) (bytes : List UInt8) : Prop :=
  ∃ k < 4, value < 2 ^ (8 * 2 ^ k - 2) ∧ bytes = beBytes (2 ^ k) (k * 2 ^ (8 * 2 ^ k - 2) + value)

inductive QuicFrame where
  | padding
  | ping
  | crypto (offset : Nat) (data : List UInt8)

inductive FrameBytes : QuicFrame → List UInt8 → Prop
  | padding {kind : List UInt8} : VarintBytes 0 kind → FrameBytes .padding kind
  | ping {kind : List UInt8} : VarintBytes 1 kind → FrameBytes .ping kind
  | crypto {offset : Nat} {data kind offsetBytes lengthBytes : List UInt8} : VarintBytes 6 kind →
    VarintBytes offset offsetBytes → VarintBytes data.length lengthBytes →
    FrameBytes (.crypto offset data) (kind ++ (offsetBytes ++ (lengthBytes ++ data)))

/-- The frames one after another. -/
inductive PayloadBytes : List QuicFrame → List UInt8 → Prop
  | nil : PayloadBytes [] []
  | cons {frame : QuicFrame} {frames : List QuicFrame} {bytes rest : List UInt8} : FrameBytes frame bytes →
    PayloadBytes frames rest → PayloadBytes (frame :: frames) (bytes ++ rest)

def QuicFrame.write : QuicFrame → Option (Nat × List UInt8)
  | .padding | .ping => none
  | .crypto offset data => some (offset, data)

/-- The data of the frames, in the order in which it comes. -/
def writesOf (frames : List QuicFrame) : List (Nat × List UInt8) := frames.filterMap QuicFrame.write

/-- The largest handshake that is put together. -/
def maxCrypto : Nat := 256 * 1024

/-- What was last written at each offset is `s`, piece by piece. -/
structure Reassembles (frames : List QuicFrame) (s : List UInt8) : Prop where
  nonempty : s ≠ []
  length_le : s.length ≤ maxCrypto
  data_le : ∀ write ∈ writesOf frames, write.2.length ≤ maxCrypto
  tiles : ∃ pieces, Listing pieces (lastWritten (writesOf frames)) ∧ Tiles 0 pieces s

/-- The frames carry the chunks, each once or more and in any order. -/
structure CarriesChunks (frames : List QuicFrame) (chunks : List (List UInt8)) : Prop where
  only : ∀ write ∈ writesOf frames, write ∈ cuts 0 chunks
  all : ∀ piece ∈ cuts 0 chunks, piece ∈ writesOf frames

end Hysteria.Spec
