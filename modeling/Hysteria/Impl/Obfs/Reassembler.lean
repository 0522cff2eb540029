import Mathlib.Data.List.AList
import Mathlib.Data.List.MinMax
import Hysteria.Impl.Obfs.Gecko

/-!
# Gecko's receiver

`hysteria-obfs`, `gecko.rs`: the reassembler, and what `receive_packet` makes of
a datagram. Times are in nanoseconds. A result `none` is a panic: the count of
a source is decremented below zero.
-/

namespace Hysteria.Impl

open Framework

def maxReassemblies : Nat := 4096
def maxReassembliesPerSource : Nat := 8
def reassemblyTtl : Nat := 8000000000

structure ReassemblyKey where
  source : Str
  messageId : UInt8
deriving DecidableEq

structure ReassemblyEntry where
  chunks : List (Option (List UInt8))
  received : Nat
  total : UInt8
  deadline : Nat
deriving DecidableEq

abbrev Reassemblies := AList fun _ : ReassemblyKey => ReassemblyEntry

structure Reassembler where
  entries : Reassemblies
  perSource : AList fun _ : Str => Nat

/-- The order in which the iterator of the `HashMap` gives the entries. -/
structure IterationOrder where
  arrange : List (Sigma fun _ : ReassemblyKey => ReassemblyEntry) →
    List (Sigma fun _ : ReassemblyKey => ReassemblyEntry)
  perm : ∀ entries, (arrange entries).Perm entries

namespace Reassembler

def empty : Reassembler := ⟨∅, ∅⟩

/-- `self.per_source.get(source).copied().unwrap_or(0)`. -/
def count (r : Reassembler) (source : Str) : Nat := (r.perSource.lookup source).getD 0

def dropEntry (r : Reassembler) (key : ReassemblyKey) : Option Reassembler :=
  if key ∉ r.entries then some r
  else
    match r.perSource.lookup key.source with
    | none => some { r with entries := r.entries.erase key }
    -- `*count -= 1` underflows.
    | some 0 => none
    | some (count + 1) => some {
        entries := r.entries.erase key
        perSource := if count = 0 then r.perSource.erase key.source else r.perSource.insert key.source count }

def evictOldest (order : IterationOrder) (r : Reassembler) : Option Reassembler :=
  match (order.arrange r.entries.entries).argmin (·.2.deadline) with
  | none => some r
  | some oldest => r.dropEntry oldest.1

/-- Drops the entries past their deadline. The order does not matter. -/
def expire (r : Reassembler) (now : Nat) : Option Reassembler :=
  ((r.entries.entries.filter fun entry => now > entry.2.deadline).map (·.1)).foldlM dropEntry r

/-- The entry of a new message, not yet with a chunk. -/
def insertEntry (r : Reassembler) (key : ReassemblyKey) (total : UInt8) (now : Nat) : Reassembler where
  entries := r.entries.insert key
    { chunks := List.replicate total.toNat none, received := 0, total, deadline := now + reassemblyTtl }
  perSource := r.perSource.insert key.source (r.count key.source + 1)

/-- The second half of `accept`: the chunk goes into the entry of its message. -/
def storeChunk (r : Reassembler) (key : ReassemblyKey) (frame : GeckoFrame) :
    Option (Option (List UInt8) × Reassembler) :=
  match r.entries.lookup key with
  | none => some (none, r)
  | some entry =>
    match entry.chunks[frame.chunkIndex.toNat]? with
    | none => some (none, r)
    | some (some _) => some (none, r)
    | some none =>
      let chunks := entry.chunks.set frame.chunkIndex.toNat (some frame.payload)
      let received := entry.received + 1
      let r := { r with entries := r.entries.insert key { entry with chunks, received } }
      if received < entry.total.toNat then some (none, r)
      else (r.dropEntry key).map fun r => (some (chunks.filterMap id).flatten, r)

/-- The packet that the frame completes, and the reassembler after it. -/
def accept (order : IterationOrder) (r : Reassembler) (source : Str) (frame : GeckoFrame) (now : Nat) :
    Option (Option (List UInt8) × Reassembler) :=
  let key : ReassemblyKey := { source, messageId := frame.messageId }
  match r.entries.lookup key with
  | some entry => if entry.total ≠ frame.totalChunks then some (none, r) else r.storeChunk key frame
  | none =>
    if r.count source ≥ maxReassembliesPerSource then some (none, r)
    else do
      let r ← if r.entries.entries.length ≥ maxReassemblies then r.evictOldest order else some r
      (r.insertEntry key frame.totalChunks now).storeChunk key frame

inductive Operation where
  | accept (order : IterationOrder) (source : Str) (frame : GeckoFrame) (now : Nat)
  | expire (now : Nat)

def apply (r : Reassembler) : Operation → Option Reassembler
  | .accept order source frame now => (r.accept order source frame now).map (·.2)
  | .expire now => r.expire now

def run (r : Reassembler) (operations : List Operation) : Option Reassembler := operations.foldlM apply r

end Reassembler

variable (blake2b : List UInt8 → Vector UInt8 keyLength)

/-- A datagram as it is passed to `receive_packet`, and the order of the
entries then. -/
structure Arrival where
  source : Str
  datagram : List UInt8
  now : Nat
  order : IterationOrder

def Gecko.receivePacket (gecko : Gecko) (arrival : Arrival) (r : Reassembler) :
    Option (Except GeckoError (Option (List UInt8)) × Reassembler) :=
  match gecko.salamander.deobfuscate blake2b arrival.datagram with
  | .error error => some (.error (.salamander error), r)
  -- `cleartext[0]` is out of bounds.
  | .ok [] => none
  | .ok (first :: rest) =>
    if first &&& fragmentFlag = 0 then some (.ok (some (first :: rest)), r)
    else
      match GeckoFrame.decode (first :: rest) with
      | .error error => some (.error error, r)
      | .ok frame => (r.accept arrival.order arrival.source frame arrival.now).map fun (packet, r) => (.ok packet, r)

/-- `receive_packet` on one datagram after the other: what each returns. -/
def Gecko.receiveAll (gecko : Gecko) : List Arrival → Reassembler →
    Option (List (Except GeckoError (Option (List UInt8))) × Reassembler)
  | [], r => some ([], r)
  | arrival :: rest, r => do
    let (result, r) ← gecko.receivePacket blake2b arrival r
    let (results, r) ← gecko.receiveAll rest r
    return (result :: results, r)

end Hysteria.Impl
