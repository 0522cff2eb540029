import Hysteria.Framework.Slots
import Hysteria.Framework.Tally
import Hysteria.Impl.Obfs.Reassembler

/-!
# Reassembly, without the counts

The reassembler as a table of messages that lack a chunk: `AcceptStep` is what a
frame does to the table, `Partial` what its entries look like. How many
messages a source has is read off the table itself.
-/

namespace Hysteria.Spec

open Framework Impl

def keyOf (source : Str) (frame : GeckoFrame) : ReassemblyKey := { source, messageId := frame.messageId }

/-- How many messages of the source lack a chunk. -/
def pendingCount (source : Str) (m : Reassemblies) : Nat := tally (fun key => decide (key.source = source)) m

/-- A frame that `decode` accepts. -/
structure ValidFrame (frame : GeckoFrame) : Prop where
  atLeast : 2 ≤ frame.totalChunks.toNat
  atMost : frame.totalChunks.toNat ≤ 8
  index : frame.chunkIndex.toNat < frame.totalChunks.toNat

/-- `accept` gets only what `decode` accepts. -/
def Decoded : Reassembler.Operation → Prop
  | .accept _ _ frame _ => ∃ input, GeckoFrame.decode input = .ok frame
  | .expire _ => True

/-- An entry with room for all its chunks, and some of them. -/
structure Slotted (entry : ReassemblyEntry) : Prop where
  length : entry.chunks.length = entry.total.toNat
  received : entry.received = filled entry.chunks
  atLeast : 2 ≤ entry.total.toNat
  atMost : entry.total.toNat ≤ 8

/-- A message that has some of its chunks, and lacks one. -/
structure Partial (entry : ReassemblyEntry) : Prop extends Slotted entry where
  some : 1 ≤ entry.received
  lacking : entry.received < entry.total.toNat

def freshEntry (total : UInt8) (now : Nat) : ReassemblyEntry where
  chunks := List.replicate total.toNat none
  received := 0
  total
  deadline := now + reassemblyTtl

def fill (entry : ReassemblyEntry) (frame : GeckoFrame) : ReassemblyEntry :=
  { entry with
    chunks := entry.chunks.set frame.chunkIndex.toNat (some frame.payload)
    received := entry.received + 1 }

def packet (entry : ReassemblyEntry) : List UInt8 := (entry.chunks.filterMap id).flatten

/-- The entry that a frame goes into, and the table with room for it. -/
inductive Opens (m : Reassemblies) (source : Str) (frame : GeckoFrame) (now : Nat) :
    Reassemblies → ReassemblyEntry → Prop
  | pending {entry : ReassemblyEntry} (hentry : m.lookup (keyOf source frame) = some entry)
    (htotal : entry.total = frame.totalChunks) : Opens m source frame now m entry
  | fresh (hnew : keyOf source frame ∉ m) (hsource : pendingCount source m < maxReassembliesPerSource)
    (hroom : m.entries.length < maxReassemblies) :
    Opens m source frame now m (freshEntry frame.totalChunks now)
  /-- The table is full: the message closest to its deadline goes. -/
  | evicting {oldest : ReassemblyKey} {entry : ReassemblyEntry} (hnew : keyOf source frame ∉ m)
    (hsource : pendingCount source m < maxReassembliesPerSource) (hfull : maxReassemblies ≤ m.entries.length)
    (hentry : m.lookup oldest = some entry)
    (holdest : ∀ key other, m.lookup key = some other → entry.deadline ≤ other.deadline) :
    Opens m source frame now (m.erase oldest) (freshEntry frame.totalChunks now)

/-- What a frame completes, and the table after it. -/
inductive AcceptStep (m : Reassemblies) (source : Str) (frame : GeckoFrame) (now : Nat) :
    Option (List UInt8) → Reassemblies → Prop
  /-- The message has another number of chunks. -/
  | mismatched {entry : ReassemblyEntry} (hentry : m.lookup (keyOf source frame) = some entry)
    (htotal : entry.total ≠ frame.totalChunks) : AcceptStep m source frame now none m
  /-- The source has too many messages that lack a chunk. -/
  | refused (hnew : keyOf source frame ∉ m) (hsource : maxReassembliesPerSource ≤ pendingCount source m) :
    AcceptStep m source frame now none m
  | repeated {entry : ReassemblyEntry} {chunk : List UInt8} (hentry : m.lookup (keyOf source frame) = some entry)
    (htotal : entry.total = frame.totalChunks)
    (hchunk : entry.chunks[frame.chunkIndex.toNat]? = some (some chunk)) : AcceptStep m source frame now none m
  | stored {base : Reassemblies} {entry : ReassemblyEntry} (hopens : Opens m source frame now base entry)
    (hslot : entry.chunks[frame.chunkIndex.toNat]? = some none)
    (hlacking : entry.received + 1 < frame.totalChunks.toNat) :
    AcceptStep m source frame now none (base.insert (keyOf source frame) (fill entry frame))
  | completed {base : Reassemblies} {entry : ReassemblyEntry} (hopens : Opens m source frame now base entry)
    (hslot : entry.chunks[frame.chunkIndex.toNat]? = some none)
    (hlast : frame.totalChunks.toNat ≤ entry.received + 1) :
    AcceptStep m source frame now (some (packet (fill entry frame))) (base.erase (keyOf source frame))

end Hysteria.Spec
