import Mathlib.Data.List.Dedup
import Mathlib.Data.List.Sort
import Hysteria.Impl.Outbound.Interface

/-!
# Port unions

`hysteria`, `runtime.rs`: `parse_port_union`, the ports of a server that hops; and `sniff.rs`:
`parse_optional_ports`, the ports that are sniffed. Both read entries with commas between them, each
a port or a range, one into a list of ports and the other into the ranges.
-/

namespace Hysteria.Impl

open Framework

def orderedPorts (start stop : UInt16) : UInt16 × UInt16 := if start > stop then (stop, start) else (start, stop)

def optionalPortsEntry (field entry : Str) : Except Str (UInt16 × UInt16) :=
  let (start, stop) := (splitOnce '-' entry).getD (entry, entry)
  match parseU16 start, parseU16 stop with
  | some start, some stop => .ok (orderedPorts start stop)
  | _, _ => .error ("invalid " ++ field ++ " port union")

end Hysteria.Impl
