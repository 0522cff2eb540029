import Mathlib.Data.Finset.Basic
import Hysteria.Impl.Transport.Handshake

/-!
# Traffic statistics

`hysteria`, `traffic.rs`: what `TrafficStats` keeps of the users, the calls of
the server that change it and the handlers of the HTTP API. Each call takes the
lock once. `hysteria-transport`, `proxy.rs`: `OnlineGuard`, which counts a
connection as long as it lives.
-/

namespace Hysteria.Impl

open Framework

structure TrafficEntry where
  tx : UInt64 := 0
  rx : UInt64 := 0
deriving DecidableEq

structure TrafficState where
  stats : AList fun _ : Str => TrafficEntry := ∅
  online : AList fun _ : Str => Nat := ∅
  kicked : Finset Str := ∅

namespace TrafficState

def logTraffic (state : TrafficState) (id : Str) (tx rx : UInt64) : Bool × TrafficState :=
  if id ∈ state.kicked then (false, { state with kicked := state.kicked.erase id })
  else
    let entry := (state.stats.lookup id).getD {}
    (true, { state with stats := state.stats.insert id { tx := entry.tx + tx, rx := entry.rx + rx } })

def logOnlineState (state : TrafficState) (id : Str) (online : Bool) : TrafficState :=
  if online then { state with online := state.online.insert id ((state.online.lookup id).getD 0 + 1) }
  else
    match state.online.lookup id with
    | none => state
    | some count =>
      if count - 1 = 0 then { state with online := state.online.erase id }
      else { state with online := state.online.insert id (count - 1) }

end TrafficState

/-! ## The HTTP API -/

inductive StatsReply where
  | text (status : UInt16) (body : Str)
  /-- The snapshot, as JSON. -/
  | traffic (snapshot : AList fun _ : Str => TrafficEntry)
  | online (snapshot : AList fun _ : Str => Nat)

def StatsReply.unauthorized : StatsReply := .text 401 "unauthorized\n"

/-- The state, the secret of the API, and the guards that live, by their `auth_id`. -/
structure TrafficStats where
  state : TrafficState := {}
  secret : Str
  guards : List Str := []

namespace TrafficStats

def authorized (stats : TrafficStats) (headers : HeaderMap) : Bool :=
  stats.secret = [] || (headers.get "authorization").bind headerText = some stats.secret

def parseGoBool (value : Str) : Bool :=
  value = "1" || value = "t" || value = "T" || value = "true" || value = "TRUE" ||
    value = "True"

/-- `clear`, of a query. -/
def clears (query : Str → Option Str) : Bool := (query "clear").any parseGoBool

def traffic (stats : TrafficStats) (headers : HeaderMap) (query : Str → Option Str) : StatsReply × TrafficStats :=
  if !stats.authorized headers then (.unauthorized, stats)
  else
    (.traffic stats.state.stats,
      if clears query then { stats with state := { stats.state with stats := ∅ } } else stats)

def online (stats : TrafficStats) (headers : HeaderMap) : StatsReply :=
  if !stats.authorized headers then .unauthorized else .online stats.state.online

/-- `fromSlice` is `serde_json::from_slice` at a list of strings. -/
def kick (fromSlice : List UInt8 → Option (List Str)) (stats : TrafficStats) (headers : HeaderMap)
    (body : List UInt8) : StatsReply × TrafficStats :=
  if !stats.authorized headers then (.unauthorized, stats)
  else
    match fromSlice body with
    | none => (.text 400 "invalid JSON request body\n", stats)
    | some ids =>
      (.text 200 [], { stats with state := { stats.state with kicked := stats.state.kicked ∪ ids.toFinset } })

/-! ## Calls -/

inductive StatsCall where
  | logTraffic (id : Str) (tx rx : UInt64)
  | traffic (headers : HeaderMap) (query : Str → Option Str)
  | online (headers : HeaderMap)
  | kick (headers : HeaderMap) (body : List UInt8)
  | newGuard (id : Str)
  | dropGuard (guard : Nat)

inductive Result where
  | logged (allowed : Bool)
  | reply (reply : StatsReply)
  | done

/-- One call; none if there is no such guard. -/
def call (fromSlice : List UInt8 → Option (List Str)) (stats : TrafficStats) :
    StatsCall → Option (Result × TrafficStats)
  | .logTraffic id tx rx =>
    let (allowed, state) := stats.state.logTraffic id tx rx
    some (.logged allowed, { stats with state })
  | .traffic headers query =>
    let (reply, stats) := stats.traffic headers query
    some (.reply reply, stats)
  | .online headers => some (.reply (stats.online headers), stats)
  | .kick headers body =>
    let (reply, stats) := stats.kick fromSlice headers body
    some (.reply reply, stats)
  | .newGuard id =>
    some (.done, { stats with state := stats.state.logOnlineState id true, guards := stats.guards ++ [id] })
  | .dropGuard guard => do
    let id ← stats.guards[guard]?
    some (.done, { stats with state := stats.state.logOnlineState id false, guards := stats.guards.eraseIdx guard })

def Step (fromSlice : List UInt8 → Option (List Str)) (stats : TrafficStats) (entry : StatsCall × Result)
    (next : TrafficStats) : Prop :=
  stats.call fromSlice entry.1 = some (entry.2, next)

end TrafficStats

end Hysteria.Impl
