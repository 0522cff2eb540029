import Hysteria.Impl.Realm.Session

/-!
# The event stream of a Realm client

`hysteria-realm`, `client.rs`: `EventStream`. A call of `next` is cut where it waits for
the stream: `poll` is what it does up to there, `receive` what it does with the item that
arrives, after which it polls again. A call that is dropped while it waits leaves the
state that the next call starts from. `run` makes calls until one returns an error or
the end.
-/

namespace Hysteria.Impl

open Framework

def maxEventBufferSize : Nat := 1024 * 1024

inductive RealmClientError where
  | http (error : Str)
  | response (text : Str)
deriving DecidableEq

/-- What a call of `next` returns. -/
abbrev NextResult := Except RealmClientError (Option PunchEvent)

/-- What the libraries decide: `serde_json::from_str`, and the text of a `Utf8Error`. -/
structure EventLibrary where
  fromStr : Str → Except Str PunchEvent
  utf8Error : List UInt8 → Str

structure EventStream where
  input : List UInt8
  eventName : Str
  data : Str
  ended : Bool
deriving DecidableEq

namespace EventStream

def new : EventStream := ⟨[], [], [], false⟩

variable (lib : EventLibrary)

def processLine (s : EventStream) (line : Str) : NextResult × EventStream :=
  if line = [] then
    if s.eventName = "punch".toList then
      match lib.fromStr s.data with
      | .error text => (.error (.response text), s)
      | .ok event => (.ok (some event), { s with eventName := [], data := [] })
    else (.ok none, { s with eventName := [], data := [] })
  else if [':'].isPrefixOf line then (.ok none, s)
  else
    match splitOnce ':' line with
    | none => (.ok none, s)
    | some (field, value) =>
      let value := (stripStart [' '] value).getD value
      if field = "event".toList then (.ok none, { s with eventName := value })
      else if field = "data".toList then
        (.ok none, { s with data := (if s.data = [] then s.data else s.data ++ ['\n']) ++ value })
      else (.ok none, s)

def dropCr (line : List UInt8) : List UInt8 := if line.getLast? = some 13 then line.dropLast else line

/-- The first complete line, without its end, and what is after it. -/
def takeLine (input : List UInt8) : Option (List UInt8 × List UInt8) :=
  match input.dropWhile (· != 10) with
  | [] => none
  | _ :: rest => some (dropCr (input.takeWhile (· != 10)), rest)

/-- The inner loop; there are no more lines than bytes. -/
def drainLines : (rounds : Nat) → EventStream → NextResult × EventStream
  | 0, s => (.ok none, s)
  | rounds + 1, s =>
    match takeLine s.input with
    | none => (.ok none, s)
    | some (line, rest) =>
      let s := { s with input := rest }
      match fromUtf8 line with
      | none => (.error (.response (lib.utf8Error line)), s)
      | some text =>
        match s.processLine lib text with
        | (.ok none, s) => drainLines rounds s
        | returned => returned

/-- A call up to where it waits, which is `none`. -/
def poll (s : EventStream) : Option NextResult × EventStream :=
  match s.drainLines lib s.input.length with
  | (.ok none, s) => (if s.ended then some (.ok none) else none, s)
  | (returned, s) => (some returned, s)

def receive (s : EventStream) : Option (Except Str (List UInt8)) → Except RealmClientError EventStream
  | some (.ok chunk) =>
    if s.input.length + chunk.length > maxEventBufferSize then .error (.response "realm event exceeds 1 MiB".toList)
    else .ok { s with input := s.input ++ chunk }
  | some (.error error) => .error (.http error)
  | none => .ok { s with ended := true }

/-- Calls until one waits, in the state given then, or returns an error or the end. Each event
takes a line. -/
def calls : (rounds : Nat) → EventStream → List NextResult × Option EventStream
  | 0, s => ([], some s)
  | rounds + 1, s =>
    match s.poll lib with
    | (none, s) => ([], some s)
    | (some (.ok (some event)), s) => (.ok (some event) :: (calls rounds s).1, (calls rounds s).2)
    | (some returned, _) => ([returned], none)

/-- What the calls return while the stream delivers its items. Before an item arrives, the call
that waits for it is dropped and another made, as many times as the item says. -/
def run : List (Nat × Option (Except Str (List UInt8))) → EventStream → List NextResult
  | [], s => (s.calls lib (s.input.length + 1)).1
  | (drops, item) :: items, s =>
    match s.calls lib (s.input.length + 1) with
    | (returned, none) => returned
    | (returned, some s) =>
      match ((fun s => (s.poll lib).2)^[drops] s).receive item with
      | .error error => returned ++ [.error error]
      | .ok s => returned ++ run items s

end EventStream

end Hysteria.Impl
