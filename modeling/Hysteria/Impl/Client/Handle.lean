import Hysteria.Framework.Text

/-!
# The shared connection of the client

`hysteria`, `runtime.rs`: `ClientHandle`, which connects on first use, reconnects
after the connection is lost, and is shared by all the forwarding tasks. `HandleStep`
is one step of a call of `client`, `tcp`, `udp`, `invalidate` or `close` from one await
point to the next, or the death of a connection. The lock on the state is held
while `connect_client` is awaited.
-/

namespace Hysteria.Impl

open Framework

structure ClientConnection where
  /-- It was lost, or closed by the server. -/
  died : Bool := false
  /-- `close_connected` was applied to it. -/
  closed : Bool := false
deriving DecidableEq

/-- `ProxyClient::is_closed`. -/
def ClientConnection.isClosed (connection : ClientConnection) : Bool := connection.died || connection.closed

/-- Connections have the numbers in which they were made. -/
structure ClientState where
  connected : Option Nat := none
  closed : Bool := false
  updateStarted : Bool := false
deriving DecidableEq

inductive ClientPurpose where
  | client
  | tcp
  | udp
deriving DecidableEq

inductive HandleCall where
  /-- `client`, before it has the lock. -/
  | client (purpose : ClientPurpose)
  /-- `client`, in `connect_client`. -/
  | connecting (purpose : ClientPurpose)
  /-- `tcp` or `udp`, with the client. -/
  | holding (purpose : ClientPurpose) (connection : Nat)
  /-- `invalidate`, before it has the lock. -/
  | invalidate (connection : Nat)
  /-- `close`, before it has the lock. -/
  | close
  | returned (connection : Nat)
  | failed (error : Str)
  | finished
  | closed
deriving DecidableEq

inductive HandleEvent where
  | start (call : HandleCall)
  | lock (call : Nat)
  | connected (call : Nat)
  | connectFailed (call : Nat) (error : Str)
  /-- `ProxyClient::tcp` or `ProxyClient::udp` returns. -/
  | used (call : Nat) (isErr : Bool)
  | die (connection : Nat)
deriving DecidableEq

structure ClientHandle where
  state : ClientState := {}
  connections : List ClientConnection := []
  calls : List HandleCall := []
  /-- The call that holds the lock across an await. -/
  holder : Option Nat := none
  /-- The clients that `client` returned, in order. -/
  returned : List Nat := []
  /-- How often `update::background_client` was spawned. -/
  updates : Nat := 0
deriving DecidableEq

namespace ClientHandle

def isClosed (h : ClientHandle) (connection : Nat) : Bool := h.connections[connection]?.all (·.isClosed)

def setCall (h : ClientHandle) (call : Nat) (next : HandleCall) : ClientHandle :=
  { h with calls := h.calls.set call next }

def closeConnected (h : ClientHandle) (connection : Nat) : ClientHandle :=
  { h with connections := h.connections.modify connection fun c => { c with closed := true } }

/-- `if let Some(connected) = state.connected.take() { close_connected(..) }`. -/
def takeConnected (h : ClientHandle) : ClientHandle :=
  match h.state.connected with
  | none => h
  | some connection => { h.closeConnected connection with state := { h.state with connected := none } }

/-- `client` returns: the caller goes on with the connection. -/
def returnClient (h : ClientHandle) (call : Nat) (purpose : ClientPurpose) (connection : Nat) : ClientHandle :=
  let next := match purpose with
    | .client => .returned connection
    | .tcp | .udp => .holding purpose connection
  { h.setCall call next with returned := h.returned ++ [connection] }

/-- `client`, up to `connect_client`. -/
def lockClient (h : ClientHandle) (call : Nat) (purpose : ClientPurpose) : ClientHandle :=
  if h.state.closed then h.setCall call (.failed "client is closed")
  else
    match h.state.connected with
    | none => { h.setCall call (.connecting purpose) with holder := some call }
    | some connection =>
      if h.isClosed connection then { h.takeConnected.setCall call (.connecting purpose) with holder := some call }
      else h.returnClient call purpose connection

/-- `client`, from `connect_client` on. -/
def connected (updateChecks : Bool) (h : ClientHandle) (call : Nat) (purpose : ClientPurpose) : ClientHandle :=
  let connection := h.connections.length
  let spawns := updateChecks && !h.state.updateStarted
  let h := { h with
    connections := h.connections ++ [({} : ClientConnection)]
    state := { h.state with connected := some connection, updateStarted := h.state.updateStarted || spawns }
    updates := h.updates + spawns.toNat
    holder := none }
  h.returnClient call purpose connection

def lockInvalidate (h : ClientHandle) (call : Nat) (connection : Nat) : ClientHandle :=
  if h.state.connected = some connection then h.takeConnected.setCall call .finished
  else h.setCall call .finished

def lockClose (h : ClientHandle) (call : Nat) : ClientHandle :=
  let h := { h with state := { h.state with closed := true } }
  h.takeConnected.setCall call .closed

/-- `if result.is_err() && client.is_closed() { self.invalidate(&client).await }`. -/
def used (h : ClientHandle) (call : Nat) (connection : Nat) (isErr : Bool) : ClientHandle :=
  if isErr && h.isClosed connection then h.setCall call (.invalidate connection) else h.setCall call .finished

end ClientHandle

/-- What a call can begin with; a caller of `invalidate` has a client that was returned. -/
def HandleCall.starts (h : ClientHandle) : HandleCall → Bool
  | .client _ | .close => true
  | .invalidate connection => connection ∈ h.returned
  | _ => false

inductive HandleStep (updateChecks : Bool) : ClientHandle → HandleEvent → ClientHandle → Prop
  | start {h : ClientHandle} {call : HandleCall} (hstarts : call.starts h = true) :
      HandleStep updateChecks h (.start call) { h with calls := h.calls ++ [call] }
  | lockClient {h : ClientHandle} {call : Nat} {purpose : ClientPurpose}
      (hcall : h.calls[call]? = some (.client purpose)) (hfree : h.holder = none) :
      HandleStep updateChecks h (.lock call) (h.lockClient call purpose)
  | lockInvalidate {h : ClientHandle} {call connection : Nat}
      (hcall : h.calls[call]? = some (.invalidate connection)) (hfree : h.holder = none) :
      HandleStep updateChecks h (.lock call) (h.lockInvalidate call connection)
  | lockClose {h : ClientHandle} {call : Nat} (hcall : h.calls[call]? = some .close) (hfree : h.holder = none) :
      HandleStep updateChecks h (.lock call) (h.lockClose call)
  | connected {h : ClientHandle} {call : Nat} {purpose : ClientPurpose}
      (hcall : h.calls[call]? = some (.connecting purpose)) (hholder : h.holder = some call) :
      HandleStep updateChecks h (.connected call) (h.connected updateChecks call purpose)
  | connectFailed {h : ClientHandle} {call : Nat} {purpose : ClientPurpose} {error : Str}
      (hcall : h.calls[call]? = some (.connecting purpose)) (hholder : h.holder = some call) :
      HandleStep updateChecks h (.connectFailed call error)
        { h.setCall call (.failed error) with holder := none }
  | used {h : ClientHandle} {call connection : Nat} {purpose : ClientPurpose} {isErr : Bool}
      (hcall : h.calls[call]? = some (.holding purpose connection)) :
      HandleStep updateChecks h (.used call isErr) (h.used call connection isErr)
  | die {h : ClientHandle} {connection : Nat} (hconnection : connection < h.connections.length) :
      HandleStep updateChecks h (.die connection)
        { h with connections := h.connections.modify connection fun c => { c with died := true } }

end Hysteria.Impl
