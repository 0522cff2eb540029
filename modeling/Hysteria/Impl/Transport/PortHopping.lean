import Mathlib.Logic.Function.Basic

/-!
# The receiving side of the port hopping socket

`hysteria-transport`, `obfs_socket.rs`: `PortHoppingUdpSocket::poll_recv`, called
by the task that drives the Quinn endpoint, and `hop_worker`, which replaces the
UDP socket in use by a new one and keeps the one before it. A UDP socket wakes,
when a datagram arrives, the task whose waker the last pending poll of that same
socket left there.

`HopStep` is one step of the driver, of `hop_worker` or of the network;
`poll_recv` is a step to take its copy of the hop state and one for each
`poll_recv_from`.
-/

namespace Hysteria.Impl

abbrev SocketId := Nat

structure HopState where
  current : SocketId
  previous : Option SocketId
  remoteIndex : Nat
  deriving Repr

/-- The sockets `poll_recv` looks at, in this order. -/
def HopState.sockets (state : HopState) : List SocketId := state.current :: state.previous.toList

/-- A `tokio::net::UdpSocket`: what it has received and was not read, and
whether the waker of the driver is registered. -/
structure UdpSocket where
  received : List (List UInt8)
  registered : Bool
  deriving Repr

def UdpSocket.new : UdpSocket := ⟨[], false⟩

/-- The driver, by its last call of `poll_recv`. -/
inductive Driver where
  /-- In the call, with the sockets it has still to poll. -/
  | polling (sockets : List SocketId)
  | pending
  | ready
  deriving Repr

inductive HopEvent where
  /-- `poll_recv` is called and copies the hop state; the first call of a poll of
  the task takes the wake-up. -/
  | call (first : Bool)
  /-- `poll_recv` is called without buffers. -/
  | callNoBuffers (first : Bool)
  /-- `poll_recv_from` returns a datagram; `packet` is what the codec makes of it. -/
  | receive (packet : Option (List UInt8))
  | receiveError
  | receivePending
  | returnPending
  /-- `hop_worker` replaces the socket. -/
  | hop (remoteIndex : Nat)
  | arrive (socket : SocketId) (datagram : List UInt8)

structure HopReceiver where
  state : HopState
  sockets : SocketId → UdpSocket
  /-- How many sockets were created. -/
  created : Nat
  driver : Driver
  /-- The sockets the last call of `poll_recv` looks at. -/
  copied : List SocketId
  woken : Bool
  delivered : List (List UInt8)

namespace HopReceiver

/-- After `PortHoppingUdpSocket::new`, before the first poll. -/
def new (remoteIndex : Nat) : HopReceiver where
  state := ⟨0, none, remoteIndex⟩
  sockets := fun _ => .new
  created := 1
  driver := .ready
  copied := []
  woken := false
  delivered := []

def setSocket (s : HopReceiver) (id : SocketId) (socket : UdpSocket) : HopReceiver :=
  { s with sockets := Function.update s.sockets id socket }

section SetSocket

variable (s : HopReceiver) (id : SocketId) (sock : UdpSocket)

@[simp] theorem setSocket_state : (s.setSocket id sock).state = s.state := rfl
@[simp] theorem setSocket_created : (s.setSocket id sock).created = s.created := rfl
@[simp] theorem setSocket_driver : (s.setSocket id sock).driver = s.driver := rfl
@[simp] theorem setSocket_copied : (s.setSocket id sock).copied = s.copied := rfl
@[simp] theorem setSocket_woken : (s.setSocket id sock).woken = s.woken := rfl

@[simp] theorem setSocket_same : (s.setSocket id sock).sockets id = sock := Function.update_self ..

theorem setSocket_other {x : SocketId} (hx : x ≠ id) : (s.setSocket id sock).sockets x = s.sockets x :=
  Function.update_of_ne hx ..

end SetSocket

end HopReceiver

inductive HopStep (s : HopReceiver) : HopEvent → HopReceiver → Prop
  | call (first : Bool) (hidle : ∀ sockets, s.driver ≠ .polling sockets) : HopStep s (.call first)
        { s with
          driver := .polling s.state.sockets
          copied := s.state.sockets
          woken := s.woken && !first }
  | callNoBuffers (first : Bool) (hidle : ∀ sockets, s.driver ≠ .polling sockets) :
      HopStep s (.callNoBuffers first) { s with driver := .ready, woken := s.woken && !first }
  /-- The codec has no packet for the datagram: the same socket is polled again. -/
  | receiveNone {id : SocketId} {rest : List SocketId} {datagram : List UInt8} {others : List (List UInt8)}
      (hdriver : s.driver = .polling (id :: rest)) (hreceived : (s.sockets id).received = datagram :: others) :
      HopStep s (.receive none) (s.setSocket id { s.sockets id with received := others })
  | receiveSome {id : SocketId} {rest : List SocketId} {datagram : List UInt8} {others : List (List UInt8)}
      (packet : List UInt8) (hdriver : s.driver = .polling (id :: rest))
      (hreceived : (s.sockets id).received = datagram :: others) :
      HopStep s (.receive (some packet))
        { s.setSocket id { s.sockets id with received := others } with
          driver := .ready
          delivered := s.delivered ++ [packet] }
  | receiveError {id : SocketId} {rest : List SocketId} (hdriver : s.driver = .polling (id :: rest)) :
      HopStep s .receiveError { s with driver := .ready }
  | receivePending {id : SocketId} {rest : List SocketId} (hdriver : s.driver = .polling (id :: rest))
      (hreceived : (s.sockets id).received = []) :
      HopStep s .receivePending
        { s.setSocket id { s.sockets id with registered := true } with driver := .polling rest }
  | returnPending (hdriver : s.driver = .polling []) : HopStep s .returnPending { s with driver := .pending }
  | hop (remoteIndex : Nat) : HopStep s (.hop remoteIndex)
        { s.setSocket s.created .new with
          state := ⟨s.created, some s.state.current, remoteIndex⟩
          created := s.created + 1 }
  /-- The waker is taken when the socket wakes the task. -/
  | arrive {id : SocketId} (datagram : List UInt8) (hid : id ∈ s.state.sockets) : HopStep s (.arrive id datagram)
        { s.setSocket id ⟨(s.sockets id).received ++ [datagram], false⟩ with
          woken := s.woken || (s.sockets id).registered }

end Hysteria.Impl
