import Hysteria.Impl.Transport.TcpStream

/-!
# TCP tunnels of the client

`hysteria-transport`, `proxy.rs`: `ProxyClient::tcp` and the reading half of a
`TcpTunnel`. The request is on its way; the answer comes in on the receiving
half of the stream, from which the tunnel reads once it is open.
-/

namespace Hysteria.Impl

open Framework

inductive Poll (α : Type) where
  | pending
  | ready (value : α)
deriving DecidableEq

/-- The receiving half of a stream: what has come and was not read, and whether
the peer has finished it. -/
@[ext]
structure RecvStream where
  buffer : List UInt8
  finished : Bool
deriving DecidableEq

/-- `RecvStream::poll_read` with room for `size` bytes. `piece` bounds what it
hands out at once. -/
def RecvStream.pollRead (stream : RecvStream) (size piece : Nat) : Poll (Except Str (List UInt8)) × RecvStream :=
  if size = 0 then (.ready (.ok []), stream)
  else if stream.buffer = [] then
    if stream.finished then (.ready (.ok []), stream) else (.pending, stream)
  else
    let n := min size (max 1 piece)
    (.ready (.ok (stream.buffer.take n)), { stream with buffer := stream.buffer.drop n })

/-- Polls a reader of the stream; its result comes with the stream it leaves. -/
def RecvStream.pollReader {α : Type} (stream : RecvStream) (progress : Progress TransportError α) :
    Poll (Except TransportError α) × Progress TransportError α × RecvStream :=
  match progress.more stream.buffer with
  | .finished result rest => (.ready result, .finished result rest, { stream with buffer := rest })
  | .waiting n early next got =>
    let progress := .waiting n early next got
    if stream.finished then (.ready (.error (early got.length)), progress, { stream with buffer := [] })
    else (.pending, progress, { stream with buffer := [] })

inductive TcpReceive where
  | awaiting (response : Progress TransportError TcpResponse)
  | ready
  | failed

structure TcpTunnel where
  receive : TcpReceive
  stream : RecvStream

variable (texts : StreamTexts)

/-- `ProxyClient::tcp` in fast-open mode. -/
def TcpTunnel.fastOpen (stream : RecvStream) : TcpTunnel where
  receive := .awaiting ((readTcpResponse texts).feed [])
  stream

/-- `ProxyClient::tcp` otherwise: it waits for the answer. -/
def TcpTunnel.normalOpen (stream : RecvStream) : Poll (Except TransportError TcpTunnel) :=
  match stream.pollReader ((readTcpResponse texts).feed []) with
  | (.pending, _) => .pending
  | (.ready (.error error), _) => .ready (.error error)
  | (.ready (.ok response), _, stream) =>
    if response.ok then .ready (.ok { receive := .ready, stream }) else .ready (.error (.io response.message))

def TcpTunnel.pollRead (tunnel : TcpTunnel) (size piece : Nat) : Poll (Except Str (List UInt8)) × TcpTunnel :=
  match tunnel.receive with
  | .ready =>
    let (result, stream) := tunnel.stream.pollRead size piece
    (result, { tunnel with stream })
  | .awaiting response =>
    match tunnel.stream.pollReader response with
    | (.pending, response, stream) => (.pending, { receive := .awaiting response, stream })
    | (.ready (.error error), _, stream) => (.ready (.error error.display), { receive := .failed, stream })
    | (.ready (.ok response), _, stream) =>
      if response.ok then
        -- The loop goes on with the stream.
        let (result, stream) := stream.pollRead size piece
        (result, { receive := .ready, stream })
      else (.ready (.error response.message), { receive := .failed, stream })
  | .failed => (.ready (.error "TCP tunnel establishment failed"), tunnel)

end Hysteria.Impl
