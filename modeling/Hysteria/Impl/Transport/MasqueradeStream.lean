import Hysteria.Impl.Transport.Handshake

/-!
# One request at the masquerade handler

`hysteria-transport`, `handshake.rs`: `handle_masquerade_request` next to a
handler that is a process. The two bodies go through bounded channels;
`ExchangeStep` is one step of the future `receive`, of the function itself or of
the handler. Neither stream of the request fails.
-/

namespace Hysteria.Impl

open Framework

variable {η : Type}

def masqueradeBodyChannelSize : Nat := 16

abbrev Chunk := List UInt8

/-! ## The handler -/

/-- `MasqueradeResponse`; `streams` says whether it has a `body_stream`. -/
structure ResponseHead where
  status : UInt16
  headers : HeaderMap
  body : Chunk
  streams : Bool
deriving DecidableEq

/-- The response, once its stream has carried these items. -/
def ResponseHead.response (head : ResponseHead) (items : List (Except Str Chunk)) : MasqueradeResponse where
  status := head.status
  headers := head.headers
  body := head.body
  bodyStream := if head.streams then some items else none

/-- What a handler, with the tasks it has started, does next. -/
inductive HandlerAction where
  | internal
  /-- `recv` on the request's body; it gives `none` at the end. -/
  | read (item : Option Chunk)
  /-- The request's body is dropped. -/
  | drop
  /-- `handle` is ready with the response. -/
  | answer (head : ResponseHead)
  /-- `send` on the response's body. -/
  | write (item : Except Str Chunk)
  /-- The last task ends; both bodies are dropped. -/
  | finish

/-- A handler at work on a request, and the capacity of the channel it makes for the response's body. -/
structure Handler (η : Type) where
  init : η
  step : η → HandlerAction → η → Prop
  capacity : Nat
  capacity_pos : 0 < capacity

/-! ## The exchange -/

/-- The future `receive`, at `recv_data` or at `send`, with what the peer has still to send. -/
inductive Receive where
  | receiving (rest : List Chunk)
  | sending (chunk : Chunk) (rest : List Chunk)
deriving DecidableEq

inductive MainState where
  /-- At the `select!`. -/
  | selecting (receive : Receive)
  /-- At `response.await`, when `receive` is done. -/
  | awaiting
  /-- In `send_masquerade_response`: before the head, and at the stream's `recv`. -/
  | responding (head : ResponseHead)
  | streaming (head : ResponseHead) (sent : HttpResponse)
  | returned (head : ResponseHead) (sent : HttpResponse) (result : Except TransportError Unit)

/-- The function, the handler and the channels between them; then the chunks
that went into the request's body and the items that went into the response's. -/
structure Exchange (η : Type) where
  main : MainState
  /-- Whether `body_sender` is alive. -/
  sender : Bool
  body : List Chunk
  /-- Whether the handler has dropped the request's body. -/
  dropped : Bool
  handler : η
  finished : Bool
  response : List (Except Str Chunk)
  offered : List Chunk
  written : List (Except Str Chunk)

def Exchange.init (handler : Handler η) (request : HttpRequest) : Exchange η where
  main := .selecting (.receiving request.body)
  sender := true
  body := []
  dropped := false
  handler := handler.init
  finished := false
  response := []
  offered := []
  written := []

/-- One step of `receive`, which is polled at the `select!` only. -/
def Exchange.receive (s : Exchange η) : Option (Exchange η) :=
  match s.main with
  | .selecting (.receiving (chunk :: rest)) => some { s with main := .selecting (.sending chunk rest) }
  | .selecting (.receiving []) => some { s with main := .awaiting, sender := false }
  | .selecting (.sending chunk rest) =>
    if s.dropped then some { s with main := .awaiting, sender := false }
    else if s.body.length < masqueradeBodyChannelSize then
      some { s with
        main := .selecting (.receiving rest), body := s.body ++ [chunk], offered := s.offered ++ [chunk] }
    else none
  | _ => none

/-- The head of the response, and its body if it has one at once. -/
def ResponseHead.send (head : ResponseHead) (now : Str) (suppressBody : Bool) : HttpResponse :=
  { (sendMasqueradeResponse now (head.response []) suppressBody).1 with finished := false }

/-- One step of `send_masquerade_response`. What the function holds is dropped when it returns. -/
def Exchange.respond (now : Str) (suppressBody : Bool) (s : Exchange η) : Option (Exchange η) :=
  match s.main with
  | .responding head =>
    if bodyAllowed head.status suppressBody && head.streams then
      some { s with main := .streaming head (head.send now suppressBody) }
    else
      some { s with
        main := .returned head { head.send now suppressBody with finished := true } (.ok ()), sender := false }
  | .streaming head sent =>
    match s.response with
    | .ok chunk :: rest =>
      some { s with main := .streaming head { sent with data := sent.data ++ [chunk] }, response := rest }
    | .error error :: rest =>
      some { s with main := .returned head sent (.error (.http3Stream error)), sender := false, response := rest }
    | [] =>
      if s.finished then
        some { s with main := .returned head { sent with finished := true } (.ok ()), sender := false }
      else none
  | _ => none

/-- What an action of the handler does to the exchange; `none` while it has to wait. -/
def Exchange.perform (capacity : Nat) (s : Exchange η) : HandlerAction → Option (Exchange η)
  | .internal => some s
  | .read (some chunk) =>
    if s.dropped = false ∧ s.body.head? = some chunk then some { s with body := s.body.tail } else none
  | .read none => if s.dropped = false ∧ s.body = [] ∧ s.sender = false then some s else none
  | .drop => if s.dropped then none else some { s with dropped := true, body := [] }
  | .answer head =>
    match s.main with
    | .selecting _ | .awaiting => some { s with main := .responding head }
    | _ => none
  | .write item =>
    match s.main with
    -- The receiver is gone, and `send` fails at once.
    | .returned .. => some s
    | _ =>
      if s.response.length < capacity then
        some { s with response := s.response ++ [item], written := s.written ++ [item] }
      else none
  | .finish => some { s with finished := true, dropped := true, body := [] }

inductive ExchangeStep (handler : Handler η) (now : Str) (request : HttpRequest) : Exchange η → Exchange η → Prop
  | receive {s t : Exchange η} (h : s.receive = some t) : ExchangeStep handler now request s t
  | respond {s t : Exchange η} (h : s.respond now (request.method = .head) = some t) :
    ExchangeStep handler now request s t
  | handler {s t : Exchange η} {action : HandlerAction} {next : η} (hrunning : s.finished = false)
    (hstep : handler.step s.handler action next) (h : s.perform handler.capacity action = some t) :
    ExchangeStep handler now request s { t with handler := next }

end Hysteria.Impl
