import Hysteria.Framework.Inevitable
import Hysteria.Impl.Transport.MasqueradeStream

/-!
# Masquerade handlers and their input

A handler by itself, at a request whose body is there for it to read
(`SuppliedStep`); `Finishes` is a handler that comes to its end then. In
`CutOffStep` it gets nothing more of the body. `AnswersAfterBody`: the handler
has read the body when it answers, and needs no more of it. `Complete` is what a
request at a masquerade handler should come to.
-/

namespace Hysteria.Spec

open Framework Impl Relation

variable {η : Type}

/-- A handler with its whole input: what it has not read yet, and what it has
done so far. -/
structure Supplied (η : Type) where
  handler : η
  rest : List Chunk
  /-- Whether it has read the end of the body. -/
  ended : Bool
  dropped : Bool
  head : Option ResponseHead
  written : List (Except Str Chunk)
  finished : Bool

def Supplied.init (handler : Handler η) (request : HttpRequest) : Supplied η where
  handler := handler.init
  rest := request.body
  ended := false
  dropped := false
  head := none
  written := []
  finished := false

/-- What an action does; before the response is there, nobody takes what is written. -/
def Supplied.perform (capacity : Nat) (i : Supplied η) : HandlerAction → Option (Supplied η)
  | .internal => some i
  | .read (some chunk) =>
    if i.dropped = false ∧ i.rest.head? = some chunk then some { i with rest := i.rest.tail } else none
  | .read none => if i.dropped = false ∧ i.rest = [] then some { i with ended := true } else none
  | .drop => if i.dropped then none else some { i with dropped := true }
  | .answer head => if i.head.isNone then some { i with head := some head } else none
  | .write item =>
    if i.head.isSome || i.written.length < capacity then some { i with written := i.written ++ [item] } else none
  | .finish => some { i with finished := true, dropped := true }

inductive SuppliedStep (handler : Handler η) : Supplied η → Supplied η → Prop
  | mk {i j : Supplied η} {action : HandlerAction} {next : η} (hrunning : i.finished = false)
    (hstep : handler.step i.handler action next) (h : i.perform handler.capacity action = some j) :
    SuppliedStep handler i { j with handler := next }

/-- The same, when no more of the body comes: the end can be read again, and nothing else. -/
inductive CutOffStep (handler : Handler η) : Supplied η → Supplied η → Prop
  | mk {i j : Supplied η} {action : HandlerAction} {next : η} (hrunning : i.finished = false)
    (hread : ∀ item, action = .read item → i.ended = true) (hstep : handler.step i.handler action next)
    (h : i.perform handler.capacity action = some j) : CutOffStep handler i { j with handler := next }

/-- The handler has answered and has come to its end. -/
def Supplied.Ended (i : Supplied η) : Prop := i.finished = true ∧ i.head.isSome

/-- The response's body is complete, or ends with an error. -/
def Supplied.Settled (i : Supplied η) : Prop := i.finished = true ∨ ∃ error, .error error ∈ i.written

/-- With its whole input, the handler comes to its end. -/
def Finishes (handler : Handler η) (request : HttpRequest) : Prop :=
  Inevitable (SuppliedStep handler) Supplied.Ended (.init handler request)

/-- The handler does not answer before it has read every chunk; and when it
then streams a body, it completes that with no more input than it has had. -/
def AnswersAfterBody (handler : Handler η) (request : HttpRequest) : Prop :=
  ∀ i j head, ReflTransGen (SuppliedStep handler) (.init handler request) i → i.head = none →
    SuppliedStep handler i j → j.head = some head →
    i.rest = [] ∧ (bodyAllowed head.status (request.method = .head) = true → head.streams = true →
      Inevitable (CutOffStep handler) Supplied.Settled j)

/-- The body of a response, up to an error of its stream. -/
def output (head : ResponseHead) (written : List (Except Str Chunk)) : List UInt8 :=
  head.body ++ if head.streams then (sendBodyStream written).1.flatten else []

/-- The function has returned. Every chunk of the request's body was offered to
the handler, in order, and the body sent is the handler's output, which it has
completed; where a response has no body, nothing is sent. -/
def Complete (request : HttpRequest) (s : Exchange η) : Prop :=
  ∃ head sent result, s.main = .returned head sent result ∧ s.offered = request.body ∧
    if bodyAllowed head.status (request.method = .head) then
      sent.data.flatten = output head s.written ∧
        (head.streams = true → s.finished = true ∨ ∃ error, .error error ∈ s.written)
    else sent.data = []

end Hysteria.Spec
