import Hysteria.Impl.Transport.RequestLoop
import Hysteria.Proof.Transport.Authentication

/-!
# Streams that fail before authentication

The loop over requests returns at the first stream that fails. So a request that
could be answered is answered exactly if no stream before it has failed, up to
the request that authenticates the connection (`streamLocal_iff`). Without failures
the loop is a run of the connection's model (`run_connectionStep`).
-/

namespace Hysteria.Proof

open Framework Relation Impl List

variable {σ τ κ : Type} {loop : RequestLoop σ τ κ} {n asked : Nat} {stream : RequestStream}
variable {k : Nat} {resp : HttpResponse} {req : HttpRequest}

/-! ## Sends -/

theorem sendCalls_none (calls : List StreamCall) : sendCalls none calls = (calls, .ok ()) := by
  induction calls with
  | nil => rfl
  | cons call calls ih => simp only [sendCalls, ih]

theorem sendCalls_of_le (err : Str) (calls : List StreamCall) (h : calls.length ≤ k) :
    sendCalls (some (k, err)) calls = (calls, .ok ()) := by
  induction calls generalizing k with
  | nil => rfl
  | cons call calls ih =>
    rcases k with _ | k
    · cases h
    · simp only [sendCalls, ih (Nat.le_of_succ_le_succ h)]

theorem sendCalls_of_lt (err : Str) (calls : List StreamCall) (h : k < calls.length) :
    sendCalls (some (k, err)) calls = (calls.take k, .error (.http3Stream err)) := by
  induction calls generalizing k with
  | nil => cases h
  | cons call calls ih =>
    rcases k with _ | k
    · rfl
    grind [sendCalls]

theorem send_of_reset {err : Str} (hr : stream.reset = some (k, err)) (h : k < resp.calls.length)
    (res : Except TransportError Unit) : stream.send resp res = (resp.calls.take k, .error (.http3Stream err)) := by
  rw [RequestStream.send, hr, sendCalls_of_lt err _ h]

theorem send_of_not_reset (h : ∀ k err, stream.reset = some (k, err) → resp.calls.length ≤ k)
    (res : Except TransportError Unit) : stream.send resp res = (resp.calls, res) := by
  rw [RequestStream.send]
  rcases hr : stream.reset with _ | reset
  · rw [sendCalls_none]
  · rw [sendCalls_of_le reset.2 _ (h reset.1 reset.2 hr)]

theorem send_error (stream : RequestStream) (resp : HttpResponse) (err : TransportError) :
    ∃ sent err', stream.send resp (.error err) = (sent, .error err') := by
  rw [RequestStream.send]
  rcases sendCalls stream.reset resp.calls with ⟨sent, _ | _⟩
  · exact ⟨sent, _, rfl⟩
  · exact ⟨sent, err, rfl⟩

/-- The body of a response ends with an error, or is sent as a whole. -/
theorem sendBodyStream_cases (cs : List (Except Str (List UInt8))) :
    ((∃ err, .error err ∈ cs) ∧ ∃ err, (sendBodyStream cs).2 = .error err) ∨
      (∀ err, .error err ∉ cs) ∧ (sendBodyStream cs).2 = .ok () := by
  induction cs with
  | nil => exact .inr ⟨fun _ => not_mem_nil, rfl⟩
  | cons chunk cs ih =>
    rcases chunk with err | bs
    · exact .inl ⟨⟨err, mem_cons_self⟩, _, rfl⟩
    rcases ih with ⟨⟨err, hm⟩, hr⟩ | ⟨hn, hr⟩
    · exact .inl ⟨⟨err, mem_cons_of_mem _ hm⟩, hr⟩
    refine .inr ⟨fun err hm => ?_, hr⟩
    grind

/-! ## One request -/

/-- The response that is due to a request, and the identifier if it authenticates
the connection. -/
def due (loop : RequestLoop σ τ κ) (n asked : Nat) (stream : RequestStream) (request : HttpRequest) :
    HttpResponse × Option Str :=
  match (loop.consult asked request).bind (·.2) with
  | some authId => (loop.handshake.response loop.padding, some authId)
  | none =>
    ((sendMasqueradeResponse (loop.now n) (loop.handle request stream.bodyError) (request.method = .head)).1, none)

/-- A stream fails: its request is malformed or cut off, or the peer resets it
before the end of the response, or the masquerade body ends with an error. -/
inductive StreamFails (loop : RequestLoop σ τ κ) (n asked : Nat) (stream : RequestStream) : Prop
  | malformed {error : Str} (hresolved : stream.resolved = .error error)
  | reset (request : HttpRequest) {k : Nat} {error : Str} (hresolved : stream.resolved = .ok request)
    (hreset : stream.reset = some (k, error)) (hearly : k < (due loop n asked stream request).1.calls.length)
  | body (request : HttpRequest) {error : Str} (hresolved : stream.resolved = .ok request)
    (hconsult : (loop.consult asked request).bind (·.2) = none)
    (hallowed : bodyAllowed (loop.handle request stream.bodyError).status (request.method = .head) = true)
    (herror : .error error ∈ (loop.handle request stream.bodyError).bodyStream.getD [])

theorem sendMasqueradeResponse_snd (now : Str) (resp : MasqueradeResponse) (suppressBody : Bool) :
    (sendMasqueradeResponse now resp suppressBody).2 =
      if bodyAllowed resp.status suppressBody then (sendBodyStream (resp.bodyStream.getD [])).2
      else .ok () := by
  unfold sendMasqueradeResponse
  simp only
  split <;> rfl

theorem round_of_fails (h : StreamFails loop n asked stream) :
    ∃ sent err, loop.round n asked stream = (sent, .error err) := by
  unfold RequestLoop.round
  cases h with
  | malformed hr =>
    rw [hr]
    exact ⟨_, _, rfl⟩
  | reset req hr hrs hearly =>
    rw [hr]
    unfold due at hearly
    cases hc : (loop.consult asked req).bind (·.2) with
    | some authId =>
      rw [hc] at hearly
      simp only [hc, send_of_reset hrs hearly]
      exact ⟨_, _, rfl⟩
    | none =>
      rw [hc] at hearly
      simp only [hc, RequestLoop.handleMasqueradeRequest, send_of_reset hrs hearly]
      exact ⟨_, _, rfl⟩
  | body req hr hc ha he =>
    obtain ⟨err, hrl⟩ := (sendBodyStream_cases _).elim (·.2) fun h => absurd he (h.1 _)
    have hm := sendMasqueradeResponse_snd (loop.now n) (loop.handle req stream.bodyError)
      (req.method = .head)
    rw [if_pos ha, hrl] at hm
    obtain ⟨sent, err', hs⟩ := send_error stream (sendMasqueradeResponse (loop.now n)
      (loop.handle req stream.bodyError) (req.method = .head)).1 err
    rw [hr]
    simp only [hc, RequestLoop.handleMasqueradeRequest, hm, hs]
    exact ⟨_, _, rfl⟩

theorem round_of_not_fails (h : ¬ StreamFails loop n asked stream) :
    ∃ req, stream.resolved = .ok req ∧ loop.round n asked stream =
      ((due loop n asked stream req).1.calls, .ok (due loop n asked stream req).2) := by
  rcases hrs : stream.resolved with err | req
  · exact absurd (.malformed hrs) h
  refine ⟨req, rfl, ?_⟩
  have hs : ∀ k err, stream.reset = some (k, err) → (due loop n asked stream req).1.calls.length ≤ k :=
    fun k err hrt => Nat.le_of_not_lt fun hearly => h (.reset req hrs hrt hearly)
  unfold RequestLoop.round
  unfold due at hs ⊢
  rw [hrs]
  cases hc : (loop.consult asked req).bind (·.2) with
  | some authId =>
    rw [hc] at hs
    simp only [hc, send_of_not_reset hs]
    rfl
  | none =>
    rw [hc] at hs
    have hr : (sendMasqueradeResponse (loop.now n) (loop.handle req stream.bodyError)
        (req.method = .head)).2 = .ok () := by
      rw [sendMasqueradeResponse_snd]
      split
      · rename_i ha
        rcases sendBodyStream_cases ((loop.handle req stream.bodyError).bodyStream.getD []) with
          ⟨⟨err, he⟩, -⟩ | ⟨-, hr⟩
        · exact absurd (.body req hrs hc ha he) h
        · exact hr
      · rfl
    simp only [hc, RequestLoop.handleMasqueradeRequest, send_of_not_reset hs, hr]
    rfl

/-! ## The loop -/

/-- The calls of the authenticator for some streams. -/
def askedBy (streams : List RequestStream) : Nat := (streams.map RequestStream.asks).sum

theorem asked_cons (asked : Nat) (first : RequestStream) (streams : List RequestStream) :
    asked + first.asks + askedBy streams = asked + askedBy (first :: streams) := by
  rw [askedBy, askedBy, map_cons, sum_cons, Nat.add_assoc]

theorem number_cons (n : Nat) (first : RequestStream) (streams : List RequestStream) :
    n + 1 + streams.length = n + (first :: streams).length := by
  rw [length_cons, Nat.add_assoc, Nat.add_comm 1]

/-- Nothing is sent on the streams after one that fails. -/
theorem length_run_of_fails (before after : List RequestStream)
    (h : StreamFails loop (n + before.length) (asked + askedBy before) stream) :
    (loop.run n asked (before ++ stream :: after)).1.length ≤ before.length + 1 := by
  induction before generalizing n asked with
  | nil =>
    obtain ⟨sent, err, hr⟩ := round_of_fails h
    rw [nil_append, RequestLoop.run, show loop.round n asked stream = _ from hr]
    exact Nat.le_refl _
  | cons first before ih =>
    rw [cons_append, RequestLoop.run]
    rcases loop.round n asked first with ⟨sent, _ | _ | authId⟩
    · exact Nat.succ_le_succ (Nat.zero_le _)
    · grind [number_cons, asked_cons]
    · exact Nat.succ_le_succ (Nat.zero_le _)

/-- The loop comes to a stream if no stream before it has failed or authenticated
the connection. -/
theorem run_through (before after : List RequestStream) (h : ∀ b stream a, before = b ++ stream :: a →
      ∃ sent, loop.round (n + b.length) (asked + askedBy b) stream = (sent, .ok none)) :
    ∃ sent, sent.length = before.length ∧ loop.run n asked (before ++ after) =
      (sent ++ (loop.run (n + before.length) (asked + askedBy before) after).1,
        (loop.run (n + before.length) (asked + askedBy before) after).2) := by
  induction before generalizing n asked with
  | nil => exact ⟨[], rfl, rfl⟩
  | cons first before ih =>
    obtain ⟨sent, hr⟩ := h [] first before rfl
    have hrs : ∀ b stream a, before = b ++ stream :: a →
        ∃ sent, loop.round (n + 1 + b.length) (asked + first.asks + askedBy b) stream = (sent, .ok none) := by
      grind [number_cons, asked_cons]
    obtain ⟨more, hl, hrn⟩ := ih hrs
    refine ⟨sent :: more, congrArg Nat.succ hl, ?_⟩
    rw [← number_cons, ← asked_cons, cons_append, RequestLoop.run, show loop.round n asked first = _ from hr, hrn]
    rfl

/-- A stream that does not fail is answered when the loop comes to it. -/
theorem run_of_not_fails (after : List RequestStream)
    (hrs : stream.resolved = .ok req) (h : ¬ StreamFails loop n asked stream) :
    (∃ more, (loop.run n asked (stream :: after)).1 = (due loop n asked stream req).1.calls :: more) ∧
      ∀ authId, (due loop n asked stream req).2 = some authId →
        (loop.run n asked (stream :: after)).2 = .ok (some authId) := by
  obtain ⟨req', hres', hr⟩ := round_of_not_fails h
  cases hrs.symm.trans hres'
  rw [RequestLoop.run, hr]
  cases hd : (due loop n asked stream req).2 with
  | some authId => simp
  | none => simp

/-! ## Streams without failures -/

/-- The peer and the network leave the stream alone. -/
structure LeftAlone (stream : RequestStream) (request : HttpRequest) : Prop where
  resolved : stream.resolved = .ok request
  bodyError : stream.bodyError = none
  reset : stream.reset = none

/-- What `ConnectionStep` has for the result of the loop. -/
def phaseOf : Except TransportError (Option Str) → Phase σ τ κ
  | .ok none => .handshake
  | .ok (some authId) => .authenticated authId
  | .error _ => .ended

theorem length_consult (cfg : ConnectionConfig σ τ κ) (n : Nat) (req : HttpRequest) :
    (cfg.consult n req).toList.length = if req.isAuth then 1 else 0 := by
  unfold ConnectionConfig.consult
  split <;> rfl

/-- A request that does not authenticate the connection is one step of it. -/
theorem exists_masqueradeStep {s : ServerConnection σ τ κ} (hr : stream.resolved = .ok req)
    (hph : s.phase = .handshake) (hid : (loop.consult s.consulted.length req).bind (·.2) = none) :
    ∃ s', ConnectionStep loop.toConnectionConfig s s' ∧
      s'.phase = (if (loop.toConnectionConfig.handleMasqueradeRequest s.requests.length req).2.isOk
        then .handshake else .ended) ∧
      s'.requests.length = s.requests.length + 1 ∧ s'.consulted.length = s.consulted.length + stream.asks ∧
      s'.responses =
        s.responses ++ [(loop.toConnectionConfig.handleMasqueradeRequest s.requests.length req).1] := by
  refine ⟨_, .masquerade req hph hid, rfl, length_append, ?_, rfl⟩
  simp only [length_append, length_consult, RequestStream.asks, hr]

/-- On streams that are left alone the loop is a run of the connection. -/
theorem run_connectionStep (streams : List RequestStream)
    (hst : ∀ stream ∈ streams, ∃ req, LeftAlone stream req) (s : ServerConnection σ τ κ)
    (hph : s.phase = .handshake) (hn : s.requests.length = n) (ha : s.consulted.length = asked) :
    ∃ s', ReflTransGen (ConnectionStep loop.toConnectionConfig) s s' ∧
      s'.responses.map HttpResponse.calls = s.responses.map HttpResponse.calls ++ (loop.run n asked streams).1 ∧
      s'.phase = phaseOf (loop.run n asked streams).2 := by
  induction streams generalizing s n asked with
  | nil => exact ⟨s, .refl, (append_nil _).symm, hph⟩
  | cons stream streams ih =>
    obtain ⟨req, hrs, hb, hrt⟩ := hst stream mem_cons_self
    have hsn (resp : HttpResponse) (res : Except TransportError Unit) : stream.send resp res = (resp.calls, res) :=
      send_of_not_reset (fun k err h => by cases hrt.symm.trans h) res
    subst hn ha
    rw [RequestLoop.run, RequestLoop.round, hrs]
    simp only [RequestLoop.handleMasqueradeRequest, hsn, hb, RequestLoop.handle]
    cases hid : (loop.consult s.consulted.length req).bind (·.2) with
    | some authId =>
      refine ⟨_, .single (.accept hph hid), ?_, rfl⟩
      simp only [map_append]
      rfl
    | none =>
      obtain ⟨s₁, hs, hph₁, hreqs₁, hcons₁, hresps₁⟩ := exists_masqueradeStep hrs hph hid
      unfold ConnectionConfig.handleMasqueradeRequest at hph₁ hresps₁
      -- The masquerade's body may end the connection too.
      cases hr : (sendMasqueradeResponse (loop.now s.requests.length)
          (loop.masquerade (loop.masqueradeRequest req)) (req.method = .head)).2 with
      | error err =>
        rw [hr] at hph₁
        refine ⟨s₁, .single hs, ?_, hph₁⟩
        rw [hresps₁, map_append]
        rfl
      | ok u =>
        rw [hr] at hph₁
        obtain ⟨s', hrn, hrp, hph'⟩ := ih (fun stream h => hst stream (mem_cons_of_mem _ h)) s₁ hph₁ hreqs₁ hcons₁
        refine ⟨s', .head hs hrn, ?_, hph'⟩
        rw [hrp, hresps₁, map_append, append_assoc]
        rfl

/-! ## Failures and later requests -/

/-- A stream authenticates the connection. -/
def Authenticates (loop : RequestLoop σ τ κ) (n asked : Nat) (stream : RequestStream) : Prop :=
  ¬ StreamFails loop n asked stream ∧
    ∃ request authId, stream.resolved = .ok request ∧ (due loop n asked stream request).2 = some authId

/-- None of the streams authenticates the connection. -/
def NoneAuthenticates (loop : RequestLoop σ τ κ) (streams : List RequestStream) : Prop :=
  ∀ before stream after, streams = before ++ stream :: after →
    ¬ Authenticates loop before.length (askedBy before) stream

/-- Whatever streams fail, a request on a stream that does not is answered, and
authenticates the connection if it is valid, unless one before it already has. -/
def StreamLocal (loop : RequestLoop σ τ κ) (streams : List RequestStream) : Prop :=
  ∀ before stream after request, streams = before ++ stream :: after → stream.resolved = .ok request →
    ¬ StreamFails loop before.length (askedBy before) stream → NoneAuthenticates loop before →
    (authenticateServerConnection loop streams).1[before.length]? =
        some (due loop before.length (askedBy before) stream request).1.calls ∧
      ∀ authId, (due loop before.length (askedBy before) stream request).2 = some authId →
        (authenticateServerConnection loop streams).2 = .ok (some authId)

/-- Before the connection is authenticated, only streams that fail come after one
that fails. -/
def FailuresLast (loop : RequestLoop σ τ κ) (streams : List RequestStream) : Prop :=
  ∀ before failed between stream after, streams = before ++ failed :: between ++ stream :: after →
    StreamFails loop before.length (askedBy before) failed → NoneAuthenticates loop (before ++ failed :: between) →
    StreamFails loop (before ++ failed :: between).length (askedBy (before ++ failed :: between)) stream

/-- The loop answers what comes before the first failure, and nothing after it. -/
theorem streamLocal_iff (loop : RequestLoop σ τ κ) (streams : List RequestStream) :
    StreamLocal loop streams ↔ FailuresLast loop streams := by
  constructor
  · intro h before failed between stream after heq hf hn
    by_contra hh
    obtain ⟨req, hr, -⟩ := round_of_not_fails hh
    have ha := (h (before ++ failed :: between) stream after req heq hr hh hn).1
    -- The answer would stand after the last one that is given.
    have hl : (authenticateServerConnection loop streams).1.length ≤ before.length + 1 := by
      rw [heq, append_assoc]
      exact length_run_of_fails before _ (by rwa [Nat.zero_add, Nat.zero_add])
    grind
  · intro h before stream after req heq hr hh hn
    have hb : ∀ b first a, before = b ++ first :: a →
        ∃ sent, loop.round (0 + b.length) (0 + askedBy b) first = (sent, .ok none) := by
      rintro b first a rfl
      rw [Nat.zero_add, Nat.zero_add]
      have hfs : ¬ StreamFails loop b.length (askedBy b) first :=
        fun hf => hh (h b first a stream after heq hf hn)
      obtain ⟨req', hres', hrn⟩ := round_of_not_fails hfs
      cases hd : (due loop b.length (askedBy b) first req').2 with
      | some authId => exact absurd ⟨hfs, req', authId, hres', hd⟩ (hn b first a rfl)
      | none => exact ⟨_, hd ▸ hrn⟩
    obtain ⟨sent, hl, hru⟩ := run_through before (stream :: after) hb
    obtain ⟨⟨more, hs⟩, hrs⟩ := run_of_not_fails after hr hh
    simp_all [authenticateServerConnection]

/-! A request that is cut off, and then one with valid credentials. -/

def doorLoop : RequestLoop Unit Unit Unit where
  toConnectionConfig := doorConfig
  masqueradeBroken _ _ := { status := 400, headers := [], body := [], bodyStream := none }

def cutOff : RequestStream := ⟨.error "stream reset", none, none⟩

def login : RequestStream := ⟨.ok (doorAttempt "secret"), none, none⟩

theorem login_not_fails : ¬ StreamFails doorLoop 1 0 login := by
  intro h
  cases h with
  | malformed hr => cases hr
  | reset req hr hrs hearly => cases hrs
  | body req hr hc ha he =>
    cases hr
    exact absurd hc (by decide)

theorem cutOff_ends_connection : (authenticateServerConnection doorLoop [login]).2 = .ok (some "user".toList) ∧
      authenticateServerConnection doorLoop [cutOff, login] = ([[]], .error (.http3Stream "stream reset".toList)) ∧
      ¬ StreamLocal doorLoop [cutOff, login] := by
  refine ⟨by decide, rfl, fun h => ?_⟩
  have hn : NoneAuthenticates doorLoop [cutOff] := by
    intro before stream after heq ha
    rcases before with _ | ⟨first, before⟩
    · cases heq
      exact ha.1 (.malformed rfl)
    · exact absurd (cons.inj heq).2.symm (append_ne_nil_of_right_ne_nil _ (cons_ne_nil _ _))
  have han := (h [cutOff] login [] _ rfl rfl login_not_fails hn).1
  cases han

end Hysteria.Proof
