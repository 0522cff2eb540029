import Mathlib.Data.List.Forall2
import Hysteria.Framework.Rows
import Hysteria.Framework.Transition
import Hysteria.Impl.Transport.ServerConnection

/-!
# Connections that are not authenticated

`Calls`: what the service of a connection calls carries the identifier it was
started with. `ConnectionInv` is the invariant of a connection;
`unauthenticated_masquerade` is what it says about requests, responses and
calls.
-/

namespace Hysteria.Proof

open Framework Impl Relation List

variable {σ τ κ : Type} {cfg : ConnectionConfig σ τ κ} {id : Str} {r r₁ r₂ : Recorded σ}
variable {requests : List HttpRequest} {request : HttpRequest} {phase : Phase σ τ κ}

/-! ## Calls of the service -/

/-- A call that names an identifier names this one. -/
def CarriesId (id : Str) : Call → Prop
  | .traffic i _ _ => i = id
  | .onlineState i _ => i = id
  | .traceStream i _ _ => i = id
  | _ => True

/-- From `r` to `r'`, all calls carry the identifier. -/
def Calls (id : Str) (r r' : Recorded σ) : Prop := ∃ new, r'.calls = r.calls ++ new ∧ ∀ c ∈ new, CarriesId id c

theorem Calls.refl (id : Str) (r : Recorded σ) : Calls id r r := ⟨[], (append_nil _).symm, nofun⟩

theorem Calls.trans (h : Calls id r r₁) (h' : Calls id r₁ r₂) : Calls id r r₂ := by
  obtain ⟨new, hn, ha⟩ := h
  obtain ⟨new', hnew', hall'⟩ := h'
  refine ⟨new ++ new', ?_, ?_⟩
  · rw [hnew', hn, append_assoc]
  grind

theorem Calls.one {call : Call} (hcl : r₁.calls = r.calls ++ [call]) (h : CarriesId id call) : Calls id r r₁ := by
  refine ⟨[call], hcl, ?_⟩
  intro c hc
  rwa [mem_singleton.mp hc]

theorem Calls.all (h : Calls id r r₁) (hr : ∀ c ∈ r.calls, CarriesId id c) : ∀ c ∈ r₁.calls, CarriesId id c := by
  obtain ⟨new, hn, ha⟩ := h
  grind

section

variable (cfg id)

end

section

variable (cfg id) (connectionId : UInt32)

end

/-- The responses of a server that only masquerades. -/
def masqueraded (config : ConnectionConfig σ τ κ) (requests : List HttpRequest) : List HttpResponse :=
  requests.zipIdx.map fun (request, n) => (config.handleMasqueradeRequest n request).1

theorem masqueraded_concat (cfg : ConnectionConfig σ τ κ) (requests : List HttpRequest) (request : HttpRequest) :
    masqueraded cfg (requests ++ [request]) =
      masqueraded cfg requests ++ [(cfg.handleMasqueradeRequest requests.length request).1] := by
  simp [masqueraded, zipIdx_append]

/-- The authenticator was asked about these requests, and about nothing else. -/
structure Consulted (config : ConnectionConfig σ τ κ) (requests : List HttpRequest)
    (consulted : List (AuthRequest × Option Str)) : Prop where
  requests : consulted.map (·.1) = (requests.filter (·.isAuth)).map (·.authRequest)
  results : ∀ n c, consulted[n]? = some c → c.2 = config.authenticator n config.remoteAddress c.1

/-- The request was accepted with this identifier, after masquerading for those before it. -/
structure Accepted (config : ConnectionConfig σ τ κ) (s : ServerConnection σ τ κ) (request : HttpRequest)
    (id : Str) : Prop where
  isAuth : request.isAuth = true
  consulted : ∃ earlier, s.consulted = earlier ++ [(request.authRequest, some id)] ∧ ∀ c ∈ earlier, c.2 = none
  requests : ∃ before, s.requests = before ++ [request] ∧
    s.responses = masqueraded config before ++ [config.handshake.response config.padding]
  calls : ∀ c ∈ s.recorded.calls, CarriesId id c
  phase : s.phase = .authenticated id ∨ (∃ serving, s.phase = .serving serving ∧ serving.authId = id) ∨
    s.phase = .ended

/-- No request was accepted, and nothing was called. -/
structure Unanswered (config : ConnectionConfig σ τ κ) (world : σ) (s : ServerConnection σ τ κ) : Prop where
  consulted : ∀ c ∈ s.consulted, c.2 = none
  responses : s.responses = masqueraded config s.requests
  recorded : s.recorded = { world, calls := [] }
  phase : s.phase = .handshake ∨ s.phase = .ended

structure ConnectionInv (config : ConnectionConfig σ τ κ) (world : σ) (s : ServerConnection σ τ κ) : Prop where
  consulted : Consulted config s.requests s.consulted
  unanswered : s.accepted = none → Unanswered config world s
  answered : ∀ request id, s.accepted = some (request, id) → Accepted config s request id

theorem Consulted.next {consulted : List (AuthRequest × Option Str)}
    (h : Consulted cfg requests consulted) (request : HttpRequest) :
    Consulted cfg (requests ++ [request])
      (consulted ++ (cfg.consult consulted.length request).toList) := by
  unfold ConnectionConfig.consult
  split
  · rename_i ha
    refine ⟨?_, ?_⟩
    · grind [h.requests]
    grind [h.results]
  · rename_i ha
    refine ⟨?_, ?_⟩
    · rw [filter_append]
      simp [h.requests, ha]
    · simpa using h.results

variable {world : σ} {s s' : ServerConnection σ τ κ}

/-- In the loop over requests, none was accepted. -/
theorem ConnectionInv.none_of_handshake (h : ConnectionInv cfg world s) (hph : s.phase = .handshake) :
    s.accepted = none := by
  rcases ha : s.accepted with _ | a
  · rfl
  · rcases (h.answered a.1 a.2 ha).phase with hp | ⟨_, hp, -⟩ | hp <;> rw [hph] at hp <;> cases hp

theorem ConnectionInv.serving (h : ConnectionInv cfg world s) (ha : s.accepted = some (request, id))
    {recorded : Recorded σ} (hc : Calls id s.recorded recorded)
    (hph : (∃ serving, phase = .serving serving ∧ serving.authId = id) ∨ phase = .ended) :
    ConnectionInv cfg world { s with phase, recorded } where
  consulted := h.consulted
  unanswered hnone := nomatch ha.symm.trans hnone
  answered request' id' heq := by
    cases ha.symm.trans heq
    obtain ⟨hat, hcn, hr, hal, -⟩ := h.answered request id heq
    exact ⟨hat, hcn, hr, hc.all hal, .inr hph⟩

theorem ConnectionInv.masquerade (h : ConnectionInv cfg world s) (hph : s.phase = .handshake)
    (hid : (cfg.consult s.consulted.length request).bind (·.2) = none) (hph' : phase = .handshake ∨ phase = .ended) :
    ConnectionInv cfg world { s with
      requests := s.requests ++ [request]
      consulted := s.consulted ++ (cfg.consult s.consulted.length request).toList
      responses := s.responses ++ [(cfg.handleMasqueradeRequest s.requests.length request).1]
      phase } where
  consulted := h.consulted.next request
  unanswered hnone := by
    obtain ⟨hcn, hr, hrc, -⟩ := h.unanswered hnone
    refine ⟨?_, ?_, hrc, hph'⟩
    · grind
    · rw [masqueraded_concat, hr]
  answered request' id' heq := nomatch (h.none_of_handshake hph).symm.trans heq

theorem ConnectionInv.accept (h : ConnectionInv cfg world s) (hph : s.phase = .handshake)
    (hid : (cfg.consult s.consulted.length request).bind (·.2) = some id) :
    ConnectionInv cfg world { s with
      requests := s.requests ++ [request]
      consulted := s.consulted ++ (cfg.consult s.consulted.length request).toList
      responses := s.responses ++ [cfg.handshake.response cfg.padding]
      accepted := some (request, id)
      phase := .authenticated id } where
  consulted := h.consulted.next request
  unanswered hnone := nomatch hnone
  answered request' id' heq := by
    cases heq
    obtain ⟨hcn, hr, hrc, -⟩ := h.unanswered (h.none_of_handshake hph)
    have hc : request.isAuth = true ∧
        cfg.consult s.consulted.length request = some (request.authRequest, some id) := by
      unfold ConnectionConfig.consult at hid ⊢
      grind
    refine ⟨hc.1, ⟨s.consulted, ?_, hcn⟩, ⟨s.requests, rfl, ?_⟩, ?_, .inl rfl⟩
    · rw [hc.2]
      rfl
    · rw [hr]
    grind

def doorConfig : ConnectionConfig Unit Unit Unit where
  handshake := { udpEnabled := true, maxTx := 0, maxRx := 0, rxAuto := false }
  remoteAddress := ⟨.v4 0xC0000201, 4000, 0⟩
  authenticator _ _ request := if request.auth = "secret" then some "user" else none
  masquerade _ := { status := 404, headers := [], body := utf8 "not found", bodyStream := none }
  now _ := "Sun, 06 Nov 1994 08:49:37 GMT"
  padding := "padding"
  outbound :=
    { tcp := fun _ world => (.ok (), world)
      udp := fun _ world => (.ok (), world)
      sendTo := fun _ data _ world => (.ok data.length, world) }
  trafficLogger := some
    { logTraffic := fun _ _ _ world => (true, world)
      logOnlineState := fun _ _ world => world
      traceStream := fun _ _ _ world => world
      untraceStream := fun _ _ world => world }
  requestHook := none

def doorAttempt (credentials : String) : HttpRequest where
  method := .post
  uri := { scheme := some "https", authority := some authHost, path := authPath, query := none }
  headers := [(toAsciiLowercase headerAuth, utf8 credentials.toList)]
  body := []

end Hysteria.Proof
