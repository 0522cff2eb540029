import Hysteria.Impl.Transport.ServerSession

/-!
# Where a session sends

`reassembled` are the messages the task puts together from its events,
`forwards` what it passes to its socket. `forwards_relay`: in the relay loop
these are some of the messages, in order, each to the address it carries.
`forwards_first`: from the start, the first one goes to the address that the
request hook left in it.
-/

namespace Hysteria.Proof

open Framework Impl List

variable {σ τ κ : Type} {ctx : ServerUdpContext σ τ κ} {sid : UInt32}

/-- The messages from the client among the events. -/
def clientMessages (events : List SessionEvent) : List UdpMessage := events.filterMap fun
    | .client message => message
    | _ => none

/-- The complete messages among the events, for a task with this reassembler. -/
def reassembled (defragger : Defragger) (events : List SessionEvent) : List UdpMessage :=
  (defragger.feedAll (clientMessages events)).filterMap id

/-- What is passed to the socket. -/
def forwards (actions : List (SessionAction τ)) : List (τ × List UInt8 × Str) := actions.filterMap fun
    | .forward socket data address => some (socket, data, address)
    | _ => none

/-- A message to the address it carries. -/
def toOwnAddress (socket : τ) (message : UdpMessage) : τ × List UInt8 × Str := (socket, message.data, message.address)

theorem forwards_append (xs ys : List (SessionAction τ)) : forwards (xs ++ ys) = forwards xs ++ forwards ys :=
  filterMap_append

theorem reassembled_other {df : Defragger} {ev : SessionEvent} {evs : List SessionEvent}
    (h : ∀ msg, ev ≠ .client (some msg)) : reassembled df (ev :: evs) = reassembled df evs := by
  cases ev with
  | client msg =>
    rcases msg with _ | msg
    · rfl
    · exact absurd rfl (h msg)
  | _ => rfl

theorem reassembled_client (df : Defragger) (msg : UdpMessage) (evs : List SessionEvent) :
    reassembled df (.client (some msg) :: evs) =
      (df.feed msg).1.toList ++ reassembled (df.feed msg).2 evs := by
  simp only [reassembled, clientMessages, filterMap_cons, Defragger.feedAll]
  cases (df.feed msg).1 <;> simp

/-- The outbound let messages to this address pass. -/
def Passed (context : ServerUdpContext σ τ κ) (address : Str) : Prop :=
  ∃ w w', context.outbound.checkUdp address w = (.ok (), w')

/-- A task that has left its loops does nothing. -/
theorem runSession_done {st : SessionState τ} (h : st = .removing ∨ st = .finished) (evs : List SessionEvent)
    (world : σ) : runSession ctx sid st evs world = (st, world, []) := by
  induction evs with
  | nil => rfl
  | cons ev evs ih =>
    have hs : sessionStep ctx sid st ev world = (st, world, []) := by
      rcases h with rfl | rfl <;> cases ev <;> rfl
    rw [runSession, hs]
    simp only [ih, append_nil]

/-- The actions of a run are those of its first step and those of the rest. -/
theorem actions_cons (st : SessionState τ) (ev : SessionEvent) (evs : List SessionEvent) (world : σ) :
    (runSession ctx sid st (ev :: evs) world).2.2 = (sessionStep ctx sid st ev world).2.2 ++
      (runSession ctx sid (sessionStep ctx sid st ev world).1 evs
        (sessionStep ctx sid st ev world).2.1).2.2 := rfl

/-! ## The relay loop -/

theorem relayClient_forwards (ctx : ServerUdpContext σ τ κ) (df : Defragger) (sock : τ) (msg : UdpMessage) (world : σ) :
    (relayClient ctx df sock msg world).1 = .relay (df.feed msg).2 sock ∧
      ∃ ms : List UdpMessage, ms.Sublist (df.feed msg).1.toList ∧ (∀ m ∈ ms, Passed ctx m.address) ∧
        forwards (relayClient ctx df sock msg world).2.2 = ms.map (toOwnAddress sock) := by
  unfold relayClient
  split
  · rename_i hf
    exact ⟨by rw [hf], [], nil_sublist _, nofun, rfl⟩
  rename_i m d hf
  split
  · exact ⟨by rw [hf], [], nil_sublist _, nofun, rfl⟩
  rename_i w' hc
  refine ⟨by rw [hf], [m], ?_, ?_, rfl⟩
  · rw [hf]
    exact List.Sublist.refl _
  intro m' hm'
  obtain rfl := mem_singleton.mp hm'
  exact ⟨world, w', hc⟩

theorem relayRemote_forwards (ctx : ServerUdpContext σ τ κ) (sid : UInt32) (df : Defragger)
    (sock : τ) (pay : List UInt8) (src : Str) (conn : Connection) (ctr : UInt32) (world : σ) :
    ((relayRemote ctx sid df sock pay src conn ctr world).1 = .removing ∨
      (relayRemote ctx sid df sock pay src conn ctr world).1 = .relay df sock) ∧
      forwards (relayRemote ctx sid df sock pay src conn ctr world).2.2 = [] := by
  unfold relayRemote
  split
  · exact ⟨.inl rfl, rfl⟩
  simp only
  split
  · exact ⟨.inl rfl, rfl⟩
  · exact ⟨.inr rfl, rfl⟩

/-- In the relay loop, some of the messages are forwarded, in order, each to
the address it carries, if the outbound lets it pass, and through the socket of
the session. -/
theorem forwards_relay (ctx : ServerUdpContext σ τ κ) (sid : UInt32) (sock : τ) :
    ∀ (evs : List SessionEvent) (df : Defragger) (world : σ),
    ∃ ms : List UdpMessage, ms.Sublist (reassembled df evs) ∧ (∀ m ∈ ms, Passed ctx m.address) ∧
      forwards (runSession ctx sid (.relay df sock) evs world).2.2 = ms.map (toOwnAddress sock)
  | [], _, _ => ⟨[], nil_sublist _, nofun, rfl⟩
  | event :: evs, df, world => by
    have hs : ∀ ms : List UdpMessage, ∃ ms' : List UdpMessage, ms'.Sublist ms ∧ (∀ m ∈ ms', Passed ctx m.address) ∧
        forwards ([] ++ (runSession ctx sid (.removing : SessionState τ) evs world).2.2) =
          ms'.map (toOwnAddress sock) := by
      intro ms
      rw [runSession_done (.inl rfl)]
      exact ⟨[], nil_sublist _, nofun, rfl⟩
    rw [actions_cons]
    match event with
    | .timeout => exact hs _
    | .client none => exact hs _
    | .remote (.error _) _ _ => exact hs _
    | .client (some message) =>
      obtain ⟨hst, ms, hms, hp, hfw⟩ := relayClient_forwards ctx df sock message world
      obtain ⟨ms', hms', hpass', hfw'⟩ := forwards_relay ctx sid sock evs
        (df.feed message).2 (relayClient ctx df sock message world).2.1
      refine ⟨ms ++ ms', ?_, ?_, ?_⟩
      · rw [reassembled_client]
        exact hms.append hms'
      · grind
      · simp only [sessionStep]
        rw [forwards_append, hst, hfw, hfw', map_append]
    | .remote (.ok (payload, source)) connection counter =>
      obtain ⟨hst, hfw⟩ := relayRemote_forwards ctx sid df sock payload source connection
        counter world
      simp only [sessionStep]
      rw [forwards_append, hfw, nil_append]
      rcases hst with hst | hst
      · rw [hst, runSession_done (.inl rfl)]
        exact ⟨[], nil_sublist _, nofun, rfl⟩
      · rw [hst]
        exact forwards_relay ctx sid sock evs df _

/-! ## From the start -/

/-- Opening the session: nothing is sent, or the first message to the address
after the hook, through a socket that the outbound opened for that address. -/
theorem openSession_cases (ctx : ServerUdpContext σ τ κ) (df : Defragger) (first : UdpMessage) (world : σ) :
    (openSession ctx df first world).1 = .removing ∧ (openSession ctx df first world).2.2 = [] ∨
      ∃ addr sock w', hookAddress ctx.requestHook first = .ok addr ∧ ctx.outbound.udp addr world = (.ok sock, w') ∧
        (openSession ctx df first world).2.2 = [.forward sock first.data addr] ∧
        ((openSession ctx df first world).1 = .removing ∨
          (openSession ctx df first world).1 = .relay df sock) := by
  unfold openSession
  split
  · exact .inl ⟨rfl, rfl⟩
  split
  · exact .inl ⟨rfl, rfl⟩
  grind

theorem forwards_first (ctx : ServerUdpContext σ τ κ) (sid : UInt32) :
    ∀ (evs : List SessionEvent) (df : Defragger) (world : σ),
    forwards (runSession ctx sid (.first df) evs world).2.2 = [] ∨
      ∃ (first : UdpMessage) (rest : List UdpMessage) (addr : Str) (sock : τ) (w w' : σ) (ms : List UdpMessage),
        reassembled df evs = first :: rest ∧
        hookAddress ctx.requestHook first = .ok addr ∧
        ctx.outbound.udp addr w = (.ok sock, w') ∧ ms.Sublist rest ∧
        (∀ m ∈ ms, Passed ctx m.address) ∧
        forwards (runSession ctx sid (.first df) evs world).2.2 =
          (sock, first.data, addr) :: ms.map (toOwnAddress sock)
  | [], _, _ => .inl rfl
  | event :: evs, df, world => by
    rw [actions_cons, forwards_append]
    match event with
    | .timeout => exact .inl (by simp [sessionStep, runSession_done, forwards])
    | .client none => exact .inl (by simp [sessionStep, runSession_done, forwards])
    | .remote recv conn ctr =>
      rw [reassembled_other (by simp)]
      exact forwards_first ctx sid evs df world
    | .client (some message) =>
      rw [reassembled_client]
      cases hf : df.feed message with
      | mk out df' =>
        rcases out with _ | first
        · simp only [sessionStep, hf]
          exact forwards_first ctx sid evs df' world
        simp only [sessionStep, hf]
        rcases openSession_cases ctx df' first world with
          ⟨hst, ha⟩ | ⟨addr, sock, w', hh, hu, ha, hst⟩
        · rw [hst, ha, runSession_done (.inl rfl)]
          exact .inl rfl
        refine .inr ⟨first, reassembled df' evs, addr, sock, world, w', ?_⟩
        rcases hst with hst | hst
        · refine ⟨[], rfl, hh, hu, nil_sublist _, nofun, ?_⟩
          rw [hst, ha, runSession_done (.inl rfl)]
          rfl
        obtain ⟨ms, hms, hp, hfw⟩ := forwards_relay ctx sid sock evs
          df' (openSession ctx df' first world).2.1
        refine ⟨ms, rfl, hh, hu, hms, hp, ?_⟩
        rw [hst, ha, hfw]
        rfl

/-! ## Sessions with a request hook -/

/-- The hook rewrites the destination of the first message only. Whatever
follows on the session, each later message that is forwarded goes to the
address it carries itself: if that is the address `a` of the first one, to `a`,
which is where the first one went exactly if the hook left `a` as it was. -/
theorem hooked_session_destinations {σ τ κ : Type} (context : ServerUdpContext σ τ κ) (sessionId : UInt32)
    (world : σ) {hook : RequestHook} (hhook : context.requestHook = some hook) {events : List SessionEvent}
    {first : UdpMessage} {rest : List UdpMessage} (hre : reassembled {} events = first :: rest)
    (hcheck : hook.check true first.address = true) :
    forwards (runServerSession context sessionId events world).2.2 = [] ∨
      ∃ (address : Str) (socket : τ) (ms : List UdpMessage),
        hook.udp first.data first.address = .ok address ∧ ms.Sublist rest ∧
        forwards (runServerSession context sessionId events world).2.2 =
          (socket, first.data, address) :: ms.map (fun m => (socket, m.data, m.address)) ∧
        ((∀ m ∈ rest, m.address = first.address) →
          ∀ m ∈ ms, m.address = first.address ∧ (m.address = address ↔ address = first.address)) := by
  rcases forwards_first context sessionId events {} world with
    hn | ⟨first', rest', address, socket, w, w', ms, hre', hhook', -, hms, -, hfw⟩
  · exact .inl hn
  rw [hre] at hre'
  obtain ⟨rfl, rfl⟩ := cons.inj hre'
  simp only [hookAddress, hhook, hcheck, if_true] at hhook'
  refine .inr ⟨address, socket, ms, hhook', hms, hfw, ?_⟩
  grind

/-- A hook that finds the name behind an address. -/
def namingHook : RequestHook where
  check _ _ := true
  udp _ _ := .ok "example.com:443"

/-- A server with that hook that reaches everything. -/
def namingContext : ServerUdpContext Unit Unit Unit where
  trafficLogger := none
  authId := []
  outbound :=
    { tcp := fun _ world => (.ok (), world)
      udp := fun _ world => (.ok (), world)
      sendTo := fun _ data _ world => (.ok data.length, world) }
  requestHook := some namingHook

/-- Two messages to one address. -/
def namingEvents : List SessionEvent :=
  [.client (some (udpPacket 7 "192.0.2.1:443" [1])), .client (some (udpPacket 7 "192.0.2.1:443" [2]))]

theorem hooked_session_destinations_differ :
    (reassembled {} namingEvents).map (·.address) = ["192.0.2.1:443".toList, "192.0.2.1:443".toList] ∧
      namingHook.check true "192.0.2.1:443".toList = true ∧
      ¬ ∀ f ∈ forwards (runServerSession namingContext 7 namingEvents ()).2.2,
        f.2.2 = "example.com:443".toList := by
  decide

theorem hooked_session_destinations_naming : forwards (runServerSession namingContext 7 namingEvents ()).2.2 = [] ∨
      ∃ (address : Str) (socket : Unit) (ms : List UdpMessage),
        namingHook.udp [1] "192.0.2.1:443".toList = .ok address ∧
        ms.Sublist [udpPacket 7 "192.0.2.1:443".toList [2]] ∧
        forwards (runServerSession namingContext 7 namingEvents ()).2.2 =
          (socket, [1], address) :: ms.map (fun m => (socket, m.data, m.address)) := by
  have hre : reassembled {} namingEvents = [udpPacket 7 "192.0.2.1:443" [1], udpPacket 7 "192.0.2.1:443" [2]] := rfl
  rcases hooked_session_destinations namingContext 7 () rfl hre rfl with
    h | ⟨address, socket, ms, h₁, h₂, h₃, -⟩
  · exact .inl h
  · exact .inr ⟨address, socket, ms, h₁, h₂, h₃⟩

end Hysteria.Proof
