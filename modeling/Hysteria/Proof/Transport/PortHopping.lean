import Hysteria.Framework.Transition
import Hysteria.Impl.Transport.PortHopping

/-!
# Datagrams stranded by a hop

The driver sleeps after `poll_recv` was pending on the sockets it had copied.
Those wake it (`Watching`). A socket that `hop_worker` has put in place since is
polled by nobody, so a datagram that arrives there wakes nobody: it is stranded
until something else wakes the driver.

`never_stranded_iff` says exactly which steps strand a datagram (`Strands`).
-/

namespace Hysteria.Proof

open Framework Impl List

variable {s t : HopReceiver} {ev : HopEvent}
variable {id : SocketId} {rest : List SocketId}

/-- The driver sleeps, nothing will wake it, and there is a datagram for it. -/
def Stranded (s : HopReceiver) : Prop :=
  s.driver = .pending ∧ s.woken = false ∧ ∃ id ∈ s.state.sockets, (s.sockets id).received ≠ []

/-- Steps that leave a datagram on a socket that the last call of `poll_recv` did not look at,
while the driver sleeps without a wake-up or goes to sleep. -/
def Strands (s : HopReceiver) : HopEvent → Prop
  | .arrive id _ => s.driver = .pending ∧ s.woken = false ∧ id ∉ s.copied
  | .returnPending => s.woken = false ∧ ∃ id ∈ s.state.sockets, id ∉ s.copied ∧ (s.sockets id).received ≠ []
  | _ => False

/-! ## The sockets that were polled -/

/-- The socket is empty and wakes the driver, or the driver is woken already. -/
def Watched (s : HopReceiver) (id : SocketId) : Prop :=
  s.woken = true ∨ (s.sockets id).received = [] ∧ (s.sockets id).registered = true

theorem Watched.mono (h : Watched s id) (hw : s.woken = true → t.woken = true)
    (hs : t.sockets id = s.sockets id) : Watched t id := by
  rcases h with h | h
  · exact .inl (hw h)
  · exact .inr (by rwa [hs])

structure Watching (s : HopReceiver) : Prop where
  created : ∀ id, id ∈ s.state.sockets ∨ id ∈ s.copied → id < s.created
  polling : ∀ rest, s.driver = .polling rest → ∃ before, s.copied = before ++ rest ∧ ∀ id ∈ before, Watched s id
  pending : s.driver = .pending → ∀ id ∈ s.copied, Watched s id
  /-- A socket that was not copied was not polled since it was put in place. -/
  fresh : ∀ id ∈ s.state.sockets, id ∉ s.copied → (s.sockets id).registered = false

theorem watching_new (remoteIndex : Nat) : Watching (.new remoteIndex) where
  created := by simp [HopReceiver.new, HopState.sockets]
  polling := by simp [HopReceiver.new]
  pending := by simp [HopReceiver.new]
  fresh _ _ _ := rfl

/-- The call of `poll_recv` is over and did not end pending. -/
theorem Watching.of_ready (hd : s.driver = .ready) (hc : ∀ id, id ∈ s.state.sockets ∨ id ∈ s.copied → id < s.created)
    (hf : ∀ id ∈ s.state.sockets, id ∉ s.copied → (s.sockets id).registered = false) : Watching s where
  created := hc
  polling := by simp [hd]
  pending := by simp [hd]
  fresh := hf

theorem registered_setSocket {x : SocketId} {recv : List (List UInt8)} :
    ((s.setSocket id { s.sockets id with received := recv }).sockets x).registered = (s.sockets x).registered := by
  by_cases hx : x = id
  · subst hx
    rw [HopReceiver.setSocket_same]
  · rw [HopReceiver.setSocket_other _ _ _ hx]

theorem Watching.receiveNone (h : Watching s) {dg : List UInt8} {others : List (List UInt8)}
    (hd : s.driver = .polling (id :: rest)) (hr : (s.sockets id).received = dg :: others) :
    Watching (s.setSocket id { s.sockets id with received := others }) where
  created := h.created
  pending hpend := by simp [hd] at hpend
  polling rest' hrest := by
    obtain ⟨before, hcop, hw⟩ := h.polling rest' hrest
    refine ⟨before, hcop, ?_⟩
    intro x hx
    by_cases hxd : x = id
    · -- A quiet socket with a datagram: the driver is woken.
      subst hxd
      rcases hw x hx with hwk | ⟨he, -⟩
      · exact .inl hwk
      · simp [he] at hr
    · exact (hw x hx).mono (fun h => h) (HopReceiver.setSocket_other _ _ _ hxd)
  fresh x hx hcop := by
    rw [registered_setSocket]
    exact h.fresh x hx hcop

theorem Watching.receivePending (h : Watching s)
    (hd : s.driver = .polling (id :: rest)) (hr : (s.sockets id).received = []) :
    Watching { s.setSocket id { s.sockets id with registered := true } with driver := .polling rest } := by
  obtain ⟨before, hc, hw⟩ := h.polling _ hd
  refine ⟨h.created, ?_, by simp, ?_⟩
  · intro rest' hrs
    cases hrs
    refine ⟨before ++ [id], by simpa using hc, ?_⟩
    intro x hx
    by_cases hxd : x = id
    · subst hxd
      exact .inr (by simp [hr])
    · exact (hw x (by simpa [hxd] using hx)).mono (fun h => h) (HopReceiver.setSocket_other _ _ _ hxd)
  · intro x hx hn
    have hxd : x ≠ id := by
      rintro rfl
      simp [hc] at hn
    simpa [HopReceiver.setSocket_other _ _ _ hxd] using h.fresh x hx hn

theorem Watching.hop (h : Watching s) (remoteIndex : Nat) :
    Watching { s.setSocket s.created .new with
      state := ⟨s.created, some s.state.current, remoteIndex⟩
      created := s.created + 1 } := by
  have hcr : s.state.current < s.created := h.created _ (.inl (by simp [HopState.sockets]))
  have hold (x : SocketId) (hx : x < s.created) : (s.setSocket s.created .new).sockets x = s.sockets x :=
    HopReceiver.setSocket_other _ _ _ (Nat.ne_of_lt hx)
  have hw (x : SocketId) (hx : x ∈ s.copied) (h' : Watched s x) :
      Watched { s.setSocket s.created .new with
        state := ⟨s.created, some s.state.current, remoteIndex⟩
        created := s.created + 1 } x :=
    h'.mono (fun h => h) (hold x (h.created x (.inr hx)))
  refine ⟨?_, ?_, ?_, ?_⟩
  · intro x hx
    rcases hx with hx | hx
    · simp only [HopState.sockets, Option.toList_some, mem_cons, not_mem_nil, or_false] at hx
      grind
    · exact Nat.lt_succ_of_lt (h.created x (.inr hx))
  · intro rest hr
    obtain ⟨before, hc, hb⟩ := h.polling rest hr
    simp_all
  · exact fun hp x hx => hw x hx (h.pending hp x hx)
  intro x hx hc
  simp only [HopState.sockets, Option.toList_some, mem_cons, not_mem_nil, or_false] at hx
  rcases hx with rfl | rfl
  · simp [UdpSocket.new]
  · exact (congrArg _ (hold _ hcr)).trans (h.fresh _ (by simp [HopState.sockets]) hc)

theorem Watching.arrive (h : Watching s) (id : SocketId) (dg : List UInt8) :
    Watching { s.setSocket id ⟨(s.sockets id).received ++ [dg], false⟩ with
      woken := s.woken || (s.sockets id).registered } := by
  -- A polled socket has the waker of the driver, or the driver is woken already.
  have hw (x : SocketId) (hx : Watched s x) :
      Watched { s.setSocket id ⟨(s.sockets id).received ++ [dg], false⟩ with
        woken := s.woken || (s.sockets id).registered } x := by
    by_cases hxd : x = id
    · subst hxd
      rcases hx with hwk | ⟨-, hrg⟩
      · exact .inl (by simp [hwk])
      · exact .inl (by simp [hrg])
    · exact hx.mono (by simp +contextual) (HopReceiver.setSocket_other _ _ _ hxd)
  refine ⟨h.created, ?_, ?_, ?_⟩
  · intro rest hr
    obtain ⟨before, hc, hb⟩ := h.polling rest hr
    simp_all
  · exact fun hp x hx => hw x (h.pending hp x hx)
  intro x hx hc
  by_cases hxd : x = id
  · subst hxd
    simp
  · simpa [HopReceiver.setSocket_other _ _ _ hxd] using h.fresh x hx hc

theorem Watching.step (h : Watching s) (step : HopStep s ev t) : Watching t := by
  cases step with
  | call first =>
    refine ⟨fun id hid => h.created id (.inl (by simpa using hid)), ?_, by simp, fun id hid hn => absurd hid hn⟩
    simp
  | callNoBuffers first => exact .of_ready rfl h.created h.fresh
  | receiveNone hd hr => exact h.receiveNone hd hr
  | receiveSome pkt hd hr =>
    refine .of_ready rfl h.created ?_
    intro x hx hc
    exact registered_setSocket.trans (h.fresh x hx hc)
  | receiveError => exact .of_ready rfl h.created h.fresh
  | receivePending hd hr => exact h.receivePending hd hr
  | returnPending hd =>
    refine ⟨h.created, by simp, ?_, h.fresh⟩
    intro _ id hid
    obtain ⟨before, hc, hb⟩ := h.polling [] hd
    exact hb id (by simpa [hc] using hid)
  | hop remoteIndex => exact h.hop remoteIndex
  | arrive dg => exact h.arrive _ dg

/-! ## Which steps strand a datagram -/

/-- A copied socket of a driver that sleeps without a wake-up is empty and registered. -/
theorem Watching.asleep (h : Watching s) (hd : s.driver = .pending) (hw : s.woken = false)
    (hid : id ∈ s.copied) : (s.sockets id).received = [] ∧ (s.sockets id).registered = true :=
  (h.pending hd id hid).resolve_left (by simp [hw])

theorem stranded_returnPending (h : Watching s) (hd : s.driver = .polling []) :
    Stranded { s with driver := .pending } ↔ Strands s .returnPending := by
  have hn : Watching { s with driver := .pending } := h.step (.returnPending hd)
  constructor
  · rintro ⟨-, hw, id, hid, hr⟩
    refine ⟨hw, id, hid, ?_, hr⟩
    intro hc
    exact hr (hn.asleep rfl hw hc).1
  · rintro ⟨hw, id, hid, -, hr⟩
    exact ⟨rfl, hw, id, hid, hr⟩

/-- The new socket is empty, and the one before it has nothing that was not stranded already. -/
theorem not_stranded_hop (h : Watching s) (hs : ¬Stranded s) (remoteIndex : Nat) :
    ¬Stranded { s.setSocket s.created .new with
      state := ⟨s.created, some s.state.current, remoteIndex⟩
      created := s.created + 1 } := by
  rintro ⟨hd, hw, id, hid, hr⟩
  have hc : s.state.current ∈ s.state.sockets := mem_cons_self
  simp only [HopState.sockets, Option.toList_some, mem_cons, not_mem_nil, or_false] at hid
  rcases hid with rfl | rfl
  · simp [UdpSocket.new] at hr
  · refine hs ⟨hd, hw, _, hc, ?_⟩
    rwa [← HopReceiver.setSocket_other s s.created .new (Nat.ne_of_lt (h.created _ (.inl hc)))]

theorem stranded_arrive (h : Watching s) (dg : List UInt8) (hid : id ∈ s.state.sockets) :
    Stranded { s.setSocket id ⟨(s.sockets id).received ++ [dg], false⟩ with
      woken := s.woken || (s.sockets id).registered } ↔ Strands s (.arrive id dg) := by
  constructor
  · rintro ⟨hd, hw, -⟩
    simp only [Bool.or_eq_false_iff] at hw
    refine ⟨hd, hw.1, ?_⟩
    intro hc
    have := (h.asleep hd hw.1 hc).2
    simp [hw.2] at this
  · rintro ⟨hd, hw, hc⟩
    exact ⟨hd, by simp [hw, h.fresh id hid hc], id, hid, by simp⟩

theorem stranded_iff (h : Watching s) (hs : ¬Stranded s) (step : HopStep s ev t) : Stranded t ↔ Strands s ev := by
  cases step with
  | call | callNoBuffers | receiveSome | receiveError | receivePending => simp [Stranded, Strands]
  | receiveNone hd => simp [Stranded, Strands, hd]
  | returnPending hd => exact stranded_returnPending h hd
  | hop remoteIndex => exact iff_of_false (not_stranded_hop h hs remoteIndex) (by simp [Strands])
  | arrive dg hid => exact stranded_arrive h dg hid

/-- The runs in which no state has a stranded datagram are those without a step that strands one. -/
theorem never_stranded_iff (remoteIndex : Nat) (events : List HopEvent) (s : HopReceiver) :
    Trace (fun s event t => HopStep s event t ∧ ¬Stranded t) (.new remoteIndex) events s ↔
      Trace (fun s event t => HopStep s event t ∧ ¬Strands s event) (.new remoteIndex) events s := by
  refine Trace.restrict_iff (I := Watching) (fun _ _ _ h step => h.step step) ?_ (watching_new remoteIndex) ?_
  · intro s event t h hs step
    exact not_congr (stranded_iff h hs step)
  · simp [Stranded, HopReceiver.new]

/-- The driver sleeps on the first socket, the worker hops, and a datagram arrives on the new one. -/
theorem stranded_after_hop :
    ∃ s, Trace HopStep (.new 0) [.call true, .receivePending, .returnPending, .hop 1, .arrive 1 [0x40]] s ∧
      Stranded s := by
  have hi (socks : List SocketId) : (HopReceiver.new 0).driver ≠ .polling socks := nofun
  have run := Trace.single (HopStep.call true hi)
  have run := run.append (.single (.receivePending rfl rfl))
  have run := run.append (.single (.returnPending rfl))
  have run := run.append (.single (.hop 1))
  have run := run.append (.single (.arrive [0x40] mem_cons_self))
  exact ⟨_, run, rfl, rfl, 1, mem_cons_self, cons_ne_nil _ _⟩

end Hysteria.Proof
