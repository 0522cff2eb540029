import Hysteria.Framework.Transition
import Hysteria.Impl.Transport.DatagramSender
import Hysteria.Proof.Protocol.Fragment
import Hysteria.Proof.Protocol.Reassembly

/-!
# Datagrams of one connection

Packet IDs: `position` is where the counter is in the cycle of 65535 IDs; a
successful round of `next_packet_id` moves it on by one (`fetchPacketId_some`),
a round that reads zero does not move it (`fetchPacketId_none`).

`send_run`: a call of `send` that runs alone is a run of `SendStep`.

`SenderInv`: in every reachable state, every datagram on the wire is a `Part`
of a call, and no two calls have the same allocation.
-/

namespace Hysteria.Proof

open Framework Relation Impl List

variable {issued : List UInt16} {i maxSize : Nat} {ctr' : UInt32}
variable {issued' : List UInt16} {call' : SendCall} {f : UdpMessage} {pid : UInt16}

/-! ## Packet IDs -/

/-- The place of the counter in the cycle of packet IDs. -/
def position (counter : UInt32) : Nat := counter.toNat % 65536 % 65535

theorem toNat_toUInt16_succ (counter : UInt32) : (counter + 1).toUInt16.toNat = (counter.toNat + 1) % 65536 := by
  rw [UInt32.toNat_toUInt16, UInt32.toNat_add, show (1 : UInt32).toNat = 1 from rfl]
  omega

theorem toNat_succ_mod (counter : UInt32) : (counter + 1).toNat % 65536 = (counter.toNat + 1) % 65536 := by
  rw [UInt32.toNat_add, show (1 : UInt32).toNat = 1 from rfl]
  omega

theorem fetchPacketId_some {counter : UInt32} {id : UInt16} (h : fetchPacketId counter = (some id, ctr')) :
    id.toNat = position counter + 1 ∧ position ctr' = (position counter + 1) % 65535 := by
  simp only [fetchPacketId, Prod.mk.injEq, Option.ite_none_right_eq_some, Option.some.injEq] at h
  obtain ⟨⟨hne, rfl⟩, rfl⟩ := h
  have h0 : (counter + 1).toUInt16.toNat ≠ 0 := fun e => hne (UInt16.toNat_inj.mp e)
  rw [toNat_toUInt16_succ] at h0 ⊢
  rw [position, position, toNat_succ_mod]
  omega

theorem fetchPacketId_none {counter : UInt32} (h : fetchPacketId counter = (none, ctr')) :
    position ctr' = position counter := by
  obtain ⟨rfl, h0⟩ := fetchPacketId_eq_none h
  have h0 := congrArg UInt16.toNat h0
  grind [toNat_toUInt16_succ, toNat_succ_mod, position]

/-- `next_packet_id` returns after at most two rounds. -/
theorem nextPacketId_spec (counter : UInt32) : (nextPacketId counter).1.toNat = position counter + 1 ∧
      position (nextPacketId counter).2 = (position counter + 1) % 65535 ∧
      ((nextPacketId counter).2 = counter + 1 ∨ (nextPacketId counter).2 = counter + 1 + 1) := by
  rw [nextPacketId]
  split
  · rename_i id ctr' h
    obtain ⟨hid, hp⟩ := fetchPacketId_some h
    exact ⟨hid, hp, .inl (congrArg Prod.snd h).symm⟩
  rename_i ctr' h
  obtain ⟨rfl, h0⟩ := fetchPacketId_eq_none h
  have hp := fetchPacketId_none h
  rw [nextPacketId]
  split
  · rename_i id counter'' h'
    obtain ⟨hid, hpos'⟩ := fetchPacketId_some h'
    exact ⟨by rw [hid, hp], by rw [hpos', hp], .inr (congrArg Prod.snd h').symm⟩
  · rename_i counter'' h'
    exact absurd (fetchPacketId_eq_none h').2 (toUInt16_succ_ne_zero h0)

/-- The counter after `n` calls of `next_packet_id`. -/
def counterAfter (counter : UInt32) : Nat → UInt32
  | 0 => counter
  | n + 1 => (nextPacketId (counterAfter counter n)).2

theorem position_counterAfter (counter : UInt32) :
    ∀ n, position (counterAfter counter n) = (position counter + n) % 65535
  | 0 => by simp [counterAfter, position]
  | n + 1 => by
    rw [counterAfter, (nextPacketId_spec _).2.1, position_counterAfter counter n]
    omega

/-- The `n`-th packet ID from `counter` on. -/
def packetIdAt (counter : UInt32) (n : Nat) : UInt16 := (nextPacketId (counterAfter counter n)).1

theorem toNat_packetIdAt (counter : UInt32) (n : Nat) :
    (packetIdAt counter n).toNat = (position counter + n) % 65535 + 1 := by
  rw [packetIdAt, (nextPacketId_spec _).1, position_counterAfter]

/-! ## One call alone -/

theorem nextPacketId_run {s : Sender} {call : SendCall} (hc : s.calls[i]? = some call)
    (hst : call.state = .allocating maxSize) :
    ReflTransGen SendStep s { s with
      counter := (nextPacketId s.counter).2
      issued := s.issued ++ [(nextPacketId s.counter).1]
      calls := s.calls.set i { call with
        allocation := some s.issued.length
        state := .fragment call.message (nextPacketId s.counter).1 maxSize } } := by
  rw [nextPacketId]
  split
  · rename_i h
    exact .single (.allocate hc hst h)
  rename_i h
  have h' := h
  obtain ⟨rfl, h0⟩ := fetchPacketId_eq_none h'
  refine .head (.retry hc hst h) ?_
  rw [nextPacketId]
  split
  · rename_i h''
    exact .single (.allocate hc hst h'')
  · rename_i h''
    exact absurd (fetchPacketId_eq_none h'').2 (toUInt16_succ_ne_zero h0)

theorem sendFragments_run (conn : Connection) :
    ∀ (frags : List UdpMessage) (n : Nat) {s : Sender} {i : Nat} {call : SendCall},
      s.calls[i]? = some call → call.state = .sending frags →
      ReflTransGen SendStep s { s with
        calls := s.calls.set i { call with state := .returned (sendFragments conn n frags).1 }
        wire := s.wire ++ (sendFragments conn n frags).2 }
  | [], n, s, i, call, hc, hst => by
    simpa [sendFragments] using ReflTransGen.single (SendStep.done hc hst)
  | fragment :: rest, n, s, i, call, hc, hst => by
    have hi : i < s.calls.length := (List.getElem?_eq_some_iff.mp hc).1
    rw [sendFragments, sendOne]
    rcases he : fragment.encode with err | encoded
    · simpa using ReflTransGen.single (SendStep.encodeError hc hst he)
    rcases hs : conn.sendDatagramWait n with err | _
    · simpa [hs] using ReflTransGen.single (SendStep.sendError err hc hst he)
    apply ReflTransGen.head (.sendOne hc hst he)
    have hcall' : (s.calls.set i { call with state := .sending rest })[i]? =
      some { call with state := .sending rest } := by simp [hi]
    simpa [hs] using sendFragments_run conn rest (n + 1)
      (s := { s with calls := s.calls.set i { call with state := .sending rest }, wire := s.wire ++ [encoded] })
      hcall' rfl

/-- What a call of `send` that nothing interleaves with does to the sender. -/
structure Ran (s s' : Sender) (sent : Sent) : Prop where
  run : ReflTransGen SendStep s s'
  counter : s'.counter = sent.counter
  wire : s'.wire = s.wire ++ sent.datagrams
  state : s'.calls[s.calls.length]?.map (·.state) = some (.returned sent.result)

/-- The rest of `send` once the packet ID is known. -/
def afterId (connection : Connection) (m : UdpMessage) (maxSize : Nat) (packetId : UInt16) (counter : UInt32) : Sent :=
  match SendState.fragment m packetId maxSize with
  | .sending fragments =>
    ⟨(sendFragments connection 0 fragments).1, counter, (sendFragments connection 0 fragments).2⟩
  | .returned result => ⟨result, counter, []⟩
  | .allocating _ => ⟨.ok (), counter, []⟩

theorem send_eq_afterId {conn : Connection} {counter : UInt32} {m : UdpMessage} (hb : ¬ m.encodedSize > maxUdpSize)
    (hm : conn.maxDatagramSize = some maxSize) (hf : ¬ m.encodedSize ≤ maxSize) :
    send conn counter m =
      afterId conn m maxSize (nextPacketId counter).1 (nextPacketId counter).2 := by
  simp only [send, if_neg hb, hm, if_neg hf, afterId, SendState.fragment]
  grind

theorem fragment_ne_allocating (m : UdpMessage) (pid : UInt16) (maxSize n : Nat) :
    SendState.fragment m pid maxSize ≠ .allocating n := by
  unfold SendState.fragment
  simp only
  split <;> simp

theorem afterId_run (conn : Connection) {s : Sender} {call : SendCall} (hc : s.calls[i]? = some call)
    (hst : call.state = .allocating maxSize) :
    ∃ s', ReflTransGen SendStep s s' ∧ s'.counter = (nextPacketId s.counter).2 ∧
      s'.wire = s.wire ++ (afterId conn call.message maxSize (nextPacketId s.counter).1
        (nextPacketId s.counter).2).datagrams ∧
      s'.calls[i]?.map (·.state) = some (.returned (afterId conn call.message maxSize
        (nextPacketId s.counter).1 (nextPacketId s.counter).2).result) := by
  have hi : i < s.calls.length := (List.getElem?_eq_some_iff.mp hc).1
  have hr := nextPacketId_run hc hst
  generalize nextPacketId s.counter = next at hr ⊢
  unfold afterId
  cases hn : SendState.fragment call.message next.1 maxSize with
  | allocating n => exact absurd hn (fragment_ne_allocating _ _ _ _)
  | returned res =>
    grind
  | sending frags =>
    rw [hn] at hr
    have hcall' : (s.calls.set i { call with allocation := some s.issued.length, state := .sending frags })[i]? =
      some { call with allocation := some s.issued.length, state := .sending frags } := by simp [hi]
    exact ⟨_, hr.trans (sendFragments_run conn frags 0 hcall' rfl), rfl, rfl, by simp [hi]⟩

/-- A call of `send`, alone, is a run of the concurrent sender. -/
theorem send_run (conn : Connection) (s : Sender) (sid : UInt32) (addr : Str) (data : List UInt8) :
    ∃ s', Ran s s' (send conn s.counter (udpPacket sid addr data)) := by
  generalize hm : udpPacket sid addr data = m
  have hbg := SendStep.call s sid addr data conn.maxDatagramSize
  rw [hm] at hbg
  by_cases hb : m.encodedSize > maxUdpSize
  · rw [send, if_pos hb]
    exact ⟨_, .single hbg, rfl, by simp, by simp [SendCall.start, hb]⟩
  rcases hmx : conn.maxDatagramSize with _ | maxSize
  · simp only [send, if_neg hb, hmx]
    exact ⟨_, .single hbg, rfl, by simp, by simp [SendCall.start, hb, hmx]⟩
  have hcl : (s.calls ++ [.start m conn.maxDatagramSize])[s.calls.length]? =
    some (.start m conn.maxDatagramSize) := by simp
  by_cases hf : m.encodedSize ≤ maxSize
  · have hst : (SendCall.start m conn.maxDatagramSize).state = .sending [m] := by
      simp [SendCall.start, hb, hmx, hf]
    simp only [send, if_neg hb, hmx, if_pos hf]
    exact ⟨_, .head hbg (sendFragments_run conn [m] 0 hcl hst), rfl, rfl, by simp⟩
  have hst : (SendCall.start m conn.maxDatagramSize).state = .allocating maxSize := by
    simp [SendCall.start, hb, hmx, hf]
  obtain ⟨s', hrn, hc, hw, hr⟩ := afterId_run conn
    (s := { s with calls := s.calls ++ [.start m conn.maxDatagramSize] }) hcl hst
  rw [send_eq_afterId hb hmx hf]
  refine ⟨s', .head hbg hrn, ?_, hw, hr⟩
  rw [hc, afterId]
  split <;> rfl

/-! ## What is on the wire -/

/-- The messages that `call` sends: its message as it is, or its fragments
under the packet ID it obtained. -/
inductive Part (issued : List UInt16) (call : SendCall) : UdpMessage → Prop
  | whole : Part issued call call.message
  | fragment {a maxSize : Nat} {packetId : UInt16} {fs : List UdpMessage} {f : UdpMessage}
    (halloc : call.allocation = some a) (hissued : issued[a]? = some packetId)
    (hmax : call.maxDatagramSize = some maxSize)
    (hfs : fragmentUdpMessage { call.message with packetId } maxSize = .ok fs)
    (h2 : 2 ≤ fs.length) (hf : f ∈ fs) : Part issued call f

/-- A call later in the run. -/
structure Later (call call' : SendCall) : Prop where
  message : call'.message = call.message
  maxDatagramSize : call'.maxDatagramSize = call.maxDatagramSize
  allocation : ∀ a, call.allocation = some a → call'.allocation = some a

theorem Part.later {call : SendCall} (h : Part issued call f)
    (hi : issued <+: issued') (hc : Later call call') : Part issued' call' f := by
  cases h with
  | whole => exact hc.message ▸ .whole
  | fragment ha hid hm hfs h2 hf =>
    obtain ⟨more, rfl⟩ := hi
    have hlt := (List.getElem?_eq_some_iff.mp hid).1
    refine .fragment (hc.allocation _ ha) ((List.getElem?_append_left hlt).trans hid)
      (hc.maxDatagramSize ▸ hm) ?_
      h2 hf
    rwa [hc.message]

/-- What is known of one call: who made it, and what it has left to send. -/
structure CallInv (issued : List UInt16) (call : SendCall) : Prop where
  message : ∃ sessionId address data, call.message = udpPacket sessionId address data
  allocation : ∀ a, call.allocation = some a → a < issued.length
  allocating : ∀ maxSize, call.state = .allocating maxSize →
    call.allocation = none ∧ call.maxDatagramSize = some maxSize ∧ maxSize < call.message.encodedSize
  sending : ∀ fs, call.state = .sending fs → ∀ f ∈ fs, Part issued call f

/-- Every reachable state of the sender that started at `counter`. -/
structure SenderInv (counter : UInt32) (s : Sender) : Prop where
  position : position s.counter = (position counter + s.issued.length) % 65535
  issued : ∀ (i : Nat) id, s.issued[i]? = some id → id.toNat = (Proof.position counter + i) % 65535 + 1
  calls : ∀ (i : Nat) call, s.calls[i]? = some call → CallInv s.issued call
  distinct : ∀ (i j : Nat) c c' a, s.calls[i]? = some c → s.calls[j]? = some c' →
    c.allocation = some a → c'.allocation = some a → i = j
  wire : ∀ bytes ∈ s.wire, ∃ (i : Nat) (call : SendCall) (f : UdpMessage),
    s.calls[i]? = some call ∧ f.encode = .ok bytes ∧ Part s.issued call f

theorem senderInv_init (counter : UInt32) : SenderInv counter (.init counter) where
  position := by simp [Sender.init, Proof.position]
  issued := by simp [Sender.init]
  calls := by simp [Sender.init]
  distinct := by simp [Sender.init]
  wire := by simp [Sender.init]

section Steps

variable {counter : UInt32} {s : Sender}

theorem CallInv.mono {call : SendCall} (h : CallInv issued call) (hi : issued <+: issued') : CallInv issued' call where
  message := h.message
  allocation a ha := Nat.lt_of_lt_of_le (h.allocation a ha) hi.length_le
  allocating := h.allocating
  sending fs hs f hf := (h.sending fs hs f hf).later hi ⟨rfl, rfl, fun _ ha => ha⟩

theorem callInv_start (issued : List UInt16) (sid : UInt32) (addr : Str) (data : List UInt8)
    (maxDatagramSize : Option Nat) :
    CallInv issued (.start (udpPacket sid addr data) maxDatagramSize) where
  message := ⟨_, _, _, rfl⟩
  allocation := nofun
  allocating maxSize hs := by
    generalize udpPacket sid addr data = m at hs ⊢
    simp only [SendCall.start] at hs
    split at hs <;> [cases hs; skip]
    split at hs <;> [cases hs; skip]
    split at hs <;> [cases hs; skip]
    rename_i hft
    cases hs
    exact ⟨rfl, rfl, Nat.lt_of_not_le hft⟩
  sending fs hs f hf := by
    generalize udpPacket sid addr data = m at hs ⊢
    simp only [SendCall.start] at hs
    split at hs <;> [cases hs; skip]
    split at hs <;> [cases hs; skip]
    split at hs <;> [skip; cases hs]
    cases hs
    obtain rfl := mem_singleton.mp hf
    exact .whole

theorem callInv_fragment {call : SendCall} {a : Nat} (h : CallInv issued call)
    (hst : call.state = .allocating maxSize) (hi : issued[a]? = some pid) :
    CallInv issued { call with allocation := some a, state := .fragment call.message pid maxSize } where
  message := h.message
  allocation a' ha := Option.some.inj ha ▸ (List.getElem?_eq_some_iff.mp hi).1
  allocating n hn := absurd hn (fragment_ne_allocating _ _ _ _)
  sending fs hs f hf := by
    obtain ⟨-, hm, hsz⟩ := h.allocating maxSize hst
    simp only [SendState.fragment] at hs
    split at hs <;> [cases hs; cases hs; skip]
    rename_i hfs
    cases hs
    refine .fragment rfl hi hm hfs ?_ hf
    rcases fragmentUdpMessage_cases hfs with ⟨hle, -⟩ | ⟨-, -, rfl⟩ | ⟨p, hp, hlt, -, h8, rfl⟩
    · exact absurd hle (Nat.not_le_of_lt hsz)
    · cases hf
    · exact (pieces_fragments hp hlt h8).two_le

/-- One call changes, and keeps what it has sent. -/
theorem SenderInv.set (h : SenderInv counter s) {call : SendCall} (hcl : s.calls[i]? = some call)
    (hl : Later call call') (hin : CallInv s.issued call')
    (hfr : ∀ (j : Nat) c a, s.calls[j]? = some c → c.allocation = some a → call'.allocation = some a → j = i) :
    SenderInv counter { s with calls := s.calls.set i call' } := by
  have hi : i < s.calls.length := (List.getElem?_eq_some_iff.mp hcl).1
  refine ⟨h.position, h.issued, ?_, ?_, ?_⟩
  · grind [h.calls]
  · intro j k c c' a hj hk ha ha'
    rcases getElem?_set_cases hj with ⟨rfl, rfl⟩ | ⟨hji, hj⟩
    · grind
    grind [h.distinct]
  · intro bs hb
    obtain ⟨j, c, f, hc, hf, hp⟩ := h.wire bs hb
    by_cases hj : i = j
    · subst hj
      rw [hcl] at hc
      cases hc
      exact ⟨i, call', f, List.getElem?_set_self hi, hf, hp.later (List.prefix_refl _) hl⟩
    · exact ⟨j, c, f, (List.getElem?_set_ne hj).trans hc, hf, hp⟩

theorem SenderInv.setState (h : SenderInv counter s) {call : SendCall} {st : SendState}
    (hc : s.calls[i]? = some call) (hi : CallInv s.issued { call with state := st }) :
    SenderInv counter { s with calls := s.calls.set i { call with state := st } } :=
  h.set hc ⟨rfl, rfl, fun _ ha => ha⟩ hi fun j c a hj ha ha' => h.distinct j i c call a hj hc ha ha'

theorem CallInv.returned {call : SendCall} (h : CallInv issued call) (res : Except TransportError Unit) :
    CallInv issued { call with state := .returned res } :=
  ⟨h.message, h.allocation, nofun, nofun⟩

/-- A round of `next_packet_id` that reads zero. -/
theorem SenderInv.retry (h : SenderInv counter s) (hf : fetchPacketId s.counter = (none, ctr')) :
    SenderInv counter { s with counter := ctr' } :=
  ⟨(fetchPacketId_none hf).trans h.position, h.issued, h.calls, h.distinct, h.wire⟩

theorem SenderInv.issue (h : SenderInv counter s) (hft : fetchPacketId s.counter = (some pid, ctr')) :
    SenderInv counter { s with counter := ctr', issued := s.issued ++ [pid] } := by
  obtain ⟨hid, hps⟩ := fetchPacketId_some hft
  have hm : s.issued <+: s.issued ++ [pid] := prefix_append _ _
  refine ⟨?_, ?_, fun i call hc => (h.calls i call hc).mono hm, h.distinct, ?_⟩
  · grind [h.position]
  · grind [h.issued, h.position]
  intro bs hb
  obtain ⟨i, call, f, hc, hf, hp⟩ := h.wire bs hb
  exact ⟨i, call, f, hc, hf, hp.later hm ⟨rfl, rfl, fun _ ha => ha⟩⟩

theorem SenderInv.call (h : SenderInv counter s) {call : SendCall} (hin : CallInv s.issued call)
    (hn : call.allocation = none) : SenderInv counter { s with calls := s.calls ++ [call] } := by
  refine ⟨h.position, h.issued, ?_, ?_, ?_⟩
  · grind [h.calls]
  · intro i j c c' a hi hj ha ha'
    grind [h.distinct]
  · intro bs hb
    obtain ⟨i, c, f, hc, hf, hp⟩ := h.wire bs hb
    refine ⟨i, c, f, ?_, hf, hp⟩
    grind

/-- A call passes a datagram to the connection. -/
theorem SenderInv.push (h : SenderInv counter s) {call : SendCall} {bs : List UInt8} (hc : s.calls[i]? = some call)
    (hf : f.encode = .ok bs) (hp : Part s.issued call f) : SenderInv counter { s with wire := s.wire ++ [bs] } := by
  refine ⟨h.position, h.issued, h.calls, h.distinct, ?_⟩
  grind [h.wire]

theorem SenderInv.step {s' : Sender} (h : SenderInv counter s) (hsp : SendStep s s') : SenderInv counter s' := by
  cases hsp with
  | call sid addr data maxDatagramSize =>
    exact h.call (callInv_start s.issued sid addr data maxDatagramSize) rfl
  | retry hc hst hft => exact h.retry hft
  | @allocate i call maxSize pid ctr' hc hst hft =>
    have hi := h.calls i call hc
    have hn := (hi.allocating maxSize hst).1
    have hinv' := callInv_fragment (hi.mono (prefix_append _ [pid])) hst
      (getElem?_concat_length (l := s.issued) (a := pid))
    refine (h.issue hft).set hc ⟨rfl, rfl, by simp [hn]⟩ hinv' ?_
    intro j c a hj ha ha'
    have := (h.calls j c hj).allocation a ha
    cases ha'
    omega
  | @sendOne i call frag rest encoded hc hst he =>
    have hi := h.calls i call hc
    have hsn := hi.sending _ hst
    refine (h.push hc he (hsn frag mem_cons_self)).setState hc
      ⟨hi.message, hi.allocation, nofun, ?_⟩
    intro fs hs f hf
    cases hs
    exact (hsn f (mem_cons_of_mem _ hf)).later (prefix_refl _) ⟨rfl, rfl, fun _ ha => ha⟩
  | encodeError hc hst he => exact h.setState hc ((h.calls _ _ hc).returned _)
  | sendError err hc hst he => exact h.setState hc ((h.calls _ _ hc).returned _)
  | done hc hst => exact h.setState hc ((h.calls _ _ hc).returned _)

end Steps

end Hysteria.Proof
