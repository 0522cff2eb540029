import Mathlib.Data.Finset.Card
import Hysteria.Proof.Client.UdpFlows

/-!
# The size of the UDP flow tables

A dispatcher that begins with `retain` keeps only entries of flows that were open
when the packet came (`Processing`), and adds at most one. The dispatcher of a UDP
forwarding removes nothing: its table has a row for every peer it ever heard of
(`Remembers`). `flow_table_bounded_iff` puts the two together.
-/

namespace Hysteria.Proof

open Framework Impl List

variable {κ : Type} {s s₀ t : FlowDispatcher κ}
variable {i : Nat} {flow : Flow κ} {key : κ} {pkt : List UInt8} {evs : List (FlowEvent κ)}

/-- The keys of the packets that came in. -/
def receivedKeys (events : List (FlowEvent κ)) : List κ := events.filterMap fun
    | .receive key _ => some key
    | _ => none

theorem receivedKeys_append (evs more : List (FlowEvent κ)) :
    receivedKeys (evs ++ more) = receivedKeys evs ++ receivedKeys more := filterMap_append

theorem receivedKeys_concat {ev : FlowEvent κ} (hev : receivedKeys [ev] = []) (evs : List (FlowEvent κ)) :
    receivedKeys (evs ++ [ev]) = receivedKeys evs := by
  rw [receivedKeys_append, hev, append_nil]

/-! ## Dispatchers that clean up -/

/-- A flow that changes does not come back to life. -/
theorem live_of_set {j : Nat} {flow' : Flow κ} (hf : s.flows[i]? = some flow)
    (hl : flow'.live = true → flow.live = true) {phase : FlowPhase κ}
    (h : FlowDispatcher.live ⟨s.flows.set i flow', s.table, phase⟩ j = true) : s.live j = true := by
  obtain ⟨other, hot, ho⟩ := live_iff.mp h
  rcases getElem?_set_cases hot with ⟨rfl, rfl⟩ | ⟨-, hot⟩
  · exact live_iff.mpr ⟨flow, hf, hl ho⟩
  · exact live_iff.mpr ⟨other, hot, ho⟩

variable [DecidableEq κ] {kind : FlowKind} {ev : FlowEvent κ}

/-- While a packet is processed that came when the dispatcher was in the state `s₀`: the
entries that `retain` has passed lead to flows that were open then. -/
def Processing (s₀ s : FlowDispatcher κ) : Prop :=
  match s.phase with
  | .idle => s.table.entries.length ≤ s₀.openFlows + 1
  | .retaining _ _ unchecked =>
    (∀ i, s.live i = true → s₀.live i = true) ∧
      ∀ key i, s.table.lookup key = some i → key ∈ unchecked ∨ s₀.live i = true
  | .sending _ _ | .spawning _ _ => ∀ key i, s.table.lookup key = some i → s₀.live i = true

/-- The table has no more rows than flows that were open, if it leads to these only. -/
theorem entries_le_openFlows (hid : Indexed s)
    (h : ∀ key i, s.table.lookup key = some i → s₀.live i = true) : s.table.entries.length ≤ s₀.openFlows := by
  have hl {ent : Sigma fun _ : κ => Nat} (he : ent ∈ s.table.entries) :
      s.table.lookup ent.1 = some ent.2 := AList.mem_lookup_iff.mpr he
  have hn : (s.table.entries.map Sigma.snd).Nodup := by
    refine List.Nodup.map_on ?_ s.table.nodupKeys.nodup
    rintro ⟨key, i⟩ he ⟨key', j⟩ hent' (rfl : i = j)
    obtain ⟨flow, hf, rfl⟩ := hid key i (hl he)
    obtain ⟨flow', hflow', rfl⟩ := hid key' i (hl hent')
    cases hf.symm.trans hflow'
    rfl
  rw [← length_map Sigma.snd]
  refine length_le_countP hn fun i hi => ?_
  obtain ⟨⟨key, i⟩, he, rfl⟩ := mem_map.mp hi
  exact h key i (hl he)

theorem length_entries_insert_le (tbl : AList fun _ : κ => Nat) (key : κ) (i : Nat) :
    (tbl.insert key i).entries.length ≤ tbl.entries.length + 1 := by
  rw [← tally_true, ← tally_true]
  by_cases hm : key ∈ tbl
  · rw [tally_insert_mem _ hm]
    omega
  · rw [tally_insert _ hm]
    simp

theorem Processing.check (h : Processing s₀ s) {unchecked : List κ} (ent : κ)
    (hph : s.phase = .retaining key pkt unchecked) :
    Processing s₀ { s with table := s.retain ent, phase := .retaining key pkt (unchecked.erase ent) } := by
  rw [Processing, hph] at h
  obtain ⟨hl, hp⟩ := h
  refine ⟨hl, fun key' i hi => ?_⟩
  rcases hp key' i (lookup_of_retain hi) with hu | ho
  · by_cases hk : key' = ent
    · grind [live_of_retain]
    · exact .inl ((mem_erase_of_ne hk).mpr hu)
  · exact .inr ho

theorem Processing.update (h : Processing s₀ s) (flow' : Flow κ) (hf : s.flows[i]? = some flow)
    (hl : flow'.live = true → flow.live = true) : Processing s₀ { s with flows := s.flows.set i flow' } := by
  unfold Processing at h ⊢
  cases hph : s.phase with
  | retaining key pkt unchecked =>
    grind [live_of_set]
  | idle | sending | spawning =>
    rw [hph] at h
    exact h

theorem Processing.offer (h : Processing s₀ s) (hi : Indexed s)
    (hph : s.phase = .sending key pkt) : Processing s₀ (s.offer key pkt) := by
  rw [Processing, hph] at h
  have hle := entries_le_openFlows hi h
  rcases offer_cases s key pkt with ⟨i, flow, -, hf, -, heq⟩ | ⟨heq, -⟩
  · rw [heq]
    exact Nat.le_succ_of_le hle
  · rw [heq]
    exact h

theorem Processing.spawn (h : Processing s₀ s) (hi : Indexed s)
    (hph : s.phase = .spawning key pkt) : Processing s₀ (s.spawn key pkt) := by
  rw [Processing, hph] at h
  exact (length_entries_insert_le _ _ _).trans (Nat.succ_le_succ (entries_le_openFlows hi h))

theorem Processing.step (h : Processing s₀ s) (hid : Indexed s) (step : FlowStep kind s ev t)
    (hev : receivedKeys [ev] = []) : Processing s₀ t := by
  cases step with
  | receive key pkt hph => cases hev
  | check ent hph he => exact h.check ent hph
  | retained hph =>
    grind [Processing]
  | offer hph => exact h.offer hid hph
  | spawn hph => exact h.spawn hid hph
  | @take i flow pkt queue hf hl hq => exact h.update { flow with queue } hf id
  | @finish i flow hf hl => exact h.update { flow with queue := [], live := false } hf fun _ => hl

/-- The table of a dispatcher that cleans up, once a packet is processed. -/
theorem entries_le_of_retains (hrt : kind.retains = true) (hs : Indexed s) {s' : FlowDispatcher κ}
    (hr : FlowStep kind s (.receive key pkt) s') {proc : List (FlowEvent κ)} (hp : Trace (FlowStep kind) s' proc t)
    (ho : receivedKeys proc = []) (hil : t.phase = .idle) : t.table.entries.length ≤ s.openFlows + 1 := by
  have hb : Processing s s' := by
    cases hr with
    | receive _ _ hph =>
      simp only [Processing, hrt, if_true]
      refine ⟨fun _ => id, fun key i hi => .inl ?_⟩
      exact AList.mem_keys.mp (AList.lookup_isSome.mp (by rw [hi]; rfl))
  have hen : receivedKeys proc = [] → Indexed t ∧ Processing s t := by
    refine hp.history (I := fun evs u => receivedKeys evs = [] → Indexed u ∧ Processing s u) ?_
      fun _ => ⟨hs.step hr, hb⟩
    intro evs u ev v ih step he
    rw [receivedKeys_append, append_eq_nil_iff] at he
    obtain ⟨hid, hu⟩ := ih he.1
    exact ⟨hid.step step, hu.step hid step he.2⟩
  grind [Processing]

/-! ## The dispatcher of a UDP forwarding -/

/-- The table and the packet at hand have the keys of all the packets that came in. -/
def Remembers (events : List (FlowEvent κ)) (s : FlowDispatcher κ) : Prop :=
  match s.phase with
  | .idle => ∀ key, key ∈ s.table ↔ key ∈ receivedKeys events
  | .retaining _ _ _ => False
  | .sending key _ | .spawning key _ => ∀ key', key' = key ∨ key' ∈ s.table ↔ key' ∈ receivedKeys events

theorem Remembers.step (h : Remembers evs s) (step : FlowStep .forwarding s ev t) : Remembers (evs ++ [ev]) t := by
  unfold Remembers at h ⊢
  cases step with
  | receive key pkt hph =>
    rw [hph] at h
    intro key'
    rw [h, receivedKeys_append, mem_append, or_comm]
    simp [receivedKeys]
  | check ent hph he => rw [hph] at h; exact h.elim
  | retained hph => rw [hph] at h; exact h.elim
  | @offer key pkt hph =>
    rw [hph] at h
    rw [receivedKeys_concat rfl]
    rcases offer_cases s key pkt with ⟨i, flow, hi, -, -, heq⟩ | ⟨heq, -⟩
    · rw [heq]
      have hm : key ∈ s.table := AList.lookup_isSome.mp (by rw [hi]; rfl)
      grind
    · rw [heq]
      exact h
  | @spawn key pkt hph =>
    rw [hph] at h
    intro key'
    rw [receivedKeys_concat rfl, ← h key']
    exact AList.mem_insert _
  | @take i flow pkt queue hf hl hq =>
    rw [receivedKeys_concat rfl]
    exact h
  | @finish i flow hf hl =>
    rw [receivedKeys_concat rfl]
    exact h

/-- The table of a forwarding, once a packet is processed: a row for every peer. -/
theorem entries_forwarding (run : Trace (FlowStep .forwarding) {} evs t)
    (hi : t.phase = .idle) : t.table.entries.length = (receivedKeys evs).toFinset.card := by
  have hn : Remembers [] ({} : FlowDispatcher κ) := fun key => by simp [receivedKeys]
  have hr : Remembers evs t := run.history (fun _ _ _ _ => Remembers.step) hn
  rw [Remembers, hi] at hr
  have hk : t.table.keys.toFinset = (receivedKeys evs).toFinset := by
    grind [mem_toFinset, AList.mem_keys]
  rw [← hk, toFinset_card_of_nodup t.table.keys_nodup, AList.keys, keys, length_map]

/-! ## All three dispatchers -/

/-- Once a packet is processed, the table has at most one row more than there were open
flows when it came: with `retain` always, without it exactly if as few peers were
ever heard of. -/
theorem flow_table_bounded_iff {before processing : List (FlowEvent κ)} {s' : FlowDispatcher κ} {key : κ}
    {packet : List UInt8} (hbefore : Trace (FlowStep kind) {} before s)
    (hreceive : FlowStep kind s (.receive key packet) s') (hprocessing : Trace (FlowStep kind) s' processing t)
    (hone : receivedKeys processing = []) (hidle : t.phase = .idle) :
    t.table.entries.length ≤ s.openFlows + 1 ↔
      kind.retains = true ∨ (receivedKeys before ++ [key]).toFinset.card ≤ s.openFlows + 1 := by
  have hi : Indexed s := hbefore.invariant (fun _ _ _ h step => h.step step) indexed_new
  cases hr : kind.retains with
  | true => exact iff_of_true (entries_le_of_retains hr hi hreceive hprocessing hone hidle) (.inl rfl)
  | false =>
    obtain rfl : kind = .forwarding := by cases kind <;> simp_all [FlowKind.retains]
    have hrn := hbefore.append (.cons hreceive hprocessing)
    rw [entries_forwarding hrn hidle, receivedKeys_append]
    have hk : receivedKeys (.receive key packet :: processing) = [key] := by
      rw [← singleton_append, receivedKeys_append, hone]
      rfl
    simp [hk]

section Example

def peerA : SocketAddr := { ip := .v4 0x0a000001, port := 5000 }
def peerB : SocketAddr := { ip := .v4 0x0a000002, port := 5000 }

/-- The flow of the first peer has ended when the second one appears: no flow is open then,
and the table has two rows afterwards. -/
theorem forwarding_keeps_ended_flow :
    ∃ before s s' processing t, Trace (FlowStep .forwarding) {} before s ∧ s.openFlows = 0 ∧
      FlowStep .forwarding s (.receive peerB [0]) s' ∧ Trace (FlowStep .forwarding) s' processing t ∧
      receivedKeys processing = [] ∧ t.phase = .idle ∧ t.table.entries.length = 2 := by
  have first : Trace (FlowStep .forwarding) {} _ _ :=
    .cons (.receive peerA [0] rfl) (.cons (.offer rfl) (.cons (.spawn rfl) (.single (.finish (i := 0) rfl rfl))))
  exact ⟨_, _, _, _, _, first, rfl, .receive peerB [0] rfl, .cons (.offer rfl) (.single (.spawn rfl)), rfl, rfl, rfl⟩

/-- A TUN device after its first flow has ended. -/
def endedFlow : FlowDispatcher (SocketAddr × SocketAddr) where
  flows := [⟨(peerA, peerB), [], false⟩]
  table := AList.singleton (peerA, peerB) 0

/-- The row of the ended flow is removed when the next packet comes. -/
theorem flow_table_bounded_ended_flow : ∃ before processing t, Trace (FlowStep .tun) {} before endedFlow ∧
    endedFlow.openFlows = 0 ∧ endedFlow.table.entries.length = 1 ∧
    Trace (FlowStep .tun) { endedFlow with phase := .retaining (peerB, peerA) [0] [(peerA, peerB)] } processing t ∧
    t.table.entries.length = 1 ∧ t.table.entries.length ≤ endedFlow.openFlows + 1 := by
  have first : Trace (FlowStep .tun) {} _ _ := .cons (.receive (peerA, peerB) [0] rfl) (.cons (.retained rfl)
    (.cons (.offer rfl) (.cons (.spawn rfl) (.single (.finish (i := 0) rfl rfl)))))
  have before : Trace (FlowStep .tun) {} _ endedFlow := first
  have processing : Trace (FlowStep .tun)
      { endedFlow with phase := .retaining (peerB, peerA) [0] [(peerA, peerB)] } _ _ :=
    .cons (.check (peerA, peerB) rfl mem_cons_self) (.cons (.retained rfl) (.cons (.offer rfl) (.single (.spawn rfl))))
  exact ⟨_, _, _, before, rfl, rfl, processing, rfl,
    (flow_table_bounded_iff before (.receive _ _ rfl) processing rfl rfl).mpr (.inl rfl)⟩

end Example

end Hysteria.Proof
