import Mathlib.Data.Finset.Image
import Mathlib.Data.Finset.SDiff
import Hysteria.Proof.Realm.StunDelivery
import Hysteria.Spec.Discovery

/-!
# The two STUN discoveries

`discover` counts the transactions without an answer down, the Realm controller
counts the addresses up. `Collects` is the invariant of a call of the controller:
what it took from its channel and what is still there are the addresses in the
answers so far. So both functions return the addresses in the answers
(`run_eq`, `addresses_eq`). When all are there, the controller goes on waiting
if two servers have reported the same address (`waits_eq_false_iff`).
-/

namespace Hysteria.Proof

open Framework Impl Spec List

variable {rep : List UInt8 → SocketAddr} {c : DiscoverCall} {recv : List (SocketAddr × List UInt8)}

variable {sent : List StunRequest}
variable {id : List UInt8} {addr : SocketAddr} {addresses : Finset SocketAddr}

/-! ## Answers -/

/-- The transactions that were sent and have an answer. -/
def answeredIds (sent : List StunRequest) (received : List (SocketAddr × List UInt8)) : Finset (List UInt8) :=
  (ids sent).filter fun id => received.any fun datagram => (response datagram).any (·.1 = id)

theorem mem_ids {reqs : List StunRequest} : id ∈ ids reqs ↔ ∃ req ∈ reqs, req.transaction = id := by
  rw [ids, mem_toFinset, mem_map]

theorem mem_answered : id ∈ answeredIds sent recv ↔
      id ∈ ids sent ∧ ∃ dg ∈ recv, ∃ addr, response dg = some (id, addr) := by
  rw [answeredIds, Finset.mem_filter, any_eq_true]
  refine and_congr_right fun _ => exists_congr fun dg => and_congr_right fun _ => ?_
  rcases response dg with _ | ans
  · simp
  · simp [Prod.ext_iff]

theorem answered_subset (sent : List StunRequest) (recv : List (SocketAddr × List UInt8)) :
    answeredIds sent recv ⊆ ids sent := Finset.filter_subset _ _

theorem allAnswered_iff (sent : List StunRequest) (recv : List (SocketAddr × List UInt8)) :
    AllAnswered sent recv ↔ answeredIds sent recv = ids sent := by
  constructor
  · intro h
    refine (answered_subset sent recv).antisymm fun id hid => ?_
    obtain ⟨req, hr, rfl⟩ := mem_ids.mp hid
    exact mem_answered.mpr ⟨hid, h req hr⟩
  intro h req hr
  have hid : req.transaction ∈ ids sent := mem_ids.mpr ⟨req, hr, rfl⟩
  exact (mem_answered.mp (h ▸ hid)).2

theorem answered_concat (sent : List StunRequest) (recv : List (SocketAddr × List UInt8))
    (dg : SocketAddr × List UInt8) :
    answeredIds sent (recv ++ [dg]) = answeredIds sent recv ∪ answeredIds sent [dg] := by
  ext id
  rw [Finset.mem_union, mem_answered, mem_answered, mem_answered, ← and_or_left]
  simp

theorem answered_singleton (sent : List StunRequest) (dg : SocketAddr × List UInt8) :
    answeredIds sent [dg] = (ids sent).filter fun id => (response dg).any (·.1 = id) := by
  simp only [answeredIds, any_cons, any_nil, Bool.or_false]

/-! ## `discover` -/

theorem receive_of_not_waits {d : Discovery} (h : d.waits = false) (dg : List UInt8) : d.receive dg = d := by
  have he : d.transactions = ∅ := by simpa [Discovery.waits] using h
  grind [Discovery.receive]

theorem run_receivedBy (d : Discovery) (recv : List (SocketAddr × List UInt8)) :
    d.run (receivedBy recv) = .ok (recv.foldl (fun d dg => d.receive dg.2) d) := by
  induction recv generalizing d with
  | nil => rfl
  | cons dg recv ih =>
    rw [receivedBy, map_cons, Discovery.run]
    split
    · exact ih (d.receive dg.2)
    rename_i hw
    -- After the loop, no datagram would change anything.
    rw [foldl_fixed' fun dg => receive_of_not_waits (Bool.eq_false_of_not_eq_true hw) dg.2]

/-- One round: a transaction that gets its first answer leaves the table. -/
theorem receive_eq {answers : Finset (List UInt8)} {dg : SocketAddr × List UInt8}
    (hf : parseStunResponse (dg.2.take discoverBufferSize) = response dg)
    (hrp : ∀ id addr, response dg = some (id, addr) → id ∈ ids sent → addr = rep id) :
    (Discovery.mk (ids sent \ answers) (answers.image rep)).receive dg.2 =
      ⟨ids sent \ (answers ∪ answeredIds sent [dg]), (answers ∪ answeredIds sent [dg]).image rep⟩ := by
  rw [Discovery.receive, hf, answered_singleton]
  rcases hr : response dg with _ | ans
  · simp
  obtain ⟨id, addr⟩ := ans
  simp only [Option.any_some]
  by_cases hid : id ∈ ids sent
  · obtain rfl := hrp id addr hr hid
    have ho : (ids sent).filter (fun other => decide (id = other) = true) = {id} := by
      ext other
      grind
    rw [ho]
    split
    · rw [Finset.union_singleton, Finset.image_insert, Finset.sdiff_insert]
    grind
  · have hn : (ids sent).filter (fun other => decide (id = other) = true) = ∅ := by
      grind
    grind [Finset.union_empty]

theorem run_eq (hf : ∀ dg ∈ recv, parseStunResponse (dg.2.take discoverBufferSize) = response dg)
    (hr : ∀ dg ∈ recv, ∀ id addr, response dg = some (id, addr) → id ∈ ids sent → addr = rep id) :
    (Discovery.new sent).run (receivedBy recv) =
      .ok ⟨ids sent \ answeredIds sent recv, (answeredIds sent recv).image rep⟩ := by
  rw [run_receivedBy, Except.ok.injEq]
  induction recv using reverseRecOn with
  | nil => simp [Discovery.new, answeredIds, ids]
  | append_singleton recv dg ih =>
    have hm : dg ∈ recv ++ [dg] := mem_concat_self
    rw [foldl_append, ih (fun other ho => hf other (mem_append_left _ ho))
      fun other ho => hr other (mem_append_left _ ho), answered_concat]
    exact receive_eq (hf dg hm) (hr dg hm)

/-! ## `RealmPunchController::discover` -/

variable {s t : RealmSocket} {ev : RealmEvent} {reqs : List StunRequest} {call : Nat}

/-- An answer finds the channel of the call full. -/
def DropsAnswer (call : Nat) (s : RealmSocket) : RealmEvent → Prop
  | .datagram source datagram => ∃ c address,
      s.answers source (datagram.take maxWireDatagramSize) = some (call, address) ∧ s.calls[call]? = some c ∧
        c.capacity ≤ c.queue.length
  | _ => False

/-- The datagram is an answer to one of the requests, with this address. -/
def Reports (requests : List StunRequest) (datagram : SocketAddr × List UInt8) (address : SocketAddr) : Prop :=
  ∃ request ∈ requests, response datagram = some (request.transaction, address) ∧ request.server = datagram.1

/-- A call since it registered its requests, with the datagrams that have come in. -/
structure Collects (requests : List StunRequest) (received : List (SocketAddr × List UInt8)) (c : DiscoverCall) :
    Prop where
  same : c.requests = requests
  sent : (c.sent ++ c.unsent).Sublist requests
  addresses : c.live = true → ∀ address,
    address ∈ c.addresses ∨ address ∈ c.queue ↔ ∃ datagram ∈ received, Reports requests datagram address

theorem Collects.new (reqs : List StunRequest) : Collects reqs [] ⟨reqs, reqs, [], [], ∅, true⟩ where
  same := rfl
  sent := .refl _
  addresses _ addr := by simp

theorem Collects.send (h : Collects reqs recv c) {req : StunRequest} {rest : List StunRequest}
    (isOk : Bool) (hu : c.unsent = req :: rest) :
    Collects reqs recv
      { c with unsent := rest, sent := if isOk then c.sent ++ [req] else c.sent } where
  same := h.same
  sent := by
    have hs := h.sent
    rw [hu] at hs
    cases isOk with
    | true => simpa using hs
    | false => exact (List.Sublist.append_left (sublist_cons_self req rest) c.sent).trans hs
  addresses := h.addresses

theorem Collects.take (h : Collects reqs recv c) {rest : List SocketAddr} (hq : c.queue = addr :: rest) :
    Collects reqs recv { c with queue := rest, addresses := insert addr c.addresses } where
  same := h.same
  sent := h.sent
  addresses hlive other := by
    rw [← h.addresses hlive other, hq, mem_cons, Finset.mem_insert]
    tauto

theorem Collects.leave (h : Collects reqs recv c) : Collects reqs recv { c with live := false } where
  same := h.same
  sent := h.sent
  addresses hlive := by cases hlive

theorem Collects.answer (h : Collects reqs recv c) {dg : SocketAddr × List UInt8}
    (hr : ∀ other, Reports reqs dg other ↔ other = addr) :
    Collects reqs (recv ++ [dg]) { c with queue := c.queue ++ [addr] } where
  same := h.same
  sent := h.sent
  addresses hlive other := by
    have hold := h.addresses hlive other
    simp only [mem_append, mem_singleton, or_and_right, exists_or, exists_eq_left, hr, ← hold]
    tauto

theorem Collects.other (h : Collects reqs recv c) {dg : SocketAddr × List UInt8}
    (hr : c.live = true → ∀ addr, ¬Reports reqs dg addr) :
    Collects reqs (recv ++ [dg]) c where
  same := h.same
  sent := h.sent
  addresses hlive addr := by
    have hold := h.addresses hlive addr
    grind

theorem Collects.datagram (hrg : Registered s) (hc : s.calls[call]? = some c) (h : Collects reqs recv c)
    (readers : RealmReaders) {src : SocketAddr} {dg : List UInt8} (hrm : ¬DropsAnswer call s (.datagram src dg)) :
    ∃ c', (s.pollRecv readers src dg).2.calls[call]? = some c' ∧
      Collects reqs (recv ++ [(src, dg)]) c' := by
  have hanswers (hlive : c.live = true) (addr : SocketAddr) : Reports reqs (src, dg) addr ↔
        s.answers src (dg.take maxWireDatagramSize) = some (call, addr) := by
    rw [answers_eq_some_iff hrg hc hlive, h.same]
    rfl
  rcases pollRecv_cases readers s src dg with ⟨heq, hf⟩ | ⟨owner, d, addr, ha, hd, hlive, heq⟩
  · rw [heq]
    refine ⟨c, hc, h.other fun hlive addr hr => ?_⟩
    have ha := (hanswers hlive addr).mp hr
    exact hrm ⟨c, addr, ha, hc, hf call c addr ha hc hlive⟩
  rw [heq]
  by_cases ho : owner = call
  · subst ho
    cases hc.symm.trans hd
    refine ⟨_, List.getElem?_set_self (List.getElem?_eq_some_iff.mp hc).1, h.answer fun other => ?_⟩
    grind
  · refine ⟨c, (List.getElem?_set_ne ho).trans hc, h.other fun hlive other hr => ho ?_⟩
    grind

/-- A step of some call that is not a datagram. -/
theorem Collects.set (h : Collects reqs recv c) (hc : s.calls[call]? = some c)
    (hev : datagrams [ev] = []) {other : Nat} {d d' : DiscoverCall} (hd : s.calls[other]? = some d)
    (hs : Collects reqs recv d → Collects reqs recv d') :
    ∃ c', (s.calls.set other d')[call]? = some c' ∧ Collects reqs (recv ++ datagrams [ev]) c' := by
  grind

theorem Collects.step (hrg : Registered s) (hcl : s.calls[call]? = some c) (h : Collects reqs recv c)
    (step : RealmStep s ev t) (hrm : ¬DropsAnswer call s ev) :
    ∃ c', t.calls[call]? = some c' ∧ Collects reqs (recv ++ datagrams [ev]) c' := by
  cases step with
  | register hr =>
    obtain ⟨-, -, rfl⟩ := register_eq_ok hr
    grind [datagrams]
  | datagram readers src dg => exact h.datagram hrg hcl readers hrm
  | send isOk hd hlive hu => exact h.set hcl rfl hd fun hc => hc.send isOk hu
  | take hd hlive hu hw hq => exact h.set hcl rfl hd fun hc => hc.take hq
  | leave hd hlive => exact h.set hcl rfl hd fun hc => hc.leave

/-- A run from the registration of a call on, in which no answer for it is dropped. -/
theorem Collects.run (hs : Registered s) (hr : s.register reqs = .ok t) {u : RealmSocket} {evs : List RealmEvent}
    (run : Trace (fun s ev t => RealmStep s ev t ∧ ¬DropsAnswer call s ev) t evs u) (hc : call = s.calls.length) :
    ∃ c, u.calls[call]? = some c ∧ Collects reqs (datagrams evs) c := by
  have hn : t.calls[call]? = some ⟨reqs, reqs, [], [], ∅, true⟩ := by
    obtain ⟨-, -, rfl⟩ := register_eq_ok hr
    rw [hc]
    exact getElem?_concat_length
  refine (run.history (I := fun evs u => Registered u ∧ ∃ c, u.calls[call]? = some c ∧
    Collects reqs (datagrams evs) c) ?_ ⟨hs.register hr, _, hn, .new reqs⟩).2
  rintro evs s ev t ⟨hrg, c, hc, hcollects⟩ ⟨step, hrm⟩
  obtain ⟨c', hcall', hcollects'⟩ := hcollects.step hrg hc step hrm
  refine ⟨hrg.step step, c', hcall', ?_⟩
  rwa [datagrams, filterMap_append]

/-! ## Both -/

theorem reports_iff (h : Answers rep c recv) (hs : c.sent ⊆ c.requests) : (∃ dg ∈ recv, Reports c.requests dg addr) ↔
      addr ∈ (answeredIds c.sent recv).image rep := by
  rw [Finset.mem_image]
  constructor
  · rintro ⟨dg, hd, req, hrq, hr, -⟩
    obtain ⟨rfl, hs⟩ := (h dg hd).2 _ _ hr (mem_ids.mpr ⟨req, hrq, rfl⟩)
    obtain ⟨req', hreq', hid, -⟩ := hs
    refine ⟨req.transaction, mem_answered.mpr ⟨?_, dg, hd, _, hr⟩, rfl⟩
    exact mem_ids.mpr ⟨req', hreq', hid⟩
  · rintro ⟨id, hid, rfl⟩
    obtain ⟨hsn, dg, hd, addr, hr⟩ := mem_answered.mp hid
    obtain ⟨req, hrq, rfl⟩ := mem_ids.mp hsn
    obtain ⟨rfl, req', hreq', hid', hsr⟩ := (h dg hd).2 _ _ hr (mem_ids.mpr ⟨req, hs hrq, rfl⟩)
    exact ⟨dg, hd, req', hs hreq', by rw [hid', hr], hsr⟩

/-- A part of a set has as many images as the set has elements only if it is all of it and
no two have the same image. -/
theorem card_le_card_image_iff {α β : Type} [DecidableEq β] {part whole : Finset α} {f : α → β} (h : part ⊆ whole) :
    whole.card ≤ (part.image f).card ↔ part = whole ∧ Set.InjOn f whole := by
  constructor
  · grind [Finset.eq_of_subset_of_card_le, Finset.card_image_le]
  grind

section

variable (hanswers : Answers rep c recv) (hcollects : Collects c.requests recv c)
  (hnodup : (c.requests.map (·.transaction)).Nodup) (hlive : c.live = true)
  (hdrained : c.waits = true → c.queue = [])

include hcollects

theorem sent_sublist : c.sent.Sublist c.requests := (sublist_append_left _ _).trans hcollects.sent

include hnodup

theorem card_ids_sent : (ids c.sent).card = c.sent.length := by
  rw [ids, toFinset_card_of_nodup (hnodup.sublist ((sent_sublist hcollects).map _)), length_map]

include hanswers hlive hdrained

/-- What the controller has collected, when nothing is left in the channel that it waits for. -/
theorem addresses_eq : c.addresses = (answeredIds c.sent recv).image rep := by
  have hs := (sent_sublist hcollects).subset
  have hm (addr : SocketAddr) : addr ∈ c.addresses ∨ addr ∈ c.queue ↔ addr ∈ (answeredIds c.sent recv).image rep :=
    (hcollects.addresses hlive addr).trans (reports_iff hanswers hs)
  cases hw : c.waits with
  | true =>
    grind
  | false =>
    -- There are no more images than transactions, so none is missing.
    refine Finset.eq_of_subset_of_card_le (fun addr ha => (hm addr).mp (.inl ha)) ?_
    calc ((answeredIds c.sent recv).image rep).card
        ≤ (answeredIds c.sent recv).card := Finset.card_image_le
      _ ≤ (ids c.sent).card := Finset.card_le_card (answered_subset _ _)
      _ = c.sent.length := card_ids_sent hcollects hnodup
      _ ≤ c.addresses.card := Nat.le_of_not_lt (of_decide_eq_false hw)

theorem waits_eq_false_iff : c.waits = false ↔ AllAnswered c.sent recv ∧ Set.InjOn rep (ids c.sent) := by
  rw [allAnswered_iff, ← card_le_card_image_iff (answered_subset _ _),
    ← addresses_eq hanswers hcollects hnodup hlive hdrained, card_ids_sent hcollects hnodup, DiscoverCall.waits,
    decide_eq_false_iff_not, Nat.not_lt]

end

section
variable (hr : (Discovery.new sent).run (receivedBy recv) =
  .ok ⟨ids sent \ answeredIds sent recv, (answeredIds sent recv).image rep⟩)
include hr

theorem stops_iff : Stops sent recv ↔ AllAnswered sent recv := by
  rw [Stops, hr, allAnswered_iff]
  constructor
  · rintro ⟨d, heq, hw⟩
    cases heq
    have he : ids sent \ answeredIds sent recv = ∅ := by simpa [Discovery.waits] using hw
    exact (answered_subset _ _).antisymm (Finset.sdiff_eq_empty_iff_subset.mp he)
  · intro h
    exact ⟨_, rfl, by simp [Discovery.waits, h]⟩

theorem result_eq (hs : c.sent = sent) (ha : c.addresses = (answeredIds sent recv).image rep) :
    c.result = discover sent (receivedBy recv) := by
  have hn : sent = [] ↔ (Discovery.new sent).transactions = ∅ := by
    rw [Discovery.new, toFinset_eq_empty_iff, map_eq_nil_iff]
  rw [DiscoverCall.result, hs, discover, hr, ha]
  by_cases he : sent = []
  · rw [if_pos he, if_pos (hn.mp he)]
  · rw [if_neg he, if_neg (mt hn.mpr he)]
    rfl

end

/-- A call of the controller from its registration on, while no answer to it is dropped: it
has the result of `discover` on the same datagrams, and `discover` stops when all answers are
there. The controller stops then unless two servers report the same address. -/
theorem discoveries_agree_iff {earlier events : List RealmEvent} {s t u : RealmSocket} {requests : List StunRequest}
    {c : DiscoverCall} (hs : Trace RealmStep {} earlier s) (hregister : s.register requests = .ok t)
    (run : Trace (fun v event w => RealmStep v event w ∧ ¬DropsAnswer s.calls.length v event) t events u)
    (hcall : u.calls[s.calls.length]? = some c) (hlive : c.live = true) (hdrained : c.waits = true → c.queue = [])
    {report : List UInt8 → SocketAddr} (hanswers : Answers report c (datagrams events)) :
    Agree c (datagrams events) ↔ (AllAnswered c.sent (datagrams events) → Set.InjOn report (ids c.sent)) := by
  obtain ⟨_, hc, hcollects⟩ := Collects.run (Registered.run hs) hregister run rfl
  cases hcall.symm.trans hc
  obtain rfl := hcollects.same
  have hnodup := (register_eq_ok hregister).1
  have hr := run_eq (fun dg hd => (hanswers dg hd).1)
    fun dg hd id addr hrs hid => by
      obtain ⟨req, hrq, rfl⟩ := mem_ids.mp hid
      have hm := mem_ids.mpr ⟨req, (sent_sublist hcollects).subset hrq, rfl⟩
      exact ((hanswers dg hd).2 _ addr hrs hm).1
  have hre := result_eq hr rfl (addresses_eq hanswers hcollects hnodup hlive hdrained)
  have hst := stops_iff hr
  have hw := waits_eq_false_iff hanswers hcollects hnodup hlive hdrained
  rw [Agree, hw]
  constructor
  · simp
  grind

/-! ## Two servers -/

/-- Datagrams that answer requests. -/
theorem answers_of_pairs {report : List UInt8 → SocketAddr} {pairs : List (StunRequest × List UInt8)}
    (h : ∀ pair ∈ pairs, pair.1 ∈ c.sent ∧
      parseStunResponse (pair.2.take discoverBufferSize) = some (pair.1.transaction, report pair.1.transaction) ∧
      parseStunResponse (pair.2.take maxWireDatagramSize) = some (pair.1.transaction, report pair.1.transaction)) :
    Answers report c (pairs.map fun pair => (pair.1.server, pair.2)) := by
  intro dg hd
  obtain ⟨⟨req, wire⟩, hp, rfl⟩ := mem_map.mp hd
  obtain ⟨hr, hsh, hl⟩ := h _ hp
  refine ⟨hsh.trans hl.symm, fun id addr hrs _ => ?_⟩
  cases hl.symm.trans hrs
  exact ⟨rfl, req, hr, rfl, rfl⟩

/-- A request to a second server. -/
def otherRequest : StunRequest :=
  { server := { ip := .v4 0xc0000202#32, port := 3478 }, transaction := List.replicate 12 0x22 }

def twoRequests : List StunRequest := [exampleRequest, otherRequest]

/-- The socket with one call, which has both requests. -/
def twoServers (call : DiscoverCall) : RealmSocket where
  transactions := Function.update exampleSocket.transactions otherRequest.transaction (some (otherRequest.server, 0))
  calls := [call]

/-- The call once it has sent them. -/
def twoSent (queue : List SocketAddr) (addresses : Finset SocketAddr) : DiscoverCall :=
  ⟨twoRequests, [], twoRequests, queue, addresses, true⟩

/-- An answer is queued, and taken. -/
theorem twoServers_deliver {src : SocketAddr} {wire : List UInt8} {addr : SocketAddr}
    (ha : (twoServers (twoSent [] addresses)).answers src (wire.take maxWireDatagramSize) = some (0, addr))
    (hw : addresses.card < twoRequests.length) :
    Trace (fun v event w => RealmStep v event w ∧ ¬DropsAnswer 0 v event) (twoServers (twoSent [] addresses))
      [.datagram src wire, .take 0] (twoServers (twoSent [] (insert addr addresses))) := by
  have hc : (twoSent [] addresses).queue.length < (twoSent [] addresses).capacity := Nat.two_pos
  have hd : DeliversResponse plainReaders (twoServers (twoSent [] addresses)) src wire 0 (twoSent [] addresses) addr :=
    delivers_of_answers plainReaders rfl rfl ha hc
  have hs := RealmStep.datagram (s := twoServers (twoSent [] addresses)) plainReaders src wire
  rw [hd] at hs
  have ht := @RealmStep.take (twoServers (twoSent [addr] addresses)) 0 (twoSent [addr] addresses) addr [] rfl rfl rfl
    (decide_eq_true hw) rfl
  refine .cons ⟨hs, ?_⟩ (.single ⟨ht, id⟩)
  rintro ⟨_, _, -, ⟨⟩, hf⟩
  exact absurd hc (Nat.not_lt_of_le hf)

/-- What happens once the call is registered; `wire` is the answer of the second server. -/
def twoEvents (wire : List UInt8) : List RealmEvent :=
  [.send 0 true, .send 0 true, .datagram exampleServer (responseTo exampleRequest), .take 0,
    .datagram otherRequest.server wire, .take 0]

theorem twoServers_run {wire : List UInt8} {addr : SocketAddr}
    (hr : parseStunResponse (wire.take maxWireDatagramSize) = some (otherRequest.transaction, addr)) :
    Trace (fun v event w => RealmStep v event w ∧ ¬DropsAnswer 0 v event)
      (twoServers ⟨twoRequests, twoRequests, [], [], ∅, true⟩) (twoEvents wire)
      (twoServers (twoSent [] {addr, exampleReported})) := by
  have hf := @RealmStep.send (twoServers ⟨twoRequests, twoRequests, [], [], ∅, true⟩) 0 _ exampleRequest _ true rfl rfl
    rfl
  have hs := @RealmStep.send (twoServers ⟨twoRequests, [otherRequest], [exampleRequest], [], ∅, true⟩) 0 _ otherRequest
    _ true rfl rfl rfl
  have hd := @twoServers_deliver ∅ exampleServer (responseTo exampleRequest) exampleReported (by decide) (by decide)
  have hd' : (twoServers (twoSent [] {exampleReported})).answers otherRequest.server (wire.take maxWireDatagramSize) =
      some (0, addr) := by
    rw [RealmSocket.answers, hr]
    rfl
  exact .cons ⟨hf, id⟩ (.cons ⟨hs, id⟩ (hd.append (twoServers_deliver hd' (by decide))))

def otherReported : SocketAddr := { ip := .v4 0xcb00710a#32, port := 54321 }

/-- A response with this address. -/
def otherResponse : List UInt8 := (responseTo otherRequest).dropLast ++ [0x48]

/-- The two servers report two addresses. -/
theorem discoveries_agree_two_servers : Agree (twoSent [] {otherReported, exampleReported})
    [(exampleServer, responseTo exampleRequest), (otherRequest.server, otherResponse)] := by
  let report (id : List UInt8) : SocketAddr :=
    if id = exampleRequest.transaction then exampleReported else otherReported
  have ha : Answers report (twoSent [] {otherReported, exampleReported})
      [(exampleServer, responseTo exampleRequest), (otherRequest.server, otherResponse)] :=
    @answers_of_pairs _ report [(exampleRequest, responseTo exampleRequest), (otherRequest, otherResponse)] (by decide)
  have hinj : ∀ id ∈ ids twoRequests, ∀ id' ∈ ids twoRequests, report id = report id' → id = id' := by decide
  have hrg : RealmSocket.register {} twoRequests = .ok (twoServers ⟨twoRequests, twoRequests, [], [], ∅, true⟩) := rfl
  refine (discoveries_agree_iff (.nil _) hrg (twoServers_run (by decide)) rfl rfl (by decide) ha).mpr fun _ => ?_
  exact fun id hid id' hid' => hinj id hid id' hid'

/-- Two servers report the same address: `discover` stops, the controller goes on waiting. -/
theorem same_address_keeps_waiting : ∃ events s c, Trace RealmStep {} (.register twoRequests :: events) s ∧
      s.calls[0]? = some c ∧ c.live = true ∧ c.unsent = [] ∧ c.queue = [] ∧
      Answers (fun _ => exampleReported) c (datagrams events) ∧ AllAnswered c.sent (datagrams events) ∧
      Stops c.sent (datagrams events) ∧ c.waits = true := by
  have hrd : ∀ req ∈ twoRequests, parseStunResponse ((responseTo req).take maxWireDatagramSize) =
      some (req.transaction, exampleReported) := by decide
  have run := (twoServers_run (hrd otherRequest (by decide))).mono fun _ _ _ => And.left
  refine ⟨_, _, _, .cons (.register rfl) run, rfl, rfl, rfl, rfl, ?_, ?_, ⟨_, rfl, by decide⟩, by decide⟩
  · exact @answers_of_pairs (twoSent [] _) (fun _ => exampleReported)
      [(exampleRequest, responseTo exampleRequest), (otherRequest, responseTo otherRequest)] (by decide)
  · intro req hr
    have hm : (req.server, responseTo req) ∈ twoRequests.map fun req => (req.server, responseTo req) :=
      mem_map_of_mem hr
    exact ⟨_, hm, exampleReported, hrd req hr⟩

end Hysteria.Proof
