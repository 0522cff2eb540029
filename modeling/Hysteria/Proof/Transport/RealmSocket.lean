import Hysteria.Framework.Rows
import Hysteria.Framework.Transition
import Hysteria.Impl.Transport.RealmSocket

/-!
# The transactions of the Realm socket

`poll_recv` finds the call for an answer in the table of transactions. `Registered`
is the invariant of the table: it has the requests of the calls that have not
returned, each with its server and its call. `answers_eq_some_iff` says by it which
datagrams are answers for a call.
-/

namespace Hysteria.Proof

open Framework Impl List

variable {s t : RealmSocket} {ev : RealmEvent} {reqs : List StunRequest} {c c' : DiscoverCall} {call : Nat}

/-! ## What a step does -/

theorem trySend_eq_some {addr : SocketAddr} (h : c.trySend addr = some c') :
    c.live = true ∧ c.queue.length < c.capacity ∧ c' = { c with queue := c.queue ++ [addr] } := by
  unfold DiscoverCall.trySend at h
  grind

/-- A datagram changes nothing but the channel of the call it is an answer for, if this
call has not returned and the channel has room. -/
theorem pollRecv_cases (readers : RealmReaders) (s : RealmSocket) (src : SocketAddr) (dg : List UInt8) :
    (s.pollRecv readers src dg).2 = s ∧
      (∀ call c addr, s.answers src (dg.take maxWireDatagramSize) = some (call, addr) →
        s.calls[call]? = some c → c.live = true → c.capacity ≤ c.queue.length) ∨
    ∃ call c addr, s.answers src (dg.take maxWireDatagramSize) = some (call, addr) ∧
      s.calls[call]? = some c ∧ c.live = true ∧
      (s.pollRecv readers src dg).2 =
        { s with calls := s.calls.set call { c with queue := c.queue ++ [addr] } } := by
  simp only [RealmSocket.pollRecv]
  rcases ha : s.answers src (dg.take maxWireDatagramSize) with _ | ans
  · grind
  · obtain ⟨call, addr⟩ := ans
    dsimp only
    split
    · grind [trySend_eq_some]
    refine .inl ⟨rfl, ?_⟩
    rintro _ c _ ⟨⟩ hcl hl
    simp_all [Option.bind_some, DiscoverCall.trySend, ite_eq_right_iff]

theorem register_eq_ok (h : s.register reqs = .ok t) :
    (reqs.map (·.transaction)).Nodup ∧ (∀ req ∈ reqs, s.transactions req.transaction = none) ∧
    t = { transactions := reqs.foldl
            (fun tbl req => Function.update tbl req.transaction (some (req.server, s.calls.length)))
            s.transactions
          calls := s.calls ++ [⟨reqs, reqs, [], [], ∅, true⟩] } := by
  simp only [RealmSocket.register] at h
  split at h
  · cases h
  simp_all

/-- Only `register` and `leave` change the table, or which calls there are. -/
theorem realmStep_cases (step : RealmStep s ev t) : t = s ∨
    (∃ call c c', s.calls[call]? = some c ∧ c'.requests = c.requests ∧ c'.live = c.live ∧
      t = { s with calls := s.calls.set call c' }) ∨
    (∃ reqs, s.register reqs = .ok t) ∨
    ∃ call c, s.calls[call]? = some c ∧ c.live = true ∧ t = s.leave call c := by
  cases step with
  | register h => exact .inr (.inr (.inl ⟨_, h⟩))
  | @send call c req rest isOk hc hl hu =>
    let c' := { c with unsent := rest, sent := if isOk then c.sent ++ [req] else c.sent }
    exact .inr (.inl ⟨call, c, c', hc, rfl, rfl, rfl⟩)
  | datagram readers src dg =>
    rcases pollRecv_cases readers s src dg with ⟨heq, -⟩ | ⟨call, c, addr, -, hc, -, heq⟩
    · exact .inl heq
    grind
  | @take call c addr rest hc hl hu hw hq =>
    let c' := { c with queue := rest, addresses := insert addr c.addresses }
    exact .inr (.inl ⟨call, c, c', hc, rfl, rfl, rfl⟩)
  | leave hc hl => grind

/-! ## The table -/

/-- The request is of a call that has not returned. -/
def Pending (s : RealmSocket) (request : StunRequest) (call : Nat) : Prop :=
  ∃ c, s.calls[call]? = some c ∧ c.live = true ∧ request ∈ c.requests

/-- The table has the requests of the calls that have not returned, and no others. -/
structure Registered (s : RealmSocket) : Prop where
  lookup : ∀ request call, Pending s request call → s.transactions request.transaction = some (request.server, call)
  pending : ∀ id server call, s.transactions id = some (server, call) →
    ∃ request, Pending s request call ∧ request.transaction = id ∧ request.server = server

theorem Registered.init : Registered {} where
  lookup := by
    rintro req call ⟨c, hc, -⟩
    cases hc
  pending _ _ _ h := by cases h

/-- A change of a call that keeps its requests and does not end it. -/
theorem pending_set (hc : s.calls[call]? = some c) (hr : c'.requests = c.requests) (hl : c'.live = c.live)
    {req : StunRequest} {other : Nat} :
    Pending { s with calls := s.calls.set call c' } req other ↔ Pending s req other := by
  have hln := (List.getElem?_eq_some_iff.mp hc).1
  constructor
  · rintro ⟨d, hd, hdl, hm⟩
    rcases getElem?_set_cases hd with ⟨rfl, rfl⟩ | ⟨-, hd⟩
    · exact ⟨c, hc, hl.symm.trans hdl, hr ▸ hm⟩
    · exact ⟨d, hd, hdl, hm⟩
  rintro ⟨d, hd, hdl, hm⟩
  by_cases heq : call = other
  · subst heq
    cases hc.symm.trans hd
    exact ⟨c', List.getElem?_set_self hln, hl.trans hdl, hr.symm ▸ hm⟩
  · exact ⟨d, (List.getElem?_set_ne heq).trans hd, hdl, hm⟩

theorem Registered.set (h : Registered s) (hc : s.calls[call]? = some c) (hr : c'.requests = c.requests)
    (hl : c'.live = c.live) : Registered { s with calls := s.calls.set call c' } where
  lookup req other hpend := h.lookup req other ((pending_set hc hr hl).mp hpend)
  pending id server other htable := by
    obtain ⟨req, hpend, hid⟩ := h.pending id server other htable
    grind [pending_set]

theorem Registered.register (h : Registered s) (hrg : s.register reqs = .ok t) : Registered t := by
  obtain ⟨hn, hf, rfl⟩ := register_eq_ok hrg
  constructor
  · rintro req call ⟨c, hc, hl, hm⟩
    rcases getElem?_concat hc with hc | ⟨rfl, rfl⟩
    · have hlk := h.lookup req call ⟨c, hc, hl, hm⟩
      refine (foldl_update_of_not_mem (fun hmem' => ?_) _).trans hlk
      -- The transactions of a new call are not in the table.
      grind
    · obtain ⟨req', hreq', hid, heq⟩ := foldl_update_of_mem (List.mem_map_of_mem hm) s.transactions
      cases List.inj_on_of_nodup_map hn hreq' hm hid
      exact heq
  · intro id server call ht
    by_cases hm : id ∈ reqs.map (·.transaction)
    · obtain ⟨req, hr, hid, heq⟩ := foldl_update_of_mem hm s.transactions
      cases heq.symm.trans ht
      exact ⟨req, ⟨_, List.getElem?_concat_length, rfl, hr⟩, hid, rfl⟩
    have ht := (foldl_update_of_not_mem hm s.transactions).symm.trans ht
    obtain ⟨req, ⟨c, hc, hl, hr⟩, hid⟩ := h.pending id server call ht
    have hln := (List.getElem?_eq_some_iff.mp hc).1
    exact ⟨req, ⟨c, (List.getElem?_append_left hln).trans hc, hl, hr⟩, hid⟩

theorem Registered.leave (h : Registered s) (hc : s.calls[call]? = some c) (hlv : c.live = true) :
    Registered (s.leave call c) := by
  constructor
  · rintro req other ⟨d, hd, hdl, hm⟩
    rcases getElem?_set_cases hd with ⟨rfl, rfl⟩ | ⟨hne, hd⟩
    · cases hdl
    have hl := h.lookup req other ⟨d, hd, hdl, hm⟩
    refine (foldl_update_of_not_mem (fun hmem' => hne ?_) _).trans hl
    -- A transaction is of one call only.
    obtain ⟨req', hreq', heq⟩ := mem_map.mp hmem'
    have hlook' := h.lookup req' call ⟨c, hc, hlv, hreq'⟩
    grind
  · intro id server other ht
    have hm : id ∉ c.requests.map (·.transaction) := by
      intro hm
      obtain ⟨req, -, -, heq⟩ := foldl_update_of_mem hm s.transactions
      cases heq.symm.trans ht
    have ht := (foldl_update_of_not_mem hm s.transactions).symm.trans ht
    obtain ⟨req, ⟨d, hd, hdl, hr⟩, hid, hs⟩ := h.pending id server other ht
    refine ⟨req, ⟨d, (getElem?_set_ne ?_).trans hd, hdl, hr⟩, hid, hs⟩
    grind

theorem Registered.step (h : Registered s) (step : RealmStep s ev t) : Registered t := by
  rcases realmStep_cases step with rfl | ⟨call, c, c', hc, hr, hl, rfl⟩ | ⟨reqs, hrg⟩ |
    ⟨call, c, hc, hl, rfl⟩
  · exact h
  · exact h.set hc hr hl
  · exact h.register hrg
  · exact h.leave hc hl

theorem Registered.run {evs : List RealmEvent} (run : Trace RealmStep {} evs s) : Registered s :=
  run.invariant (fun _ _ _ h step => h.step step) .init

/-- A datagram is an answer for a call if it is a response to one of its requests, and comes
from the server of this request. -/
theorem answers_eq_some_iff (h : Registered s) (hc : s.calls[call]? = some c) (hl : c.live = true)
    {src addr : SocketAddr} {wire : List UInt8} :
    s.answers src wire = some (call, addr) ↔ ∃ req ∈ c.requests,
        parseStunResponse wire = some (req.transaction, addr) ∧ req.server = src := by
  simp only [RealmSocket.answers, Option.bind_eq_bind]
  constructor
  · intro ha
    obtain ⟨⟨id, reported⟩, hp, ha⟩ := Option.bind_eq_some_iff.mp ha
    obtain ⟨⟨server, owner⟩, ht, ha⟩ := Option.bind_eq_some_iff.mp ha
    dsimp only at ht ha
    split at ha
    · rename_i hs
      cases ha
      obtain ⟨req, ⟨d, hd, -, hr⟩, rfl, rfl⟩ := h.pending id server call ht
      grind
    · cases ha
  · rintro ⟨req, hr, hp, rfl⟩
    rw [hp, Option.bind_some, h.lookup req call ⟨c, hc, hl, hr⟩, Option.bind_some, if_pos rfl]

end Hysteria.Proof
