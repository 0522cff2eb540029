import Mathlib.Data.UInt
import Hysteria.Framework.Transition
import Hysteria.Impl.Traffic

/-!
# What the traffic statistics say

A history is the list of the calls so far, each with its result. `Accounted`
relates the state to it: an entry holds what was logged and not taken away by a
snapshot with `clear`, a user is marked as kicked who was named since the last
rejected call, and a user is online as often as there are guards. Each call keeps
this (`Accounted.step`), so it holds after every interleaving of calls
(`traffic_accounted`).
-/

namespace Hysteria.Proof

open Framework Impl TrafficStats List

variable {fromSlice : List UInt8 → Option (List Str)} {s t : TrafficStats} {call : StatsCall} {res : Result}
  {history : List (StatsCall × Result)} {id : Str}

/-! ## What a history says -/

/-- What a snapshot with `clear` has of the user. -/
def clearedEntry (id : Str) : StatsCall × Result → TrafficEntry
  | (.traffic _ query, .reply (.traffic snapshot)) => if clears query then (snapshot.lookup id).getD {} else {}
  | _ => {}

/-- What a call of `log_traffic` that returned true has logged for the user. -/
def loggedEntry (id : Str) : StatsCall × Result → TrafficEntry
  | (.logTraffic id' tx rx, .logged true) => if id' = id then { tx, rx } else {}
  | _ => {}

/-- `log_traffic` returned false. -/
def Rejects (id : Str) : StatsCall × Result → Prop
  | (.logTraffic id' _ _, .logged false) => id' = id
  | _ => False

/-- A call of `/kick` that was accepted and names the user. -/
def Kicks (fromSlice : List UInt8 → Option (List Str)) (id : Str) : StatsCall × Result → Prop
  | (.kick _ body, .reply (.text 200 _)) => ∃ ids, fromSlice body = some ids ∧ id ∈ ids
  | _ => False

/-- The user was kicked, and no call was rejected since. -/
def KickedSince (fromSlice : List UInt8 → Option (List Str)) (id : Str) (history : List (StatsCall × Result)) : Prop :=
  ∃ before kick after, history = before ++ kick :: after ∧ Kicks fromSlice id kick ∧ ∀ x ∈ after, ¬Rejects id x

theorem not_kickedSince_nil : ¬KickedSince fromSlice id [] := by
  rintro ⟨before, kick, after, h, -⟩
  simp at h

theorem kickedSince_concat (x : StatsCall × Result) : KickedSince fromSlice id (history ++ [x]) ↔
      Kicks fromSlice id x ∨ KickedSince fromSlice id history ∧ ¬Rejects id x := by
  constructor
  · rintro ⟨before, kick, after, heq, hk, ha⟩
    rcases eq_nil_or_concat' after with rfl | ⟨after, last, rfl⟩
    · simp_all
    rw [← cons_append, ← append_assoc] at heq
    obtain ⟨rfl, hl⟩ := append_inj' heq rfl
    cases hl
    have hal := forall_mem_append.mp ha
    exact .inr ⟨⟨before, kick, after, rfl, hk, hal.1⟩, hal.2 x mem_cons_self⟩
  · rintro (hk | ⟨⟨before, kick, after, rfl, hk, ha⟩, hx⟩)
    · exact ⟨history, x, [], rfl, hk, by simp⟩
    refine ⟨before, kick, after ++ [x], by simp, hk, ?_⟩
    grind

/-! ## Frames -/

@[simp] theorem logOnlineState_stats (st : TrafficState) (id : Str) (online : Bool) :
    (st.logOnlineState id online).stats = st.stats := by
  unfold TrafficState.logOnlineState
  repeat' split
  all_goals rfl

@[simp] theorem logOnlineState_kicked (st : TrafficState) (id : Str) (online : Bool) :
    (st.logOnlineState id online).kicked = st.kicked := by
  unfold TrafficState.logOnlineState
  repeat' split
  all_goals rfl

/-! ## The entries -/

/-- The current entry of a user. -/
def currentEntry (stats : TrafficStats) (id : Str) : TrafficEntry := (stats.state.stats.lookup id).getD {}

/-- A field of an entry, which is added up. -/
structure Additive (field : TrafficEntry → UInt64) : Prop where
  zero : field {} = 0
  add : ∀ a b : TrafficEntry, field { tx := a.tx + b.tx, rx := a.rx + b.rx } = field a + field b

/-- What one call takes away from an entry, and what it leaves, was there or is logged by it. -/
theorem entry_step {fld : TrafficEntry → UInt64} (hf : Additive fld)
    (h : s.call fromSlice call = some (res, t)) (id : Str) :
    fld (clearedEntry id (call, res)) + fld (currentEntry t id) =
      fld (currentEntry s id) + fld (loggedEntry id (call, res)) := by
  cases call with
  | logTraffic id' tx rx =>
    simp only [TrafficStats.call, TrafficState.logTraffic] at h
    split at h
    · cases h
      simp [clearedEntry, loggedEntry, currentEntry, hf.zero]
    cases h
    simp only [clearedEntry, loggedEntry, currentEntry, hf.zero, UInt64.zero_add]
    by_cases hid : id = id'
    · subst hid
      rw [AList.lookup_insert, Option.getD_some, if_pos rfl]
      exact hf.add _ { tx, rx }
    · rw [AList.lookup_insert_ne hid, if_neg (Ne.symm hid), hf.zero, UInt64.add_zero]
  | traffic hdrs query =>
    simp only [TrafficStats.call, TrafficStats.traffic] at h
    split at h
    · cases h
      simp [clearedEntry, loggedEntry, StatsReply.unauthorized, hf.zero]
    cases h
    by_cases hc : clears query
    · simp [clearedEntry, loggedEntry, currentEntry, hc, hf.zero]
    · simp [clearedEntry, loggedEntry, currentEntry, hc, hf.zero]
  | online hdrs =>
    cases h
    simp [clearedEntry, loggedEntry, hf.zero]
  | kick hdrs body =>
    simp only [TrafficStats.call, TrafficStats.kick] at h
    split at h
    · cases h
      simp [clearedEntry, loggedEntry, hf.zero]
    grind [clearedEntry, loggedEntry, currentEntry]
  | newGuard id' =>
    cases h
    simp [clearedEntry, loggedEntry, currentEntry, hf.zero]
  | dropGuard guard =>
    obtain ⟨id', -, h⟩ := Option.bind_eq_some_iff.mp h
    cases h
    simp [clearedEntry, loggedEntry, currentEntry, hf.zero]

/-! ## Kicked users -/

theorem kicked_step (h : s.call fromSlice call = some (res, t)) (id : Str) : id ∈ t.state.kicked ↔
      Kicks fromSlice id (call, res) ∨ id ∈ s.state.kicked ∧ ¬Rejects id (call, res) := by
  cases call with
  | logTraffic id' tx rx =>
    simp only [TrafficStats.call, TrafficState.logTraffic] at h
    split at h
    · cases h
      simp [Kicks, Rejects, and_comm, eq_comm]
    · cases h
      simp [Kicks, Rejects]
  | traffic hdrs query =>
    simp only [TrafficStats.call, TrafficStats.traffic] at h
    split at h
    · cases h
      simp [Kicks, Rejects]
    · cases h
      by_cases hc : clears query <;> simp [Kicks, Rejects, hc]
  | online hdrs =>
    cases h
    simp [Kicks, Rejects]
  | kick hdrs body =>
    simp only [TrafficStats.call, TrafficStats.kick] at h
    split at h
    · cases h
      simp [Kicks, Rejects, StatsReply.unauthorized]
    split at h
    · cases h
      simp [Kicks, Rejects]
    rename_i ids hi
    cases h
    simp [Kicks, Rejects, hi, or_comm]
  | newGuard id' =>
    cases h
    simp [Kicks, Rejects]
  | dropGuard guard =>
    obtain ⟨id', -, h⟩ := Option.bind_eq_some_iff.mp h
    cases h
    simp [Kicks, Rejects]

/-- `log_traffic` returns false to a user who is marked as kicked. -/
theorem logged_eq {tx rx : UInt64} {allowed : Bool}
    (h : s.call fromSlice (.logTraffic id tx rx) = some (.logged allowed, t)) :
    allowed = false ↔ id ∈ s.state.kicked := by
  simp only [TrafficStats.call, TrafficState.logTraffic] at h
  split at h <;> cases h <;> simpa

/-! ## Users online -/

/-- A user is in the map with the number of guards, if there are any. -/
def OnlineCounted (s : TrafficStats) : Prop :=
  ∀ id, s.state.online.lookup id = if s.guards.count id = 0 then none else some (s.guards.count id)

theorem count_eraseIdx {guards : List Str} {guard : Nat} (h : guards[guard]? = some id) (id' : Str) :
    guards.count id' = (guards.eraseIdx guard).count id' + if id = id' then 1 else 0 := by
  obtain ⟨hlt, rfl⟩ := List.getElem?_eq_some_iff.mp h
  rw [← (List.getElem_cons_eraseIdx_perm hlt).count_eq, List.count_cons]
  simp only [beq_iff_eq]

theorem OnlineCounted.newGuard (h : OnlineCounted s) (id : Str) :
    OnlineCounted { s with state := s.state.logOnlineState id true, guards := s.guards ++ [id] } := by
  intro id'
  simp only [TrafficState.logOnlineState, if_true, count_append, count_singleton, beq_iff_eq]
  by_cases hid : id' = id
  · subst hid
    rw [AList.lookup_insert, h id', if_pos rfl, if_neg (Nat.succ_ne_zero _)]
    grind
  · rw [AList.lookup_insert_ne hid, h id', if_neg (Ne.symm hid), Nat.add_zero]

theorem OnlineCounted.dropGuard (h : OnlineCounted s) {guard : Nat} (hg : s.guards[guard]? = some id) :
    OnlineCounted { s with state := s.state.logOnlineState id false, guards := s.guards.eraseIdx guard } := by
  have hc := count_eraseIdx hg
  have hl : s.state.online.lookup id = some ((s.guards.eraseIdx guard).count id + 1) := by
    rw [h id, hc id, if_pos rfl, if_neg (by omega)]
  intro id'
  simp only [TrafficState.logOnlineState, Bool.false_eq_true, if_false, hl, Nat.add_sub_cancel]
  by_cases hid : id' = id
  · grind [AList.lookup_erase, AList.lookup_insert]
  have ho : s.state.online.lookup id' =
      if (s.guards.eraseIdx guard).count id' = 0 then none else some ((s.guards.eraseIdx guard).count id') := by
    rw [h id', hc id', if_neg (Ne.symm hid), Nat.add_zero]
  grind [AList.lookup_erase_ne, AList.lookup_insert_ne]

theorem OnlineCounted.step (h : OnlineCounted s) (hc : s.call fromSlice call = some (res, t)) : OnlineCounted t := by
  cases call with
  | logTraffic id tx rx =>
    simp only [TrafficStats.call, TrafficState.logTraffic] at hc
    split at hc <;> cases hc <;> exact h
  | traffic hdrs query =>
    simp only [TrafficStats.call, TrafficStats.traffic] at hc
    split at hc <;> cases hc
    · exact h
    · split <;> exact h
  | online hdrs =>
    cases hc
    exact h
  | kick hdrs body =>
    simp only [TrafficStats.call, TrafficStats.kick] at hc
    split at hc
    · cases hc
      exact h
    · split at hc <;> cases hc <;> exact h
  | newGuard id =>
    cases hc
    exact h.newGuard id
  | dropGuard guard =>
    obtain ⟨id, hg, hc⟩ := Option.bind_eq_some_iff.mp hc
    cases hc
    exact h.dropGuard hg

/-! ## Histories -/

structure Accounted (fromSlice : List UInt8 → Option (List Str)) (history : List (StatsCall × Result))
    (s : TrafficStats) : Prop where
  entries : ∀ field, Additive field → ∀ id,
    (history.map fun x => field (clearedEntry id x)).sum + field (currentEntry s id) =
      (history.map fun x => field (loggedEntry id x)).sum
  kicked : ∀ id, id ∈ s.state.kicked ↔ KickedSince fromSlice id history
  online : OnlineCounted s

theorem accounted_new (secret : Str) : Accounted fromSlice [] { secret } where
  entries field hf id := by simp [currentEntry, hf.zero]
  kicked id := iff_of_false (by simp) not_kickedSince_nil
  online id := by simp

theorem Accounted.step (h : Accounted fromSlice history s) (hc : s.call fromSlice call = some (res, t)) :
    Accounted fromSlice (history ++ [(call, res)]) t where
  entries field hf id := by
    have hb := h.entries field hf id
    have hs := entry_step hf hc id
    grind
  kicked id := by rw [kicked_step hc, kickedSince_concat, h.kicked]
  online := h.online.step hc

theorem accounted_run {secret : Str} (run : Trace (TrafficStats.Step fromSlice) { secret } history s) :
    Accounted fromSlice history s :=
  run.history (fun _ _ _ _ h hc => h.step hc) (accounted_new secret)

/-- After every interleaving of calls: the traffic of a user is what was logged,
`log_traffic` has returned false to kicked users only and once for each kick,
and a user is online as often as there are guards. -/
theorem traffic_accounted (fromSlice : List UInt8 → Option (List Str)) (secret : Str)
    (history : List (StatsCall × Result)) (s : TrafficStats)
    (run : Trace (TrafficStats.Step fromSlice) { secret } history s) :
    (∀ id, (history.map fun x => (clearedEntry id x).tx).sum + (currentEntry s id).tx =
          (history.map fun x => (loggedEntry id x).tx).sum ∧
        (history.map fun x => (clearedEntry id x).rx).sum + (currentEntry s id).rx =
          (history.map fun x => (loggedEntry id x).rx).sum) ∧
    (∀ before id tx rx allowed after, history = before ++ (.logTraffic id tx rx, .logged allowed) :: after →
        (allowed = false ↔ KickedSince fromSlice id before)) ∧
    ∀ id, s.state.online.lookup id = if s.guards.count id = 0 then none else some (s.guards.count id) := by
  have h := accounted_run run
  refine ⟨fun id => ⟨h.entries _ (⟨rfl, fun _ _ => rfl⟩) id, h.entries _ (⟨rfl, fun _ _ => rfl⟩) id⟩, ?_, h.online⟩
  rintro before id tx rx allowed after rfl
  obtain ⟨u, first, rest⟩ := run.split
  cases rest with
  | cons hc _ => rw [logged_eq hc, (accounted_run first).kicked]

def exampleUser : Str := "alice"

/-- A snapshot with `clear` between two calls of `log_traffic`, and a kick before the second. -/
def exampleHistory : List (StatsCall × Result) :=
  [(.newGuard exampleUser, .done), (.logTraffic exampleUser 5 7, .logged true),
    (.traffic [] fun _ => some "1", .reply (.traffic (AList.singleton exampleUser { tx := 5, rx := 7 }))),
    (.kick [] [], .reply (.text 200 [])), (.logTraffic exampleUser 1 1, .logged false)]

theorem exampleHistory_run : Trace (TrafficStats.Step fun _ => some [exampleUser]) { secret := [] } exampleHistory
      { state := { online := AList.singleton exampleUser 1 }, secret := [], guards := [exampleUser] } :=
  .cons rfl (.cons rfl (.cons rfl (.cons rfl (.cons rfl (.nil _)))))

theorem traffic_accounted_example : (exampleHistory.map fun x => (clearedEntry exampleUser x).tx).sum + 0 =
        (exampleHistory.map fun x => (loggedEntry exampleUser x).tx).sum ∧
      KickedSince (fun _ => some [exampleUser]) exampleUser (exampleHistory.take 4) := by
  obtain ⟨he, hk, -⟩ := traffic_accounted _ _ _ _ exampleHistory_run
  exact ⟨(he exampleUser).1, (hk _ exampleUser 1 1 false [] rfl).mp rfl⟩

end Hysteria.Proof
