import Hysteria.Impl.Transport.TcpRelay
import Hysteria.Proof.Transport.FastOpen

/-!
# What a TCP stream relays

A direction takes bytes off its source, has them logged and writes them
(`Copying`); `RelayInv` says so for both directions in each stage of the task.
Once the task has returned only its bounds are left (`Held`), and that a verdict
against a chunk was the end of it (`Refused`).
-/

namespace Hysteria.Proof

open Framework Relation Impl List

variable {σ τ κ : Type} {context : TcpServerContext σ τ κ} {s s' : Relay σ}
variable {tx : Bool} {d' : Direction} {call : Logged} {src : RecvStream} {piece : Nat}

/-! ## The log -/

/-- The bytes of a call in a direction. -/
def loggedSize (tx : Bool) (call : Logged) : Nat := (if tx then call.tx else call.rx).toNat

/-- The bytes of the calls that were allowed. -/
def accepted (tx : Bool) (logged : List Logged) : Nat := ((logged.filter (·.allowed)).map (loggedSize tx)).sum

theorem accepted_concat (tx : Bool) (logged : List Logged) (call : Logged) :
    accepted tx (logged ++ [call]) = accepted tx logged + if call.allowed then loggedSize tx call else 0 := by
  cases h : call.allowed <;> simp [accepted, filter_append, h]

/-- There is a logger. -/
abbrev Logs (context : TcpServerContext σ τ κ) : Prop := context.trafficLogger.isSome = true

/-- A chunk of `n` bytes is logged in its direction: it may go on, or this is the
last call. -/
theorem log_cases (context : TcpServerContext σ τ κ) (s : Relay σ) (tx : Bool) {n : Nat} (hn : n < 2 ^ 64) :
    (∃ w logged, s.log context (if tx then UInt64.ofNat n else 0) (if tx then 0 else UInt64.ofNat n) =
        (true, { s with world := w, logged }) ∧
      (Logs context → accepted tx logged = accepted tx s.logged + n) ∧
      accepted (!tx) logged = accepted (!tx) s.logged ∧
      ((∀ call ∈ s.logged, call.allowed = true) → ∀ call ∈ logged, call.allowed = true)) ∨
    ∃ w call, s.log context (if tx then UInt64.ofNat n else 0) (if tx then 0 else UInt64.ofNat n) =
        (false, { s with world := w, logged := s.logged ++ [call] }) ∧ Logs context ∧
      call.allowed = false ∧ loggedSize tx call = n ∧ loggedSize (!tx) call = 0 := by
  have hs (allowed : Bool) :
      loggedSize tx ⟨if tx then UInt64.ofNat n else 0, if tx then 0 else UInt64.ofNat n, allowed⟩ = n := by
    cases tx <;> exact UInt64.toNat_ofNat_of_lt' hn
  have ho (allowed : Bool) :
      loggedSize (!tx) ⟨if tx then UInt64.ofNat n else 0, if tx then 0 else UInt64.ofNat n, allowed⟩ = 0 := by
    cases tx <;> rfl
  unfold Relay.log TcpServerContext.log logTraffic Logs
  rcases context.trafficLogger with _ | log
  · simp
  simp only [Option.map_some, Option.isSome_some, if_true]
  cases log.logTraffic context.authId (if tx then UInt64.ofNat n else 0) (if tx then 0 else UInt64.ofNat n)
      s.world with
  | mk allowed w =>
    cases allowed with
    | false => grind
    | true =>
      refine .inl ⟨w, _, rfl, fun _ => ?_, ?_, fun ha => ?_⟩
      · rw [accepted_concat, if_pos rfl, hs]
      · rw [accepted_concat, if_pos rfl, ho, Nat.add_zero]
      grind

/-! ## Directions -/

theorem direction_set_self (s : Relay σ) (tx : Bool) (d : Direction) : (s.set tx d).direction tx = d :=
  Function.update_self ..

theorem direction_set_not (s : Relay σ) (tx : Bool) (d : Direction) :
    (s.set tx d).direction (!tx) = s.direction (!tx) :=
  Function.update_of_ne (Bool.not_ne_self tx) ..

/-- A property of both directions, after one was set. -/
theorem forall_direction {P : Bool → Direction → Prop} {d : Direction} (hs : P tx d)
    (ho : P (!tx) (s.direction (!tx))) (tx' : Bool) : P tx' ((s.set tx d).direction tx') := by
  by_cases h : tx' = tx
  · subst h
    rwa [direction_set_self]
  have : tx' = !tx := Bool.eq_not_of_ne h
  subst this
  rwa [direction_set_not]

/-- A direction has taken `left` off its source, had it logged, and is to write
it. `unread` is to be taken next. -/
structure Copying (logs : Prop) (total : Nat) (d : Direction) (left unread : List UInt8) : Prop where
  flow : d.content = d.written ++ left ++ unread
  count : logs → total = d.written.length + left.length

/-- A direction has ended without an error. -/
def CopyEnded (d : Direction) : Prop := d.state = .closing ∨ d.state = .returned (.ok ())

/-- What stays of a direction, whatever ends it. -/
structure Held (logs : Prop) (total : Nat) (d : Direction) : Prop where
  inOrder : d.written <+: d.content
  bounded : logs → d.written.length ≤ total
  ended : CopyEnded d → d.source.finished = true ∧ d.written = d.content ∧ (logs → total = d.written.length)

variable {logs : Prop} {tot : Nat} {d : Direction} {left unread bs : List UInt8}

theorem Copying.held (h : Copying logs tot d left unread)
    (he : CopyEnded d → d.source.finished = true ∧ left = [] ∧ unread = []) : Held logs tot d := by
  refine ⟨⟨left ++ unread, by rw [h.flow, append_assoc]⟩, fun hl => ?_, fun hen => ?_⟩
  · have := h.count hl
    omega
  grind [h.count, h.flow]

/-- More bytes come for a direction, or its source is finished. -/
structure SourceGrows (d d' : Direction) (bytes : List UInt8) : Prop where
  content : d'.content = d.content ++ bytes
  buffer : d'.source.buffer = d.source.buffer ++ bytes
  written : d'.written = d.written
  state : d'.state = d.state
  finished : d.source.finished = true → bytes = [] ∧ d'.source.finished = true

theorem Copying.grows (h : Copying logs tot d left unread) (hg : SourceGrows d d' bs) :
    Copying logs tot d' left (unread ++ bs) := by
  refine ⟨?_, ?_⟩
  · rw [hg.content, hg.written, h.flow, append_assoc]
  · rw [hg.written]
    exact h.count

theorem Copying.taken (h : Copying logs tot d [] (bs ++ unread)) {tot' : Nat} (ht : logs → tot' = tot + bs.length)
    (src : RecvStream) (st : CopyState) : Copying logs tot' { d with source := src, state := st } bs unread := by
  refine ⟨?_, fun hl => ?_⟩
  · grind [h.flow]
  grind [h.count hl]

theorem Copying.wrote (h : Copying logs tot d left unread) (n : Nat) (st : CopyState) :
    Copying logs tot { d with written := d.written ++ left.take n, state := st } (left.drop n) unread := by
  refine ⟨?_, fun hl => ?_⟩
  · simp only [h.flow, append_assoc, append_cancel_left_eq]
    rw [← append_assoc, take_append_drop]
  grind [h.count hl]

theorem Held.grows (h : Held logs tot d) (hg : SourceGrows d d' bs) : Held logs tot d' := by
  refine ⟨?_, ?_, fun he => ?_⟩
  · rw [hg.content, hg.written]
    exact h.inOrder.trans (prefix_append ..)
  · rw [hg.written]
    exact h.bounded
  rw [CopyEnded, hg.state] at he
  obtain ⟨hf, hwr, ht⟩ := h.ended he
  obtain ⟨rfl, hfin'⟩ := hg.finished hf
  rw [hg.content, hg.written, append_nil]
  exact ⟨hfin', hwr, ht⟩

/-! ## The stages of the task -/

/-- What is left to be written of a chunk. -/
def unwritten : CopyState → List UInt8
  | .writing left => left
  | _ => []

/-- A direction in `try_join!`. -/
structure Joining (logs : Prop) (total : Nat) (d : Direction) : Prop where
  copying : Copying logs total d (unwritten d.state) d.source.buffer
  ended : CopyEnded d → d.source = ⟨[], true⟩

theorem Joining.copying_of (h : Joining logs tot d) {st : CopyState} (hst : d.state = st) :
    Copying logs tot d (unwritten st) d.source.buffer := hst ▸ h.copying

theorem not_copyEnded (hst : d.state = .reading) : ¬ CopyEnded d := by
  rintro (he | he) <;> cases hst.symm.trans he

theorem joining_of_reading (hst : d.state = .reading) (h : Copying logs tot d [] d.source.buffer) :
    Joining logs tot d := by
  refine ⟨?_, fun he => absurd he (not_copyEnded hst)⟩
  rw [hst]
  exact h

theorem Joining.grows (h : Joining logs tot d) (hg : SourceGrows d d' bs) : Joining logs tot d' := by
  refine ⟨?_, fun he => ?_⟩
  · rw [hg.state, hg.buffer]
    exact h.copying.grows hg
  rw [CopyEnded, hg.state] at he
  have hs := h.ended he
  grind [hg.finished, hg.buffer, RecvStream.ext]

theorem Joining.held (h : Joining logs tot d) : Held logs tot d := by
  refine h.copying.held fun he => ?_
  rw [h.ended he]
  rcases he with hst | hst <;> exact ⟨rfl, by rw [hst]; rfl, rfl⟩

theorem Held.fail (h : Held logs tot d) (err : TransportError) :
    Held logs tot { d with state := .returned (.error err) } := by
  refine ⟨h.inOrder, h.bounded, fun he => ?_⟩
  rcases he with hst | hst <;> cases hst

/-- The logger was against a chunk of a direction: nothing of it was written, and
the connection is closed. -/
structure Refused (s : Relay σ) (call : Logged) : Prop where
  closed : s.closed = some closeTrafficLimitReached
  chunk : ∃ tx chunk, chunk ≠ [] ∧ loggedSize tx call = chunk.length ∧ loggedSize (!tx) call = 0 ∧
    (s.direction tx).written ++ chunk <+: (s.direction tx).content ∧
    (s.direction tx).written.length = accepted tx s.logged

inductive RelayInv (context : TcpServerContext σ τ κ) (s : Relay σ) : Prop
  | hooked {putback : List UInt8} (hstage : s.stage = .hooked putback) (hfits : putback.length < 2 ^ 64)
    (hallowed : ∀ call ∈ s.logged, call.allowed = true) (hstate : ∀ tx, (s.direction tx).state = .reading)
    (hcopying : ∀ tx, Copying (Logs context) (accepted tx s.logged) (s.direction tx) []
      ((if tx then putback else []) ++ (s.direction tx).source.buffer))
  | writingPrefix {left : List UInt8} (hstage : s.stage = .writingPrefix left)
    (hallowed : ∀ call ∈ s.logged, call.allowed = true) (hstate : ∀ tx, (s.direction tx).state = .reading)
    (hcopying : ∀ tx, Copying (Logs context) (accepted tx s.logged) (s.direction tx) (if tx then left else [])
      (s.direction tx).source.buffer)
  | joining (hstage : s.stage = .joining) (hallowed : ∀ call ∈ s.logged, call.allowed = true)
    (hjoining : ∀ tx, Joining (Logs context) (accepted tx s.logged) (s.direction tx))
  | returned (hstage : s.stage = .returned)
    (hheld : ∀ tx, Held (Logs context) (accepted tx s.logged) (s.direction tx))
    (hrefused : ∀ call ∈ s.logged, call.allowed = false → Refused s call)

theorem relayInv_start (hook : HookOutcome) (w : σ) : RelayInv context (Relay.start hook w) := by
  refine .hooked rfl hook.fits (fun _ h => absurd h not_mem_nil) (fun tx => ?_) (fun tx => ?_)
  · cases tx <;> rfl
  cases tx with
  | false => exact ⟨rfl, fun _ => rfl⟩
  | true =>
    refine ⟨?_, fun _ => rfl⟩
    show hook.content = hook.putback ++ hook.content.drop hook.consumed
    rw [hook.putback_eq, take_append_drop]

theorem Refused.mono (h : Refused s call) (hcl : s'.closed = s.closed)
    (hl : s'.logged = s.logged) (hwr : ∀ tx, (s'.direction tx).written = (s.direction tx).written)
    (hc : ∀ tx, (s.direction tx).content <+: (s'.direction tx).content) : Refused s' call := by
  obtain ⟨tx, chunk, hne, hs, hot, ho, hcn⟩ := h.chunk
  refine ⟨hcl.trans h.closed, tx, chunk, hne, hs, hot, ?_, ?_⟩
  · rw [hwr]
    exact ho.trans (hc tx)
  · rw [hwr, hl, hcn]

/-! ## Steps -/

/-- One direction was set, and both are still copied. -/
theorem joining_set (hs : s.stage = .joining) (ha : ∀ call ∈ s.logged, call.allowed = true)
    (hd : Joining (Logs context) (accepted tx s.logged) d)
    (ho : Joining (Logs context) (accepted (!tx) s.logged) (s.direction !tx)) : RelayInv context (s.set tx d) :=
  .joining hs ha (forall_direction (P := fun tx => Joining (Logs context) (accepted tx s.logged)) hd ho)

theorem RelayInv.grows (h : RelayInv context s) {d : Direction}
    (hg : SourceGrows (s.direction tx) d bs) : RelayInv context (s.set tx d) := by
  have hr (hst : ∀ tx, (s.direction tx).state = .reading) (tx' : Bool) :
      ((s.set tx d).direction tx').state = .reading :=
    forall_direction (P := fun _ d => d.state = .reading) (hg.state.trans (hst tx)) (hst !tx) tx'
  cases h with
  | hooked hs hf ha hst hc =>
    refine .hooked hs hf ha (hr hst) ?_
    refine forall_direction (P := fun tx d => Copying (Logs context) (accepted tx s.logged) d []
      ((if tx then _ else []) ++ d.source.buffer)) ?_ (hc !tx)
    rw [hg.buffer, ← append_assoc]
    exact (hc tx).grows hg
  | writingPrefix hs ha hst hc =>
    refine .writingPrefix hs ha (hr hst) ?_
    refine forall_direction (P := fun tx d => Copying (Logs context) (accepted tx s.logged) d (if tx then _ else [])
      d.source.buffer) ?_ (hc !tx)
    rw [hg.buffer]
    exact (hc tx).grows hg
  | joining hs ha hj =>
    exact joining_set hs ha ((hj tx).grows hg) (hj !tx)
  | returned hs hh hrf =>
    refine .returned hs (forall_direction (P := fun tx => Held (Logs context) (accepted tx s.logged))
      ((hh tx).grows hg) (hh !tx)) fun call hcl hn => (hrf call hcl hn).mono rfl rfl ?_ ?_
    · exact forall_direction (P := fun tx d => d.written = (s.direction tx).written) hg.written rfl
    · exact forall_direction (P := fun tx d => (s.direction tx).content <+: d.content)
        (by rw [hg.content]; exact prefix_append ..) prefix_rfl

theorem accepted_refused (hn : call.allowed = false) (tx : Bool) (logged : List Logged) :
    accepted tx (logged ++ [call]) = accepted tx logged := by
  rw [accepted_concat, hn]
  rfl

/-- The verdict on a chunk is the last one, if it is against it. -/
theorem refused_last (s' : Relay σ) {chunk : List UInt8}
    (hcp : Copying (Logs context) (accepted tx s.logged) (s.direction tx) [] (chunk ++ unread))
    (hlg : Logs context) (ha : ∀ call ∈ s.logged, call.allowed = true) (hne : chunk ≠ [])
    (hn : call.allowed = false) (hs : loggedSize tx call = chunk.length) (ho : loggedSize (!tx) call = 0)
    (hcl : s'.closed = some closeTrafficLimitReached) (hl : s'.logged = s.logged ++ [call])
    (hwr : (s'.direction tx).written = (s.direction tx).written)
    (hc : (s'.direction tx).content = (s.direction tx).content) :
    ∀ call ∈ s'.logged, call.allowed = false → Refused s' call := by
  rw [hl]
  refine forall_mem_append.mpr ⟨fun call' hcall' hnot' => ?_, forall_mem_singleton.mpr fun _ => ?_⟩
  · cases hnot'.symm.trans (ha call' hcall')
  refine ⟨hcl, tx, chunk, hne, hs, ho, ?_, ?_⟩
  · grind [hcp.flow]
  · rw [hwr, hl, accepted_refused hn]
    exact (hcp.count hlg).symm

theorem not_refused (ha : ∀ call ∈ s.logged, call.allowed = true) (call : Logged) (hc : call ∈ s.logged)
    (hn : call.allowed = false) : Refused s' call := by cases hn.symm.trans (ha call hc)

theorem relayInv_failed {err : TransportError}
    (hh : ∀ tx, Held (Logs context) (accepted tx s.logged) (s.direction tx))
    (hr : ∀ call ∈ (s.directionReturned tx (.error err)).logged, call.allowed = false →
      Refused (s.directionReturned tx (.error err)) call) : RelayInv context (s.directionReturned tx (.error err)) := by
  refine .returned rfl ?_ hr
  exact forall_direction (P := fun tx => Held (Logs context) (accepted tx s.logged)) ((hh tx).fail err) (hh !tx)

theorem RelayInv.hookedPrefix {putback : List UInt8} (h : RelayInv context s) (hs : s.stage = .hooked putback) :
    RelayInv context (s.writeHookedPrefix context putback) := by
  cases h with
  | writingPrefix hstg' | joining hstg' | returned hstg' => cases hs.symm.trans hstg'
  | hooked hstg' hf ha hst hc =>
    cases hs.symm.trans hstg'
    unfold Relay.writeHookedPrefix
    split
    · rename_i hnl
      cases hnl
      refine .joining rfl ha fun tx => joining_of_reading (hst tx) ?_
      grind
    · rename_i hne
      rcases log_cases context s true hf with ⟨w, logged, hl, ht, ho, hal⟩ |
        ⟨w, call, hl, hlg, hn, hsz, ho⟩
      · rw [if_pos rfl, if_pos rfl] at hl
        rw [hl]
        refine .writingPrefix rfl (hal ha) hst fun tx => ?_
        cases tx with
        | true => exact (hc true).taken ht _ _
        | false =>
          grind
      · rw [if_pos rfl, if_pos rfl] at hl
        rw [hl]
        refine .returned rfl (fun tx => ?_) ?_
        · rw [accepted_refused hn]
          exact (hc tx).held fun he => absurd he (not_copyEnded (hst tx))
        · exact refused_last _ (hc true) hlg ha hne hn hsz ho rfl rfl rfl rfl

theorem RelayInv.prefixWritten (h : RelayInv context s) (hs : s.stage = .writingPrefix left) (n : Nat) :
    RelayInv context (s.prefixWritten left n) := by
  cases h with
  | hooked hstg' | joining hstg' | returned hstg' => cases hs.symm.trans hstg'
  | writingPrefix hstg' ha hst hc =>
    cases hs.symm.trans hstg'
    have hl : Copying (Logs context) (accepted true s.logged) (s.direction true) left
      (s.direction true).source.buffer := hc true
    have htx := hl.wrote n (s.direction true).state
    unfold Relay.prefixWritten
    by_cases hn : left.drop n = []
    · simp only [hn, if_true]
      refine joining_set (s := { s with stage := .joining }) rfl ha ?_ ?_
      · grind [joining_of_reading]
      · exact joining_of_reading (hst false) (hc false)
    · simp only [hn, if_false]
      refine .writingPrefix rfl ha (forall_direction (P := fun _ d => d.state = .reading) (hst _) (hst _))
        (forall_direction (P := fun tx d => Copying (Logs context) (accepted tx s.logged) d
          (if tx then left.drop n else []) d.source.buffer) htx (hc false))

theorem RelayInv.prefixError (h : RelayInv context s) (hs : s.stage = .writingPrefix left) :
    RelayInv context { s with stage := .returned } := by
  cases h with
  | hooked hstg' | joining hstg' | returned hstg' => cases hs.symm.trans hstg'
  | writingPrefix hstg' ha hst hc =>
    refine .returned rfl (fun tx => ?_) (not_refused ha)
    exact (hc tx).held fun he => absurd he (not_copyEnded (hst tx))

theorem RelayInv.of_joining (h : RelayInv context s) (hs : s.stage = .joining) :
    (∀ call ∈ s.logged, call.allowed = true) ∧
      ∀ tx, Joining (Logs context) (accepted tx s.logged) (s.direction tx) := by
  cases h with
  | hooked hstg' | writingPrefix hstg' | returned hstg' => cases hs.symm.trans hstg'
  | joining hstg' ha hj => exact ⟨ha, hj⟩

theorem set_set (s : Relay σ) (tx : Bool) (d d' : Direction) : (s.set tx d).set tx d' = s.set tx d' :=
  congrArg (fun direction => { s with direction }) (Function.update_idem ..)

/-- A read leaves the rest of the source, and gives nothing at its end only. -/
theorem source_of_pollRead {stream : RecvStream} (hr : stream.pollRead copyBufferSize piece = (.ready (.ok bs), src)) :
    bs ++ src.buffer = stream.buffer ∧ (bs = [] → src = ⟨[], true⟩) := by
  rcases pollRead_cases stream copyBufferSize piece with ⟨heq, -⟩ | ⟨bs', src', heq, hb, hf, he⟩
  · cases hr.symm.trans heq
  cases hr.symm.trans heq
  refine ⟨hb, ?_⟩
  rintro rfl
  obtain ⟨hn, ht⟩ := he (by decide) rfl
  exact RecvStream.ext (hb.trans hn) (hf.trans ht)

/-- A chunk is taken off the source and logged, or the source has ended. -/
theorem RelayInv.received (h : RelayInv context s) (hs : s.stage = .joining) (hst : (s.direction tx).state = .reading)
    (hr : (s.direction tx).source.pollRead copyBufferSize piece = (.ready (.ok bs), src)) :
    RelayInv context (s.received context tx bs src) := by
  obtain ⟨ha, hj⟩ := h.of_joining hs
  have hf : bs.length < 2 ^ 64 := Nat.lt_of_le_of_lt (length_pollRead_le hr) (by decide)
  obtain ⟨hb, he⟩ := source_of_pollRead hr
  have hc := hb ▸ (hj tx).copying_of hst
  unfold Relay.received
  simp only [direction_set_self, set_set]
  split
  · rename_i hz
    cases eq_nil_of_length_eq_zero hz
    exact joining_set hs ha ⟨⟨hc.flow, hc.count⟩, fun _ => he rfl⟩ (hj !tx)
  · rename_i hne
    -- A chunk is counted before it is written; one that the logger refuses is not written at all.
    rcases log_cases context (s.set tx { s.direction tx with source := src }) tx hf with
      ⟨world, logged, hl, ht, ho, hal⟩ | ⟨world, call, hl, hlg, hn, hsz, ho⟩
    · rw [hl]
      refine joining_set hs (hal ha) ?_ ?_
      · simp only [direction_set_self]
        refine ⟨hc.taken ht src _, fun he => ?_⟩
        rcases he with he | he <;> cases he
      · simp only [direction_set_not, ho]
        exact hj !tx
    · rw [hl]
      refine relayInv_failed (forall_direction (P := fun tx => Held (Logs context) (accepted tx (s.logged ++ [call])))
        ?_ ?_) ?_
      · rw [accepted_refused hn]
        have hh := (hj tx).held
        exact ⟨hh.inOrder, hh.bounded, fun he => absurd he (not_copyEnded hst)⟩
      · rw [accepted_refused hn]
        exact (hj !tx).held
      have hnl : bs ≠ [] := fun hnl => hne (congrArg length hnl)
      refine refused_last _ hc hlg ha hnl hn hsz ho rfl rfl ?_ ?_
      · simp only [Relay.directionReturned, Relay.joined, direction_set_self]
      · simp only [Relay.directionReturned, Relay.joined, direction_set_self]

theorem RelayInv.chunkWritten (h : RelayInv context s) (hs : s.stage = .joining)
    (hst : (s.direction tx).state = .writing left) (n : Nat) : RelayInv context (s.chunkWritten tx left n) := by
  obtain ⟨ha, hj⟩ := h.of_joining hs
  have hc : Copying (Logs context) (accepted tx s.logged) (s.direction tx) left (s.direction tx).source.buffer :=
    (hj tx).copying_of hst
  refine joining_set hs ha ?_ (hj !tx)
  by_cases hn : left.drop n = []
  · have := hc.wrote n .reading
    simp only [hn, if_true] at this ⊢
    exact joining_of_reading rfl this
  simp only [hn, if_false]
  refine ⟨hc.wrote n _, fun he => ?_⟩
  rcases he with he | he <;> cases he

theorem RelayInv.failed (h : RelayInv context s) (hs : s.stage = .joining) (tx : Bool) (txt : Str) :
    RelayInv context (s.directionReturned tx (.error (.io txt))) := by
  obtain ⟨ha, hj⟩ := h.of_joining hs
  exact relayInv_failed (fun tx => (hj tx).held) (not_refused ha)

theorem directionReturned_ok (s : Relay σ) (tx : Bool) : s.directionReturned tx (.ok ()) =
        (s.set tx { s.direction tx with state := .returned (.ok ()) }).joined (.ok ()) ∨
      s.directionReturned tx (.ok ()) = s.set tx { s.direction tx with state := .returned (.ok ()) } := by
  simp only [Relay.directionReturned]
  generalize ((s.set tx { s.direction tx with state := .returned (.ok ()) }).direction !tx).state = state
  grind

theorem RelayInv.shutdown (h : RelayInv context s) (hs : s.stage = .joining)
    (hst : (s.direction tx).state = .closing) : RelayInv context (s.directionReturned tx (.ok ())) := by
  obtain ⟨ha, hj⟩ := h.of_joining hs
  have hc := (hj tx).copying_of hst
  have hse : RelayInv context (s.set tx { s.direction tx with state := .returned (.ok ()) }) :=
    joining_set hs ha ⟨⟨hc.flow, hc.count⟩, fun _ => (hj tx).ended (.inl hst)⟩ (hj !tx)
  rcases directionReturned_ok s tx with heq | heq <;> rw [heq]
  · exact .returned rfl (fun tx => ((hse.of_joining hs).2 tx).held) (not_refused ha)
  · exact hse

theorem RelayInv.outside (h : RelayInv context s) (w : σ) : RelayInv context { s with world := w } := by
  cases h with
  | hooked hs hf ha hst hc => exact .hooked hs hf ha hst hc
  | writingPrefix hs ha hst hc => exact .writingPrefix hs ha hst hc
  | joining hs ha hj => exact .joining hs ha hj
  | returned hs hh hr =>
    exact .returned hs hh fun call hcl hn =>
      (hr call hcl hn).mono rfl rfl (fun _ => rfl) fun _ => prefix_rfl

theorem RelayInv.step (h : RelayInv context s) (hsp : RelayStep context s s') : RelayInv context s' := by
  cases hsp with
  | arrive tx bs ho =>
    exact h.grows ⟨rfl, rfl, rfl, rfl, fun hf => absurd (ho.symm.trans hf) Bool.false_ne_true⟩
  | finish tx =>
    exact h.grows ⟨(append_nil _).symm, (append_nil _).symm, rfl, rfl, fun _ => ⟨rfl, rfl⟩⟩
  | outside w => exact h.outside w
  | hooked hs => exact h.hookedPrefix hs
  | prefixWritten n hs _ => exact h.prefixWritten hs n
  | prefixError hs => exact h.prefixError hs
  | received piece hs hst hr => exact h.received hs hst hr
  | readError txt hs _ => exact h.failed hs _ txt
  | chunkWritten n hs hst _ => exact h.chunkWritten hs hst n
  | writeError txt hs _ => exact h.failed hs _ txt
  | shutdown hs hst => exact h.shutdown hs hst
  | shutdownError txt hs _ => exact h.failed hs _ txt

theorem RelayInv.run (h : RelayInv context s) (hr : ReflTransGen (RelayStep context) s s') : RelayInv context s' :=
  invariant_run (I := RelayInv context) (fun _ _ => RelayInv.step) h hr

theorem RelayInv.held (h : RelayInv context s) (tx : Bool) :
    Held (Logs context) (accepted tx s.logged) (s.direction tx) := by
  cases h with
  | hooked hs hf ha hst hc =>
    exact (hc tx).held fun he => absurd he (not_copyEnded (hst tx))
  | writingPrefix hs ha hst hc =>
    exact (hc tx).held fun he => absurd he (not_copyEnded (hst tx))
  | joining hs ha hj => exact (hj tx).held
  | returned hs hh hr => exact hh tx

theorem RelayInv.refused (h : RelayInv context s) (hc : call ∈ s.logged)
    (hn : call.allowed = false) : s.stage = .returned ∧ Refused s call := by
  cases h with
  | hooked hs hf ha | writingPrefix hs ha | joining hs ha =>
    cases hn.symm.trans (ha call hc)
  | returned hs hh hr => exact ⟨hs, hr call hc hn⟩

/-! ## After the task has returned -/

/-- The task has returned, and has written and logged the same as in `s`. -/
structure SameOutput (s t : Relay σ) : Prop where
  stage : t.stage = .returned
  closed : t.closed = s.closed
  logged : t.logged = s.logged
  written : ∀ tx, (t.direction tx).written = (s.direction tx).written

theorem SameOutput.step {t t' : Relay σ} (h : SameOutput s t) (hst : RelayStep context t t') : SameOutput s t' := by
  have hse {tx : Bool} {d : Direction} (hd : d.written = (t.direction tx).written) : SameOutput s (t.set tx d) :=
    ⟨h.stage, h.closed, h.logged, forall_direction (P := fun tx d => d.written = (s.direction tx).written)
      (hd.trans (h.written tx)) (h.written !tx)⟩
  cases hst with
  | arrive | finish => exact hse rfl
  | outside w => exact ⟨h.stage, h.closed, h.logged, h.written⟩
  | hooked hs | prefixWritten _ hs | prefixError hs | received _ hs | readError _ hs
  | chunkWritten _ hs | writeError _ hs | shutdown hs | shutdownError _ hs =>
    cases h.stage.symm.trans hs

/-- In each direction the bytes written are the first ones that came, the allowed
calls of the logger cover them, and cover no more if the direction has ended. A
verdict against a chunk closes the connection, and nothing is written any more. -/
theorem relay_integrity (hook : HookOutcome) (world : σ)
    (hrun : ReflTransGen (RelayStep context) (Relay.start hook world) s) :
    (∀ tx, (s.direction tx).written <+: (s.direction tx).content ∧
      (Logs context → (s.direction tx).written.length ≤ accepted tx s.logged) ∧
      (CopyEnded (s.direction tx) → (s.direction tx).written = (s.direction tx).content ∧
        (Logs context → accepted tx s.logged = (s.direction tx).written.length))) ∧
    ∀ call ∈ s.logged, call.allowed = false →
      Refused s call ∧ ∀ s', ReflTransGen (RelayStep context) s s' → SameOutput s s' := by
  have h := (relayInv_start hook world).run hrun
  refine ⟨fun tx => ?_, fun call hc hn => ?_⟩
  · have hh := h.held tx
    exact ⟨hh.inOrder, hh.bounded, fun he => (hh.ended he).2⟩
  · obtain ⟨hs, hr⟩ := h.refused hc hn
    exact ⟨hr, fun s' hrun' =>
      (invariant_run (I := SameOutput s) (fun _ _ => SameOutput.step) ⟨hs, rfl, rfl, fun _ => rfl⟩ hrun')⟩

/-! A logger that allows one call, and a hook that takes the first byte of three. -/

def oneCallContext : TcpServerContext Nat Unit Unit where
  trafficLogger := some
    { logTraffic := fun _ _ _ calls => (calls == 0, calls + 1)
      logOnlineState := fun _ _ calls => calls
      traceStream := fun _ _ _ calls => calls
      untraceStream := fun _ _ calls => calls }
  authId := "user"
  connectionId := 0
  outbound :=
    { tcp := fun _ calls => (.ok (), calls)
      udp := fun _ calls => (.ok (), calls)
      sendTo := fun _ data _ calls => (.ok data.length, calls) }
  requestHook := none

def firstByteHook : HookOutcome where
  content := [1, 2, 3]
  consumed := 1
  putback := [1]
  putback_eq := rfl
  fits := by decide

def firstByteWritten : Relay Nat :=
  ((Relay.start firstByteHook 0).writeHookedPrefix oneCallContext [1]).prefixWritten [1] 1

def firstByteOnly : Relay Nat := firstByteWritten.received oneCallContext true [2, 3] ⟨[], false⟩

theorem relay_integrity_firstByte : firstByteOnly.closed = some 0x107 ∧ (firstByteOnly.direction true).written = [1] ∧
      ∀ s, ReflTransGen (RelayStep oneCallContext) firstByteOnly s → (s.direction true).written = [1] := by
  have hr : ReflTransGen (RelayStep oneCallContext) (Relay.start firstByteHook 0) firstByteOnly :=
    .tail (.tail (.single (.hooked rfl)) (.prefixWritten 1 rfl (by decide))) (.received 2 rfl rfl rfl)
  have h := (relay_integrity firstByteHook 0 hr).2 ⟨2, 0, false⟩ (mem_of_getElem? (i := 1) rfl) rfl
  exact ⟨h.1.closed, rfl, fun s hs => (h.2 s hs).written true⟩

end Hysteria.Proof
