import Hysteria.Framework.Transition
import Hysteria.Impl.Transport.TcpTunnel
import Hysteria.Proof.Transport.TcpStream

/-!
# Fast open

A tunnel that is opened fast reads the answer of the server with its first
reads. `ReadingInv` relates it, at every point of a run, to what `normalOpen`
makes of the bytes that have come: as long as that waits, the reads wait; once
it has a tunnel, the reads give the bytes of that one; once it fails, they fail.
-/

namespace Hysteria.Proof

open Framework Relation Impl List

variable {texts : StreamTexts}

variable {finished : Bool} {sent : List UInt8}
variable {tunnel : TcpTunnel} {result : Except TransportError TcpTunnel} {size : Nat}

/-! ## Runs -/

/-- A tunnel and its past: what has come on the stream, and what the reads gave. -/
structure Reading where
  tunnel : TcpTunnel
  sent : List UInt8
  finished : Bool
  reads : List (Poll (Except Str (List UInt8)))

def Reading.poll (s : Reading) (size piece : Nat) : Reading :=
  let (result, tunnel) := s.tunnel.pollRead size piece
  { s with tunnel, reads := s.reads ++ [result] }

def Reading.polls (s : Reading) (polls : List (Nat × Nat)) : Reading := polls.foldl (fun s p => s.poll p.1 p.2) s

/-- The bytes come in chunks, until the server finishes the stream; the tunnel is
read at any time. -/
inductive TunnelStep : Reading → Reading → Prop
  | arrive {s : Reading} (bytes : List UInt8) (hopen : s.finished = false) :
    TunnelStep s { s with
      tunnel := { s.tunnel with stream := { s.tunnel.stream with buffer := s.tunnel.stream.buffer ++ bytes } }
      sent := s.sent ++ bytes }
  | finish {s : Reading} : TunnelStep s { s with
      tunnel := { s.tunnel with stream := { s.tunnel.stream with finished := true } }
      finished := true }
  | poll {s : Reading} (size piece : Nat) : TunnelStep s (s.poll size piece)

def startReading (texts : StreamTexts) : Reading where
  tunnel := .fastOpen texts { buffer := [], finished := false }
  sent := []
  finished := false
  reads := []

/-- The bytes that the reads gave. -/
def delivered (reads : List (Poll (Except Str (List UInt8)))) : List UInt8 := reads.flatMap fun
    | .ready (.ok bytes) => bytes
    | _ => []

theorem delivered_append (reads reads' : List (Poll (Except Str (List UInt8)))) :
    delivered (reads ++ reads') = delivered reads ++ delivered reads' := flatMap_append

variable {reads : List (Poll (Except Str (List UInt8)))}

theorem delivered_eq_nil (h : ∀ read ∈ reads, read = .pending) : delivered reads = [] := by
  rw [delivered, flatMap_eq_nil_iff]
  intro read hr
  rw [h read hr]

theorem delivered_ok (bs : List UInt8) : delivered [.ready (.ok bs)] = bs := append_nil bs

def isError (read : Poll (Except Str (List UInt8))) : Prop := ∃ error, read = .ready (.error error)

theorem not_isError_of_waits (h : ∀ read ∈ reads, read = .pending) : ∀ read ∈ reads, ¬ isError read := by
  rintro read hr ⟨err, rfl⟩
  cases h _ hr

/-- Reads that wait, and from then on fail. -/
def Fails (reads : List (Poll (Except Str (List UInt8)))) : Prop :=
  ∃ waits errors, reads = waits ++ errors ∧ (∀ read ∈ waits, read = .pending) ∧ ∀ read ∈ errors, isError read

theorem fails_of_waits (h : ∀ read ∈ reads, read = .pending) :
    Fails reads := ⟨reads, [], (append_nil reads).symm, h, fun _ hr => absurd hr not_mem_nil⟩

theorem Fails.concat (h : Fails reads) (err : Str) : Fails (reads ++ [.ready (.error err)]) := by
  obtain ⟨waits, errs, rfl, hw, he⟩ := h
  refine ⟨waits, errs ++ [.ready (.error err)], append_assoc .., hw, ?_⟩
  exact forall_mem_append.mpr ⟨he, forall_mem_singleton.mpr ⟨err, rfl⟩⟩

theorem Fails.delivered (h : Fails reads) : delivered reads = [] := by
  obtain ⟨waits, errs, rfl, hw, he⟩ := h
  rw [delivered_append, delivered_eq_nil hw, nil_append, Proof.delivered, flatMap_eq_nil_iff]
  intro read hr
  obtain ⟨err, rfl⟩ := he read hr
  rfl

/-! ## Normal open -/

theorem feed_eq_more (sent : List UInt8) :
    ((readTcpResponse texts).feed []).more sent = (readTcpResponse texts).feed sent := StreamReader.more_feed _ [] sent

/-- The tunnel for an answer, with the stream after it. -/
def answered (result : Except TransportError TcpResponse) (stream : RecvStream) : Except TransportError TcpTunnel :=
  match result with
  | .ok response => if response.ok then .ok ⟨.ready, stream⟩ else .error (.io response.message)
  | .error error => .error error

/-- Whether there is a tunnel depends on the answer alone. -/
theorem answered_cases (result : Except TransportError TcpResponse) :
    (∀ stream, answered result stream = .ok ⟨.ready, stream⟩) ∨
      ∃ err, ∀ stream, answered result stream = .error err := by
  cases result with
  | ok resp =>
    by_cases hok : resp.ok = true
    · exact .inl fun stream => if_pos hok
    · exact .inr ⟨_, fun stream => if_neg hok⟩
  | error err => exact .inr ⟨err, fun _ => rfl⟩

theorem normalOpen_of_finished {rest : List UInt8} {result : Except TransportError TcpResponse}
    (h : (readTcpResponse texts).feed sent = .finished result rest) (finished : Bool) :
    TcpTunnel.normalOpen texts ⟨sent, finished⟩ = .ready (answered result ⟨rest, finished⟩) := by
  unfold TcpTunnel.normalOpen RecvStream.pollReader
  grind [feed_eq_more, answered]

theorem normalOpen_of_waiting {got : List UInt8} {n : Nat} {early : Nat → TransportError}
    {next : List UInt8 → ReadStream TcpResponse} (h : (readTcpResponse texts).feed sent = .waiting n early next got)
    (finished : Bool) : TcpTunnel.normalOpen texts ⟨sent, finished⟩ =
      if finished then .ready (.error (early got.length)) else .pending := by
  unfold TcpTunnel.normalOpen RecvStream.pollReader
  rw [feed_eq_more, h]
  cases finished <;> rfl

/-- There is a tunnel after a good answer only. -/
theorem feed_of_normalOpen (h : TcpTunnel.normalOpen texts ⟨sent, finished⟩ = .ready (.ok tunnel)) :
    ∃ resp rest, (readTcpResponse texts).feed sent = .finished (.ok resp) rest ∧ resp.ok = true ∧
      tunnel = ⟨.ready, ⟨rest, finished⟩⟩ := by
  cases hf : (readTcpResponse texts).feed sent with
  | waiting n early next got =>
    have ho := h.symm.trans (normalOpen_of_waiting hf finished)
    cases finished <;> cases ho
  | finished result rest =>
    have ho := h.symm.trans (normalOpen_of_finished hf finished)
    rcases result with err | resp
    · cases ho
    grind [answered]

theorem normalOpen_arrive (h : TcpTunnel.normalOpen texts ⟨sent, false⟩ = .ready result) (bs : List UInt8) :
    (∃ rest, result = .ok ⟨.ready, ⟨rest, false⟩⟩ ∧
      TcpTunnel.normalOpen texts ⟨sent ++ bs, false⟩ = .ready (.ok ⟨.ready, ⟨rest ++ bs, false⟩⟩)) ∨
    ∃ err, result = .error err ∧ TcpTunnel.normalOpen texts ⟨sent ++ bs, false⟩ = .ready (.error err) := by
  cases hf : (readTcpResponse texts).feed sent with
  | waiting n early next got => cases h.symm.trans (normalOpen_of_waiting hf false)
  | finished ans rest =>
    have hm : (readTcpResponse texts).feed (sent ++ bs) = .finished ans (rest ++ bs) := by
      rw [← StreamReader.more_feed, hf]
      rfl
    cases h.symm.trans (normalOpen_of_finished hf false)
    rw [normalOpen_of_finished hm]
    rcases answered_cases ans with hok | ⟨err, he⟩
    · grind
    grind

theorem normalOpen_finish (h : TcpTunnel.normalOpen texts ⟨sent, finished⟩ = .ready result) :
    (∃ rest, result = .ok ⟨.ready, ⟨rest, finished⟩⟩ ∧
      TcpTunnel.normalOpen texts ⟨sent, true⟩ = .ready (.ok ⟨.ready, ⟨rest, true⟩⟩)) ∨
    ∃ err, result = .error err ∧ TcpTunnel.normalOpen texts ⟨sent, true⟩ = .ready (.error err) := by
  cases hf : (readTcpResponse texts).feed sent with
  | waiting n early next got =>
    have ho := h.symm.trans (normalOpen_of_waiting hf finished)
    grind
  | finished ans rest =>
    cases h.symm.trans (normalOpen_of_finished hf finished)
    rw [normalOpen_of_finished hf]
    rcases answered_cases ans with hok | ⟨err, he⟩
    · grind
    grind

/-! ## Reads of the stream -/

theorem pollRead_cases (stream : RecvStream) (size piece : Nat) :
    (stream.pollRead size piece = (.pending, stream) ∧ (0 < size → stream.buffer = [])) ∨
      ∃ bs stream', stream.pollRead size piece = (.ready (.ok bs), stream') ∧
        bs ++ stream'.buffer = stream.buffer ∧ stream'.finished = stream.finished ∧
        (0 < size → bs = [] → stream.buffer = [] ∧ stream.finished = true) := by
  unfold RecvStream.pollRead
  split
  · grind
  split
  · grind
  simp_all

theorem length_pollRead_le {stream stream' : RecvStream} {piece : Nat} {bs : List UInt8}
    (h : stream.pollRead size piece = (.ready (.ok bs), stream')) : bs.length ≤ size := by
  unfold RecvStream.pollRead at h
  grind

/-- A read before the answer is known does what normal open does with the bytes
that have come, and goes on with the stream behind a good answer. -/
theorem pollRead_awaiting {progress : Progress TransportError TcpResponse} (hr : tunnel.receive = .awaiting progress)
    (hp : progress.more tunnel.stream.buffer = (readTcpResponse texts).feed sent) (size piece : Nat) :
    (TcpTunnel.normalOpen texts ⟨sent, tunnel.stream.finished⟩ = .pending ∧ ∃ progress',
      tunnel.pollRead size piece = (.pending, ⟨.awaiting progress', ⟨[], tunnel.stream.finished⟩⟩) ∧
        progress'.more [] = (readTcpResponse texts).feed sent) ∨
    (∃ rest, TcpTunnel.normalOpen texts ⟨sent, tunnel.stream.finished⟩ =
        .ready (.ok ⟨.ready, ⟨rest, tunnel.stream.finished⟩⟩) ∧
      tunnel.pollRead size piece = TcpTunnel.pollRead ⟨.ready, ⟨rest, tunnel.stream.finished⟩⟩ size piece) ∨
    ∃ err txt stream, TcpTunnel.normalOpen texts ⟨sent, tunnel.stream.finished⟩ = .ready (.error err) ∧
      tunnel.pollRead size piece = (.ready (.error txt), ⟨.failed, stream⟩) := by
  cases hf : (readTcpResponse texts).feed sent with
  | waiting n early next got =>
    -- A stream that ends before the whole answer has come fails both.
    have ho := normalOpen_of_waiting hf tunnel.stream.finished
    simp only [TcpTunnel.pollRead, hr, RecvStream.pollReader, hp.trans hf]
    cases hfn : tunnel.stream.finished with
    | true =>
      grind
    | false =>
      rw [hfn] at ho
      refine .inl ⟨ho, _, rfl, ?_⟩
      rw [← hf, StreamReader.more_feed, append_nil]
  | finished result rest =>
    have ho := normalOpen_of_finished hf tunnel.stream.finished
    simp only [TcpTunnel.pollRead, hr, RecvStream.pollReader, hp.trans hf]
    rcases result with err | resp
    · exact .inr (.inr ⟨_, _, _, ho, rfl⟩)
    by_cases hok : resp.ok = true
    · rw [answered, if_pos hok] at ho
      refine .inr (.inl ⟨rest, ho, ?_⟩)
      simp only [hok, if_true]
    grind [answered]

/-! ## The invariant -/

/-- Normal open has a tunnel now, and `rest` is to be read from it. -/
abbrev OpensWith (texts : StreamTexts) (s : Reading) (rest : List UInt8) : Prop :=
  TcpTunnel.normalOpen texts ⟨s.sent, s.finished⟩ = .ready (.ok ⟨.ready, ⟨rest, s.finished⟩⟩)

/-- A tunnel that is opened fast, against normal open. -/
inductive ReadingInv (texts : StreamTexts) (s : Reading) : Prop
  | awaiting {progress : Progress TransportError TcpResponse} (hreceive : s.tunnel.receive = .awaiting progress)
    (hfinished : s.tunnel.stream.finished = s.finished)
    (hprogress : progress.more s.tunnel.stream.buffer = (readTcpResponse texts).feed s.sent)
    (hreads : ∀ read ∈ s.reads, read = .pending)
  | ready (rest : List UInt8) (hreceive : s.tunnel.receive = .ready)
    (hfinished : s.tunnel.stream.finished = s.finished) (hopen : OpensWith texts s rest)
    (hrest : delivered s.reads ++ s.tunnel.stream.buffer = rest)
    (hreads : ∀ read ∈ s.reads, ¬ isError read)
  | failed (error : TransportError) (hreceive : s.tunnel.receive = .failed)
    (hopen : TcpTunnel.normalOpen texts ⟨s.sent, s.finished⟩ = .ready (.error error))
    (hreads : Fails s.reads)

variable {s s' : Reading}

theorem readingInv_start (texts : StreamTexts) : ReadingInv texts (startReading texts) :=
  .awaiting rfl rfl (feed_eq_more []) fun _ hr => absurd hr not_mem_nil

theorem ReadingInv.arrive (h : ReadingInv texts s) (bs : List UInt8) (hn : s.finished = false) :
    ReadingInv texts { s with
      tunnel := { s.tunnel with stream := { s.tunnel.stream with buffer := s.tunnel.stream.buffer ++ bs } }
      sent := s.sent ++ bs } := by
  cases h with
  | awaiting hr hf hp hrd =>
    refine .awaiting hr hf ?_ hrd
    rw [← StreamReader.more_more, hp, StreamReader.more_feed]
  | ready rest hr hf ho hrs hrd =>
    rw [OpensWith, hn] at ho
    rcases normalOpen_arrive ho bs with ⟨rest, heq, hopen'⟩ | ⟨err, heq, -⟩
    · cases heq
      refine .ready (rest ++ bs) hr hf ?_ ?_ hrd
      · simp only [hn]
        exact hopen'
      · simp only [← append_assoc, hrs]
    · cases heq
  | failed err hr ho hrd =>
    rw [hn] at ho
    rcases normalOpen_arrive ho bs with ⟨rest, heq, -⟩ | ⟨err, heq, hopen'⟩
    · cases heq
    refine .failed err hr ?_ hrd
    simp only [hn]
    exact hopen'

theorem ReadingInv.finish (h : ReadingInv texts s) :
    ReadingInv texts { s with
      tunnel := { s.tunnel with stream := { s.tunnel.stream with finished := true } }
      finished := true } := by
  cases h with
  | awaiting hr hf hp hrd => exact .awaiting hr rfl hp hrd
  | ready rest hr hf ho hrs hrd =>
    rcases normalOpen_finish ho with ⟨rest, heq, hopen'⟩ | ⟨err, heq, -⟩
    · cases heq
      exact .ready rest hr rfl hopen' hrs hrd
    · cases heq
  | failed err hr ho hrd =>
    rcases normalOpen_finish ho with ⟨rest, heq, -⟩ | ⟨err, heq, hopen'⟩
    · cases heq
    · exact .failed err hr hopen' hrd

theorem readingInv_read (stream : RecvStream) {rest : List UInt8} (hf : stream.finished = s.finished)
    (ho : OpensWith texts s rest) (hrs : delivered s.reads ++ stream.buffer = rest)
    (hrd : ∀ read ∈ s.reads, ¬ isError read) (size piece : Nat) :
    ReadingInv texts { s with
      tunnel := ⟨.ready, (stream.pollRead size piece).2⟩
      reads := s.reads ++ [(stream.pollRead size piece).1] } := by
  rcases pollRead_cases stream size piece with ⟨hp, -⟩ | ⟨bs, stream', hp, hb, he, -⟩
  · rw [hp]
    refine .ready rest rfl hf ho ?_ (forall_mem_append.mpr ⟨hrd, ?_⟩)
    · rw [delivered_append, delivered_eq_nil (forall_mem_singleton.mpr rfl), append_nil, hrs]
    · rintro read hr ⟨err, rfl⟩
      cases mem_singleton.mp hr
  · rw [hp]
    refine .ready rest rfl (he.trans hf) ho ?_ (forall_mem_append.mpr ⟨hrd, ?_⟩)
    · rw [delivered_append, delivered_ok, append_assoc, hb, hrs]
    · rintro read hr ⟨err, rfl⟩
      cases mem_singleton.mp hr

theorem ReadingInv.poll (h : ReadingInv texts s) (size piece : Nat) : ReadingInv texts (s.poll size piece) := by
  unfold Reading.poll
  cases h with
  | awaiting hrc hf hpr hr =>
    rcases pollRead_awaiting hrc hpr size piece with
      ⟨-, progress', hp, hm⟩ | ⟨rest, ho, hp⟩ | ⟨err, text, stream, ho, hp⟩ <;> rw [hp]
    · exact .awaiting rfl hf hm (forall_mem_append.mpr ⟨hr, forall_mem_singleton.mpr rfl⟩)
    · rw [hf] at ho
      refine readingInv_read ⟨rest, _⟩ hf ho ?_ (not_isError_of_waits hr) size piece
      rw [delivered_eq_nil hr, nil_append]
    · rw [hf] at ho
      exact .failed err rfl ho ((fails_of_waits hr).concat text)
  | ready rest hrc hf ho hrs hr =>
    grind [readingInv_read, TcpTunnel.pollRead]
  | failed err hrc ho hr =>
    simp only [TcpTunnel.pollRead, hrc]
    exact .failed err hrc ho (hr.concat _)

theorem ReadingInv.step (h : ReadingInv texts s) (hs : TunnelStep s s') : ReadingInv texts s' := by
  cases hs with
  | arrive bs hn => exact h.arrive bs hn
  | finish => exact h.finish
  | poll size piece => exact h.poll size piece

theorem ReadingInv.run (h : ReadingInv texts s) (hr : ReflTransGen TunnelStep s s') : ReadingInv texts s' :=
  invariant_run (I := ReadingInv texts) (fun _ _ => ReadingInv.step) h hr

/-! ## What the reads of an open tunnel give -/

/-- The reads of a tunnel give `rest`: its bytes in order, all of them if there are
enough reads, and no end of the stream before its end. -/
structure Serves (s : Reading) (rest : List UInt8) : Prop where
  noError : ∀ read ∈ s.reads, ¬ isError read
  inOrder : delivered s.reads <+: rest
  all : ∀ polls : List (Nat × Nat), (∀ p ∈ polls, 0 < p.1) → rest.length ≤ polls.length →
    delivered (s.polls polls).reads = rest
  atEnd : ∀ size piece, 0 < size → (s.tunnel.pollRead size piece).1 = .ready (.ok []) →
    delivered s.reads = rest ∧ s.finished = true

variable {rest : List UInt8}

/-- An open tunnel reads from a stream that holds the bytes that are left. -/
theorem ReadingInv.opened (h : ReadingInv texts s) (ho : OpensWith texts s rest) :
    ∃ stream : RecvStream, (∀ size piece, (s.tunnel.pollRead size piece).1 = (stream.pollRead size piece).1) ∧
      stream.finished = s.finished ∧ delivered s.reads ++ stream.buffer = rest ∧ ∀ read ∈ s.reads, ¬ isError read := by
  cases h with
  | awaiting hrc hf hp hr =>
    refine ⟨⟨rest, s.finished⟩, fun size piece => ?_, rfl, ?_, not_isError_of_waits hr⟩
    · rcases pollRead_awaiting hrc hp size piece with
        ⟨hopen', -⟩ | ⟨rest', hopen', hpl⟩ | ⟨err, text, stream, hopen', -⟩ <;> rw [hf] at hopen'
      · cases ho.symm.trans hopen'
      · cases ho.symm.trans hopen'
        rw [hpl, hf]
        rfl
      · cases ho.symm.trans hopen'
    · rw [delivered_eq_nil hr, nil_append]
  | ready rest' hrc hf hopen' hrs hr =>
    grind [TcpTunnel.pollRead]
  | failed err hrc hopen' hr => cases ho.symm.trans hopen'

theorem delivered_poll (s : Reading) (size piece : Nat) :
    delivered (s.poll size piece).reads = delivered s.reads ++ delivered [(s.tunnel.pollRead size piece).1] :=
  delivered_append ..

/-- A read with room gives a byte, as long as one is left. -/
theorem ReadingInv.progress (h : ReadingInv texts s) (ho : OpensWith texts s rest) (hs : 0 < size) (piece : Nat) :
    delivered s.reads = rest ∨ (delivered s.reads).length < (delivered (s.poll size piece).reads).length := by
  obtain ⟨stream, hp, -, hr, -⟩ := h.opened ho
  rw [delivered_poll, hp]
  rcases pollRead_cases stream size piece with ⟨heq, hb⟩ | ⟨bs, stream', heq, -, -, hb⟩
  · grind
  by_cases hbs : bs = []
  · grind
  grind [delivered_ok, length_append, length_pos_of_ne_nil]

theorem ReadingInv.inOrder (h : ReadingInv texts s) (ho : OpensWith texts s rest) : delivered s.reads <+: rest := by
  obtain ⟨stream, -, -, hr, -⟩ := h.opened ho
  exact ⟨stream.buffer, hr⟩

theorem ReadingInv.polls (polls : List (Nat × Nat)) (hp : ∀ p ∈ polls, 0 < p.1) (h : ReadingInv texts s)
    (ho : OpensWith texts s rest) (hl : rest.length ≤ (delivered s.reads).length + polls.length) :
    delivered (s.polls polls).reads = rest := by
  induction polls generalizing s with
  | nil => exact (h.inOrder ho).eq_of_length_le hl
  | cons p polls ih =>
    have hpl := h.poll p.1 p.2
    refine ih (s := s.poll p.1 p.2) (fun q hq => hp q (mem_cons_of_mem _ hq)) hpl ho ?_
    rw [length_cons] at hl
    rcases h.progress ho (hp p mem_cons_self) p.2 with ha | hm
    · rw [delivered_poll, length_append, ha]
      omega
    · omega

theorem ReadingInv.serves (h : ReadingInv texts s) (ho : OpensWith texts s rest) : Serves s rest := by
  obtain ⟨stream, hpl, hf, hr, hrd⟩ := h.opened ho
  refine ⟨hrd, h.inOrder ho, fun polls hp hl => h.polls polls hp ho (by omega), ?_⟩
  intro size piece hs he
  rw [hpl] at he
  rcases pollRead_cases stream size piece with ⟨heq, -⟩ | ⟨bs, stream', heq, -, -, hen⟩
  · rw [heq] at he
    cases he
  grind

/-- What normal open refuses gives an error to every read that completes. -/
theorem ReadingInv.refused {err : TransportError} (h : ReadingInv texts s)
    (ho : TcpTunnel.normalOpen texts ⟨s.sent, s.finished⟩ = .ready (.error err)) :
    Fails s.reads ∧ ∀ size piece, isError (s.tunnel.pollRead size piece).1 := by
  cases h with
  | awaiting hr hf hp hrd =>
    refine ⟨fails_of_waits hrd, fun size piece => ?_⟩
    rcases pollRead_awaiting hr hp size piece with
      ⟨hopen', -⟩ | ⟨rest', hopen', -⟩ | ⟨err, text, stream, -, hpl⟩
    · grind
    · grind
    · exact ⟨text, by rw [hpl]⟩
  | ready rest' hr hf hopen' hrs hrd => cases ho.symm.trans hopen'
  | failed err hr hopen' hrd =>
    refine ⟨hrd, fun size piece => ?_⟩
    simp only [TcpTunnel.pollRead, hr]
    exact ⟨_, rfl⟩

theorem ReadingInv.waits (h : ReadingInv texts s)
    (ho : TcpTunnel.normalOpen texts ⟨s.sent, s.finished⟩ = .pending) : ∀ read ∈ s.reads, read = .pending := by
  cases h with
  | awaiting hrc hf hp hr => exact hr
  | ready rest hrc hf hopen' hrs hr => cases ho.symm.trans hopen'
  | failed err hrc hopen' hr => cases ho.symm.trans hopen'

/-- So does the tunnel that was opened normally, at whatever time. -/
theorem serves_normal (h : TcpTunnel.normalOpen texts ⟨sent, finished⟩ = .ready (.ok tunnel))
    (hrn : ReflTransGen TunnelStep ⟨tunnel, sent, finished, []⟩ s) (ho : OpensWith texts s rest) : Serves s rest := by
  obtain ⟨resp, rest', -, -, rfl⟩ := feed_of_normalOpen h
  have hi : ReadingInv texts ⟨⟨.ready, ⟨rest', finished⟩⟩, sent, finished, []⟩ :=
    .ready rest' rfl rfl h rfl fun _ hr => absurd hr not_mem_nil
  exact (hi.run hrn).serves ho

/-- A tunnel that is opened fast waits while normal open waits, gives what the
tunnel gives that normal open returns, and fails when normal open fails. -/
theorem fast_open_agrees (hrun : ReflTransGen TunnelStep (startReading texts) s) :
    match TcpTunnel.normalOpen texts ⟨s.sent, s.finished⟩ with
    | .pending => ∀ read ∈ s.reads, read = .pending
    | .ready (.ok tunnel) =>
      (∃ response, TcpResponse.decode s.sent = .ok (response, tunnel.stream.buffer) ∧ response.ok = true) ∧
        Serves s tunnel.stream.buffer ∧
        ∀ sent finished tunnel' s', TcpTunnel.normalOpen texts ⟨sent, finished⟩ = .ready (.ok tunnel') →
          ReflTransGen TunnelStep ⟨tunnel', sent, finished, []⟩ s' → s'.sent = s.sent → s'.finished = s.finished →
          Serves s' tunnel.stream.buffer
    | .ready (.error _) =>
      Fails s.reads ∧ delivered s.reads = [] ∧ ∀ size piece, isError (s.tunnel.pollRead size piece).1 := by
  have h := (readingInv_start texts).run hrun
  cases ho : TcpTunnel.normalOpen texts ⟨s.sent, s.finished⟩ with
  | pending => exact h.waits ho
  | ready result =>
    cases result with
    | ok tunnel =>
      obtain ⟨response, rest, hfd, hok, rfl⟩ := feed_of_normalOpen ho
      refine ⟨⟨response, ?_, hok⟩, h.serves ho, ?_⟩
      · have hr : (readTcpResponse texts).run s.sent = .ok (response, rest) := by rw [StreamReader.run, hfd]; rfl
        exact ((run_readTcpResponse_iff texts).mp hr).1
      intro sent finished tunnel' s' hn hrun' hs hfn
      grind [serves_normal]
    | error err =>
      obtain ⟨hf, hnx⟩ := h.refused ho
      exact ⟨hf, hf.delivered, hnx⟩

def noTexts : StreamTexts := ⟨[], fun _ => [], fun _ => []⟩

/-- A tunnel with an answer and one byte on its stream, before the first read. -/
def greeted : Reading := ⟨.fastOpen noTexts ⟨[0, 0, 0, 7], false⟩, [0, 0, 0, 7], false, []⟩

theorem fast_open_agrees_greeted : delivered (greeted.polls [(4, 4)]).reads = [7] := by
  have hr : ReflTransGen TunnelStep (startReading noTexts) greeted := .single (.arrive [0, 0, 0, 7] rfl)
  have hf : (readTcpResponse noTexts).feed greeted.sent = .finished (.ok ⟨true, []⟩) [7] := by
    show StreamReader.feed (discardExact noTexts 0 >>= fun _ => stringFromUtf8 noTexts [] >>= fun msg =>
      (return ⟨true, msg⟩ : ReadStream TcpResponse)) [7] = _
    rw [discardExact]
    rfl
  have h := fast_open_agrees hr
  rw [normalOpen_of_finished hf] at h
  exact h.2.1.all [(4, 4)] (by decide) (by decide)

end Hysteria.Proof
