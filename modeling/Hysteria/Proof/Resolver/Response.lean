import Mathlib.Data.Nat.Bitwise
import Hysteria.Proof.Resolver.Name

/-!
# Responses

`parse_response` walks over the questions and the answers of any message without a
slice out of range (`parseResponseChecked_eq`). Every address that it returns is the
data of an answer (`answerAddress_of_parseResponse`), and from a response of the
specification it takes the last ones, if the names are UTF-8 (`parseResponse_eq`).
-/

namespace Hysteria.Proof

open Framework Impl Spec List

variable {msg : List UInt8} {qtype : UInt16} {off : Nat}
variable {data n length stop : Nat} {kind id : UInt16} {res ans : DnsAnswer} {ip : IpAddr} {rec : DnsRecord}
  {answers : List DnsRecord} {qs : List DnsName}

/-! ## One answer -/

/-- The result after a record of type `kind` with the data from `data` to `data + length`. -/
def takeRecord (message : List UInt8) (qtype kind : UInt16) (data length : Nat) (result : DnsAnswer) :
    Except TransportError DnsAnswer :=
  let bytes := beNat ((message.drop data).take length)
  if kind = qtype ∧ qtype = 1 ∧ length = 4 then .ok { result with ip := some (.v4 (BitVec.ofNat 32 bytes)) }
  else if kind = qtype ∧ qtype = 28 ∧ length = 16 then .ok { result with ip := some (.v6 (BitVec.ofNat 128 bytes)) }
  else if kind = 5 then do return { result with cname := some (← readName message data).1 }
  else .ok result

/-- Where the data of the record at `offset` starts, its type and its length. -/
def recordHeader (message : List UInt8) (offset : Nat) : Except TransportError (Nat × UInt16 × Nat) := do
  let offset ← skipName message offset
  if offset + 10 > message.length then throw (protocolError "truncated DNS answer")
  let kind ← readU16 message offset
  let length := (← readU16 message (offset + 8)).toNat
  if offset + 10 + length > message.length then throw (protocolError "truncated DNS record")
  return (offset + 10, kind, length)

theorem octetsAt_eq (h : data + n ≤ msg.length) : octetsAt msg data n = .ok ((msg.drop data).take n) := by
  have hsl : slice msg data (data + n) = some ((msg.drop data).take n) := by
    rw [slice, if_pos ⟨Nat.le_add_right data n, h⟩, Nat.add_sub_cancel_left]
  rw [octetsAt, hsl]
  simp only [getOrPanic_some, bind, Except.bind, arrayFrom_of_slice hsl]

/-- The slices of an address are within the data of its record, so within the message. -/
theorem readAnswers_succ (answers off : Nat) (res : DnsAnswer) : readAnswers msg qtype (answers + 1) off res = (do
      let (data, kind, length) ← (recordHeader msg off).mapError .error
      let res ← (takeRecord msg qtype kind data length res).mapError .error
      readAnswers msg qtype answers (data + length) res) := by
  rw [readAnswers, recordHeader]
  cases skipName msg off with
  | error err => rfl
  | ok fixed =>
  simp only [Except.mapError, bind, Except.bind]
  split
  · rfl
  cases readU16 msg fixed with
  | error err => rfl
  | ok kind =>
  cases readU16 msg (fixed + 8) with
  | error err => rfl
  | ok length =>
  simp only
  split
  · rfl
  rename_i hb
  simp only [takeRecord, pure, Except.pure, bind, Except.bind]
  split
  · rename_i ha
    rw [octetsAt_eq (by omega), ha.2.2]
  split
  · rename_i ha
    rw [octetsAt_eq (by omega), ha.2.2]
  split
  · cases readName msg (fixed + 10) <;> rfl
  · rfl

theorem readAnswers_ne_panicked (answers off : Nat) (res : DnsAnswer) :
    readAnswers msg qtype answers off res ≠ .error .panicked := by
  induction answers generalizing off res with
  | zero => simp [readAnswers]
  | succ answers ih =>
    rw [readAnswers_succ]
    exact bind_ne_error (mapError_ne_panicked _) fun _ _ => bind_ne_error (mapError_ne_panicked _) fun _ _ => ih _ _

/-- The message passes the checks of the header, or there is an error. -/
theorem parseResponseChecked_cases (msg : List UInt8) (id qtype : UInt16) :
    (∃ err, parseResponseChecked msg id qtype = .error (.error err)) ∨
      ∃ qs answers, readU16 msg 4 = .ok qs ∧ readU16 msg 6 = .ok answers ∧ parseResponseChecked msg id qtype =
        ((skipQuestions msg qs.toNat 12).mapError .error >>= fun off =>
          readAnswers msg qtype answers.toNat off {}) := by
  unfold parseResponseChecked
  simp only [bind, Except.bind]
  split
  · exact .inl ⟨_, rfl⟩
  cases readU16 msg 0 with
  | error err => exact .inl ⟨_, rfl⟩
  | ok first =>
  simp only [Except.mapError]
  split
  · exact .inl ⟨_, rfl⟩
  cases readU16 msg 2 with
  | error err => exact .inl ⟨_, rfl⟩
  | ok flags =>
  simp only
  split
  · exact .inl ⟨_, rfl⟩
  split
  · exact .inl ⟨_, rfl⟩
  cases readU16 msg 4 with
  | error err => exact .inl ⟨_, rfl⟩
  | ok qs =>
  cases readU16 msg 6 with
  | error err => exact .inl ⟨_, rfl⟩
  | ok answers => exact .inr ⟨qs, answers, rfl, rfl, rfl⟩

theorem parseResponseChecked_eq (msg : List UInt8) (id qtype : UInt16) :
    parseResponseChecked msg id qtype = (parseResponse msg id qtype).mapError .error := by
  refine eq_mapError_withoutPanic _ ?_
  rcases parseResponseChecked_cases msg id qtype with ⟨err, he⟩ | ⟨qs, answers, -, -, he⟩
  · simp [he]
  · rw [he]
    exact bind_ne_error (mapError_ne_panicked _) fun _ _ => readAnswers_ne_panicked _ _ _

/-! ## Where an address comes from -/

theorem readU16_ok_iff {n : UInt16} : readU16 msg off = .ok n ↔ U16At msg off n.toNat := by
  unfold readU16 U16At
  constructor
  · intro h
    split at h <;> [skip; cases h]
    rename_i bs hsl
    cases h
    have hl := length_of_slice hsl
    have hlt := beNat_lt bs
    rw [hl] at hlt
    have hv := UInt16.toNat_ofNat_of_lt' hlt
    have hbs := beBytes_beNat bs
    grind
  simp_all

theorem recordHeader_ok (h : recordHeader msg off = .ok (data, kind, length)) :
    ∃ fixed, skipName msg off = .ok fixed ∧ data = fixed + 10 ∧ U16At msg fixed kind.toNat ∧
      U16At msg (fixed + 8) length ∧ fixed + 10 + length ≤ msg.length := by
  obtain ⟨fixed, hn, h⟩ := bind_eq_ok h
  dsimp only at h
  split at h
  · cases h
  obtain ⟨kind, hk, h⟩ := bind_eq_ok h
  obtain ⟨length, hl, h⟩ := bind_eq_ok h
  split at h
  · cases h
  rename_i hb
  cases h
  exact ⟨fixed, hn, rfl, readU16_ok_iff.mp hk, readU16_ok_iff.mp hl, Nat.le_of_not_lt hb⟩

/-- An alias is of neither type of addresses. -/
theorem takeRecord_cname : takeRecord msg qtype 5 data length res =
    (readName msg data).map fun name => { res with cname := some name.1 } := by
  rw [takeRecord, if_neg (by grind), if_neg (by grind), if_pos rfl]
  cases readName msg data <;> rfl

theorem takeRecord_ok {next : DnsAnswer}
    (h : takeRecord msg qtype kind data length res = .ok next) (hip : next.ip = some ip) :
    res.ip = some ip ∨ kind = qtype ∧
      (qtype = 1 ∧ length = 4 ∧ ip = .v4 (BitVec.ofNat 32 (beNat ((msg.drop data).take length))) ∨
        qtype = 28 ∧ length = 16 ∧ ip = .v6 (BitVec.ofNat 128 (beNat ((msg.drop data).take length)))) := by
  unfold takeRecord at h
  simp only at h
  split at h
  · grind
  split at h
  · grind
  split at h
  · obtain ⟨name, -, h⟩ := bind_eq_ok h
    cases h
    exact .inl hip
  · cases h
    exact .inl hip

/-- What the answers leave as the address was there before, or is that of one of them. -/
theorem readAnswers_provenance {answers : Nat}
    (h : readAnswers msg qtype answers off res = .ok ans) (hip : ans.ip = some ip) :
    res.ip = some ip ∨
      ∃ n < answers, ∃ start, AnswerStarts msg off n start ∧ AddressRecordAt msg qtype start ip := by
  induction answers generalizing off res with
  | zero =>
    cases h
    exact .inl hip
  | succ answers ih =>
    rw [readAnswers_succ] at h
    obtain ⟨⟨data, kind, length⟩, hh, h⟩ := bind_eq_ok h
    obtain ⟨next, hr, h⟩ := bind_eq_ok h
    rw [mapError_eq_ok_iff] at hh hr
    obtain ⟨fixed, hnm, rfl, hk, hl, hb⟩ := recordHeader_ok hh
    rcases ih h with hnx | ⟨n, hn, start, hbg, ha⟩
    · rcases takeRecord_ok hr hnx with hbf | ⟨rfl, ha⟩
      · exact .inl hbf
      have hd : ((msg.drop (fixed + 10)).take length).length = length := by
        rw [length_take, length_drop]
        omega
      refine .inr ⟨0, Nat.succ_pos _, off, .first, fixed, (msg.drop (fixed + 10)).take length, hnm, hk, ?_⟩
      rw [hd]
      refine ⟨hl, ?_, ha⟩
      rw [slice, if_pos ⟨Nat.le_add_right _ _, hb⟩, Nat.add_sub_cancel_left]
    · exact .inr ⟨n + 1, Nat.succ_lt_succ hn, start, .next hnm hl hb hbg, ha⟩

theorem answerAddress_of_parseResponse
    (h : parseResponse msg id qtype = .ok ans) (hip : ans.ip = some ip) : AnswerAddress msg qtype ip := by
  rw [parseResponse, withoutPanic_eq_ok_iff] at h
  rcases parseResponseChecked_cases msg id qtype with ⟨err, he⟩ | ⟨qs, answers, hqs, han, he⟩
  · cases he.symm.trans h
  obtain ⟨off, ho, h⟩ := bind_eq_ok (he.symm.trans h)
  rcases readAnswers_provenance h hip with hn | ha
  · cases hn
  · exact ⟨_, _, off, readU16_ok_iff.mp hqs, readU16_ok_iff.mp han, mapError_eq_ok_iff.mp ho, ha⟩

/-! ## Responses that are well formed -/

theorem skipName_eq {name : DnsName} (h : NameWithin 127 msg off name stop) :
    skipName msg off = if name.isUtf8 then .ok stop else .error (protocolError "invalid DNS label") := by
  rw [skipName, readName_eq h]
  split <;> rfl

theorem skipQuestions_eq {names : List DnsName} (h : QuestionsAt 127 msg off names stop) :
    skipQuestions msg names.length off =
      if names.all DnsName.isUtf8 then .ok stop else .error (protocolError "invalid DNS label") := by
  induction h with
  | nil => rfl
  | @cons off fixed stop name names hn hb _ ih =>
    rw [length_cons, skipQuestions, skipName_eq hn, all_cons]
    by_cases ht : name.isUtf8 = true
    · simp only [ht, if_true, bind, Except.bind, Bool.true_and]
      rw [if_neg (by omega)]
      exact ih
    · simp only [ht, Bool.false_eq_true, if_false, Bool.false_and]
      rfl

/-- The result after a record. -/
def resultAfter (qtype : UInt16) (result : DnsAnswer) (record : DnsRecord) : DnsAnswer where
  ip := (record.data.addressOf qtype).or result.ip
  cname := (record.data.target.map DnsName.text).or result.cname

theorem readU16_eq (h : U16At msg off n) : readU16 msg off = .ok (UInt16.ofNat n) := by
  rw [readU16, h.2]
  simp only
  rw [beNat_beBytes h.1]

theorem recordHeader_eq {fixed : Nat}
    (hn : NameWithin 127 msg off rec.owner fixed) (hk : U16At msg fixed rec.data.kind.toNat)
    (hl : U16At msg (fixed + 8) length) (hb : fixed + 10 + length ≤ msg.length) :
    recordHeader msg off = if rec.owner.isUtf8 then .ok (fixed + 10, rec.data.kind, length)
      else .error (protocolError "invalid DNS label") := by
  rw [recordHeader, skipName_eq hn]
  by_cases ht : rec.owner.isUtf8 = true
  · simp only [ht, if_true, bind, Except.bind]
    rw [if_neg (by omega), readU16_eq hk, readU16_eq hl]
    simp only
    rw [UInt16.toNat_ofNat_of_lt' hl.1, if_neg (by omega), UInt16.ofNat_toNat]
    rfl
  · simp only [ht]
    rfl

theorem takeRecord_eq {start : Nat} (res : DnsAnswer) (h : DataAt 127 msg start (start + length) rec.data) :
    takeRecord msg qtype rec.data.kind start length res =
      if rec.data.target.all DnsName.isUtf8 then .ok (resultAfter qtype res rec)
      else .error (protocolError "invalid DNS label") := by
  have ho : ∀ {os : List UInt8}, slice msg start (start + length) = some os →
      (msg.drop start).take length = os := by
    intro os hsl
    rw [slice, Nat.add_sub_cancel_left] at hsl
    split at hsl <;> [exact Option.some.inj hsl; cases hsl]
  obtain ⟨owner, data⟩ := rec
  have hk := eq_or_ne data.kind qtype
  cases h with
  | v4 hsl hs | v6 hsl hs =>
    have hl := (length_of_slice hsl).symm.trans hs
    rw [← ho hsl]
    obtain rfl | hk := hk <;>
      simp_all [takeRecord, RecordData.kind, addressKind, RecordData.target, resultAfter, RecordData.addressOf]
  | @cname tgt htg =>
    rw [RecordData.kind, takeRecord_cname, readName_eq htg]
    by_cases htx : tgt.isUtf8 = true
    · simp [htx, RecordData.target, resultAfter, RecordData.addressOf, Except.map]
    · simp [htx, RecordData.target, Except.map]
  | @other kind hon ht hf =>
    have hk : ¬ (kind = qtype ∧ qtype = 1 ∧ length = 4) ∧ ¬ (kind = qtype ∧ qtype = 28 ∧ length = 16) := by
      grind
    simp [takeRecord, RecordData.kind, hk, hf, RecordData.target, resultAfter, RecordData.addressOf]

theorem readAnswers_eq (h : AnswersAt 127 msg off answers) (res : DnsAnswer) :
    readAnswers msg qtype answers.length off res =
      if answers.all DnsRecord.isText then .ok (answers.foldl (resultAfter qtype) res)
      else .error (.error (protocolError "invalid DNS label")) := by
  induction h generalizing res with
  | nil => rfl
  | @cons off fixed length rec recs hn hk hl hb hd _ ih =>
    rw [length_cons, readAnswers_succ, recordHeader_eq hn hk hl hb, all_cons, DnsRecord.isText]
    by_cases ho : rec.owner.isUtf8 = true
    · simp only [ho, if_true, Except.mapError, bind, Except.bind, takeRecord_eq res hd, Bool.true_and]
      by_cases ht : rec.data.target.all DnsName.isUtf8 = true
      · simp only [ht, if_true, ih, Bool.true_and, foldl_cons]
      · simp only [ht, Bool.false_eq_true, if_false, Bool.false_and]
    · simp only [ho, Bool.false_eq_true, if_false, Bool.false_and]
      rfl

theorem getLast?_filterMap_cons {α β γ : Type} (f : α → Option β) (g : β → γ) (x : α) (xs : List α) (c : Option γ) :
    (((x :: xs).filterMap f).getLast?.map g).or c = ((xs.filterMap f).getLast?.map g).or (((f x).map g).or c) := by
  rcases hx : f x with _ | y
  · simp [hx]
  grind

theorem foldl_resultAfter (answers : List DnsRecord) (res : DnsAnswer) : answers.foldl (resultAfter qtype) res =
      { ip := (addressesOf qtype answers).getLast?.or res.ip
        cname := ((targetsOf answers).getLast?.map DnsName.text).or res.cname } := by
  induction answers generalizing res with
  | nil => rfl
  | cons rec answers ih =>
    have hip := getLast?_filterMap_cons (fun rec => rec.data.addressOf qtype) id rec answers res.ip
    have hc := getLast?_filterMap_cons (fun rec => rec.data.target) DnsName.text rec answers res.cname
    simp only [Option.map_id, id_eq] at hip
    rw [foldl_cons, ih]
    simp only [addressesOf, targetsOf, hip, hc, resultAfter]

theorem flags_eq {flags : Nat} (hlt : flags < 2 ^ 16) (hqr : 2 ^ 15 ≤ flags) (hr : flags % 2 ^ 4 = 0) :
    UInt16.ofNat flags &&& 0x8000 ≠ 0 ∧ UInt16.ofNat flags &&& 0x000f = 0 := by
  have hn : (UInt16.ofNat flags).toNat = flags := UInt16.toNat_ofNat_of_lt' hlt
  constructor
  · intro h
    have hb := congrArg UInt16.toNat h
    rw [UInt16.toNat_and, hn, show (0x8000 : UInt16).toNat = 2 ^ 15 from rfl, Nat.and_two_pow,
      Nat.testBit_eq_decide_div_mod_eq, show flags / 2 ^ 15 % 2 = 1 by omega] at hb
    exact absurd hb (by decide)
  · rw [← UInt16.toNat_inj, UInt16.toNat_and, hn, show (0x000f : UInt16).toNat = 2 ^ 4 - 1 from rfl,
      Nat.and_two_pow_sub_one_eq_mod, hr]
    rfl

theorem parseResponseChecked_header {depth : Nat} (h : Response depth msg id qs answers) :
    parseResponseChecked msg id qtype = ((skipQuestions msg qs.length 12).mapError .error >>= fun off =>
      readAnswers msg qtype answers.length off {}) := by
  obtain ⟨flags, hf, hqr, hr⟩ := h.flags
  have hid : UInt16.ofNat id.toNat = id := UInt16.ofNat_toNat
  have hb := flags_eq hf.1 hqr hr
  rw [parseResponseChecked, if_neg (Nat.not_lt.mpr h.header), readU16_eq h.id, readU16_eq hf,
    readU16_eq h.questionCount, readU16_eq h.answerCount]
  simp only [Except.mapError, bind, Except.bind, hid, ne_eq, not_true_eq_false, if_false, hb,
    UInt16.toNat_ofNat_of_lt' h.questionCount.1, UInt16.toNat_ofNat_of_lt' h.answerCount.1]

/-- From a response of the specification the last address of the type and the last alias are
taken, unless a label of a name is not UTF-8. -/
theorem parseResponse_eq (h : Response 127 msg id qs answers) : parseResponse msg id qtype =
      if textNames qs answers then .ok (lastAnswer qtype answers)
      else .error (protocolError "invalid DNS label") := by
  obtain ⟨off, hqs, ha⟩ := h.sections
  rw [parseResponse, parseResponseChecked_header h, skipQuestions_eq hqs, textNames]
  by_cases hn : qs.all DnsName.isUtf8 = true
  · simp only [hn, if_true, Except.mapError, bind, Except.bind, Bool.true_and, readAnswers_eq ha, foldl_resultAfter,
      Option.or_none]
    split <;> rfl
  · simp only [hn, Bool.false_eq_true, if_false, Bool.false_and]
    rfl

/-! ### Responses with longer names

What is read to its end has no name that is too long. -/

section Within

variable {depth : Nat}

theorem skipName_within {name : DnsName} {stop' : Nat} (h : NameWithin depth msg off name stop)
    (hok : skipName msg off = .ok stop') : NameWithin 127 msg off name stop ∧ stop' = stop := by
  obtain ⟨⟨txt, fixed⟩, hrd, -⟩ := bind_eq_ok hok
  have hn := nameWithin_of_readName h hrd
  rw [skipName_eq hn] at hok
  split at hok <;> cases hok
  exact ⟨hn, rfl⟩

theorem skipQuestions_within {names : List DnsName} {stop' : Nat} (h : QuestionsAt depth msg off names stop)
    (hok : skipQuestions msg names.length off = .ok stop') : QuestionsAt 127 msg off names stop := by
  induction h with
  | nil => exact .nil
  | cons hn hb _ ih =>
    obtain ⟨fixed, hs, hok⟩ := bind_eq_ok hok
    obtain ⟨hn, rfl⟩ := skipName_within hn hs
    dsimp only at hok
    rw [if_neg (by omega)] at hok
    exact .cons hn hb (ih hok)

theorem dataAt_within {start : Nat} {next : DnsAnswer} (h : DataAt depth msg start (start + length) rec.data)
    (hok : takeRecord msg qtype rec.data.kind start length res = .ok next) :
    DataAt 127 msg start (start + length) rec.data := by
  obtain ⟨owner, data⟩ := rec
  cases h with
  | v4 hsl hfr => exact .v4 hsl hfr
  | v6 hsl hs => exact .v6 hsl hs
  | other hon ht hf => exact .other hon ht hf
  | cname htg =>
    refine .cname ?_
    rw [RecordData.kind, takeRecord_cname] at hok
    obtain ⟨⟨txt, stop'⟩, hrd, -⟩ := map_eq_ok_iff.mp hok
    exact nameWithin_of_readName htg hrd

theorem readAnswers_within (h : AnswersAt depth msg off answers)
    (hok : readAnswers msg qtype answers.length off res = .ok ans) : AnswersAt 127 msg off answers := by
  induction h generalizing res with
  | nil => exact .nil
  | @cons off fixed length rec recs hn hk hl hb hd _ ih =>
    rw [length_cons, readAnswers_succ] at hok
    obtain ⟨⟨data, kind, length'⟩, hh, hok⟩ := bind_eq_ok hok
    obtain ⟨next, ht, hrest⟩ := bind_eq_ok hok
    rw [mapError_eq_ok_iff] at hh ht
    obtain ⟨fixed', hs, -⟩ := recordHeader_ok hh
    have hn := (skipName_within hn hs).1
    rw [recordHeader_eq hn hk hl hb] at hh
    split at hh <;> cases hh
    exact .cons hn hk hl hb (dataAt_within hd ht) (ih hrest)

theorem response_of_parseResponse (h : Response depth msg id qs answers)
    (hok : parseResponse msg id qtype = .ok ans) : Response 127 msg id qs answers ∧ textNames qs answers = true := by
  have hc := hok
  rw [parseResponse, withoutPanic_eq_ok_iff, parseResponseChecked_header h] at hc
  obtain ⟨off', ho, hc⟩ := bind_eq_ok hc
  rw [mapError_eq_ok_iff] at ho
  obtain ⟨off, hqs, ha⟩ := h.sections
  have hqs := skipQuestions_within hqs ho
  rw [skipQuestions_eq hqs] at ho
  split at ho <;> cases ho
  have hr : Response 127 msg id qs answers := { h with sections := ⟨_, hqs, readAnswers_within ha hc⟩ }
  refine ⟨hr, ?_⟩
  rw [parseResponse_eq hr] at hok
  split at hok <;> [assumption; cases hok]

end Within

/-- `parse_response` never panics, returns no address but one of the answers, and finds the last
ones of every response whose names are texts. -/
theorem parseResponse_exact (message : List UInt8) (id qtype : UInt16) :
    parseResponseChecked message id qtype = (parseResponse message id qtype).mapError .error ∧
    (∀ answer ip, parseResponse message id qtype = .ok answer → answer.ip = some ip →
      AnswerAddress message qtype ip) ∧
    ∀ questions answers, Response 127 message id questions answers →
      parseResponse message id qtype = if textNames questions answers then .ok (lastAnswer qtype answers)
        else .error (protocolError "invalid DNS label") :=
  ⟨parseResponseChecked_eq _ _ _, fun _ _ => answerAddress_of_parseResponse, fun _ _ => parseResponse_eq⟩

/-- A response to the query 7 with one record: the address 192.0.2.1 of a name with one label. -/
def oneLabelResponse (byte : UInt8) : List UInt8 :=
  [0, 7, 0x80, 0, 0, 0, 0, 1, 0, 0, 0, 0, 1, byte, 0, 0, 1, 0, 1, 0, 0, 0, 0, 0, 4, 192, 0, 2, 1]

theorem response_oneLabel (byte : UInt8) :
    Response 127 (oneLabelResponse byte) 7 [] [⟨[[byte]], .address (.v4 0xc0000201)⟩] where
  header := by simp [oneLabelResponse]
  id := ⟨by decide, rfl⟩
  flags := ⟨0x8000, ⟨by decide, rfl⟩, by decide, by decide⟩
  questionCount := ⟨by decide, rfl⟩
  answerCount := (⟨by decide, rfl⟩ : U16At (oneLabelResponse byte) 6 1)
  sections := by
    have hn : NameAt (oneLabelResponse byte) 12 [[byte]] 15 1 := .label rfl (by decide) (by decide) rfl (.root rfl)
    have hd : DataAt 127 (oneLabelResponse byte) (15 + 10) (15 + 10 + 4) (.address (.v4 0xc0000201)) :=
      .v4 (rfl : slice (oneLabelResponse byte) 25 29 = some [192, 0, 2, 1]) rfl
    have hk : U16At (oneLabelResponse byte) 15 1 := ⟨by decide, rfl⟩
    exact ⟨12, .nil, .cons ⟨1, by decide, hn⟩ hk ⟨by decide, rfl⟩ (by simp [oneLabelResponse]) hd .nil⟩

theorem parseResponse_exact_label : Response 127 (oneLabelResponse 97) 7 [] [⟨[[97]], .address (.v4 0xc0000201)⟩] ∧
      parseResponse (oneLabelResponse 97) 7 1 = .ok { ip := some (.v4 0xc0000201) } ∧
      AnswerAddress (oneLabelResponse 97) 1 (.v4 0xc0000201) :=
  have hp := (parseResponse_exact (oneLabelResponse 97) 7 1).2.2 [] _ (response_oneLabel 97)
  ⟨response_oneLabel 97, hp, (parseResponse_exact (oneLabelResponse 97) 7 1).2.1 _ _ hp rfl⟩

/-- A label of one byte that is not UTF-8, in a name that is only skipped. -/
theorem parseResponse_rawLabel : Response 127 (oneLabelResponse 0xff) 7 [] [⟨[[0xff]], .address (.v4 0xc0000201)⟩] ∧
      parseResponse (oneLabelResponse 0xff) 7 1 = .error (protocolError "invalid DNS label") :=
  ⟨response_oneLabel 0xff, rfl⟩

end Hysteria.Proof
