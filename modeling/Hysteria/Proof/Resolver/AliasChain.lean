import Hysteria.Proof.Resolver.Response

/-!
# Aliases are followed to the end

`lookup` goes on with the last alias of an answer. Whichever that is, it is further
down the chain (`lookupLoop_chain`), so a chain of up to 16 names is followed to its
end if no name of the answers on the way takes more than 127 labels and pointers, and
only then (`asked_of_lookup`).
-/

namespace Hysteria.Proof

open Framework Impl Spec List

variable {chain : AliasChain} {qtype : UInt16} {i : Nat} {recs : List DnsRecord}

/-! ## An answer from the chain -/

theorem isText_of_answers (h : chain.Answers i recs) : recs.all DnsRecord.isText = true := by
  rw [all_eq_true]
  intro rec hr
  rcases h.only rec hr with ⟨j, -, -, rfl⟩ | ⟨ip, -, rfl⟩
  · simp [DnsRecord.isText, AliasChain.cname, RecordData.target, isUtf8_ofText]
  · simp [DnsRecord.isText, AliasChain.address, RecordData.target, isUtf8_ofText]

theorem mem_targets {tgt : DnsName} (h : chain.Answers i recs) (ht : tgt ∈ targetsOf recs) :
    ∃ j, i < j ∧ j ≤ chain.last ∧ tgt = .ofText (chain.names j) := by
  obtain ⟨rec, hr, ht⟩ := mem_filterMap.mp ht
  rcases h.only rec hr with ⟨j, hle, hlt, rfl⟩ | ⟨ip, -, rfl⟩
  · cases ht
    grind
  · cases ht

/-- The end of the chain has no alias, and all the addresses. -/
theorem lastAnswer_last (hc : chain.WellFormed qtype) (h : chain.Answers chain.last recs)
    (hn : (addressesOf qtype recs).getLast? = none) : chain.addresses = [] ∧ (targetsOf recs).getLast? = none := by
  rw [getLast?_eq_none_iff] at hn
  constructor
  · rw [eq_nil_iff_forall_not_mem]
    intro ip hip
    have hm : ip ∈ addressesOf qtype recs :=
      mem_filterMap.mpr ⟨chain.address ip, h.addresses rfl ip hip, if_pos (hc.addresses ip hip)⟩
    rw [hn] at hm
    cases hm
  · rw [getLast?_eq_none_iff, eq_nil_iff_forall_not_mem]
    grind [mem_targets]

theorem lastAnswer_alias (h : chain.Answers i recs) (hi : i < chain.last) :
    ∃ j, i < j ∧ j ≤ chain.last ∧ (targetsOf recs).getLast? = some (.ofText (chain.names j)) := by
  obtain ⟨j, -, -, ha⟩ := h.cname hi
  have hm : DnsName.ofText (chain.names (j + 1)) ∈ targetsOf recs := mem_filterMap.mpr ⟨chain.cname j, ha, rfl⟩
  obtain ⟨tgt, ht⟩ := Option.isSome_iff_exists.mp (getLast?_isSome.mpr (ne_nil_of_mem hm))
  obtain ⟨j, hlt, hle, rfl⟩ := mem_targets h (mem_of_getLast? ht)
  exact ⟨j, hlt, hle, ht⟩

/-! ## The loop -/

variable {out : Outside} {r : Resolver}

/-- What is returned is from the chain, after no more queries than it has names left. -/
def Arrives (chain : AliasChain) (i : Nat) (w : World) (res : Except TransportError (Option IpAddr) × World) : Prop :=
  ∃ ip? w', res = (.ok ip?, w') ∧ w'.asked ≤ w.asked + (chain.last - i) + 1 ∧ (∀ ip ∈ ip?, ip ∈ chain.addresses) ∧
    (ip? = none → chain.addresses = [])

/-- The world after a query. -/
def afterQuery (w : World) : World := World.ask { w with nextId := w.nextId + 1 }

/-- One round, with an answer that can be read. -/
theorem lookupLoop_readable {rounds : Nat} {w : World} {query resp : List UInt8} {host : Str} {qs : List DnsName}
    (hq : buildQuery w.nextId host qtype = .ok query) (he : out.exchange w.asked r query = .ok resp)
    (hr : Response 127 resp w.nextId qs recs) (ht : textNames qs recs = true) :
    r.lookupLoop out qtype (rounds + 1) host w =
      ((addressesOf qtype recs).getLast?.elim ((targetsOf recs).getLast?.elim (.ok none, afterQuery w)
        fun tgt => r.lookupLoop out qtype rounds tgt.text (afterQuery w)) fun ip => (.ok (some ip), afterQuery w)) := by
  rw [Resolver.lookupLoop]
  simp only [hq, he, parseResponse_eq hr, ht, if_true, lastAnswer]
  cases (addressesOf qtype recs).getLast? with
  | some ip => rfl
  | none => cases (targetsOf recs).getLast? <;> rfl

/-- An answer that cannot be read ends the lookup. -/
theorem readable_of_lookupLoop {rounds : Nat} {w w' : World} {query resp : List UInt8} {host : Str}
    {ip? : Option IpAddr} (hq : buildQuery w.nextId host qtype = .ok query)
    (he : out.exchange w.asked r query = .ok resp)
    (hl : r.lookupLoop out qtype (rounds + 1) host w = (.ok ip?, w')) :
    ∃ ans, parseResponse resp w.nextId qtype = .ok ans := by
  rw [Resolver.lookupLoop] at hl
  simp only [hq, he] at hl
  rcases hp : parseResponse resp w.nextId qtype with err | ans
  · rw [hp] at hl
    cases hl
  · exact ⟨ans, rfl⟩

theorem lookupLoop_chain {start w : World} (hc : chain.WellFormed qtype) (hs : chain.Served out r qtype)
    (hread : ∀ w i query resp, chain.Asked out r qtype start w i →
      buildQuery w.nextId (chain.names i) qtype = .ok query → out.exchange w.asked r query = .ok resp →
      Readable resp w.nextId)
    {rounds : Nat} (hi : i ≤ chain.last) (hrn : chain.last - i < rounds) (ha : chain.Asked out r qtype start w i) :
    Arrives chain i w (r.lookupLoop out qtype rounds (chain.names i) w) := by
  induction rounds generalizing i w with
  | zero => omega
  | succ rounds ih =>
    obtain ⟨query, stop, hq, -⟩ := hc.names i hi w.nextId
    obtain ⟨resp, depth, qs, recs, he, hr, hans⟩ := hs i hi w.asked w.nextId query hq
    obtain ⟨hr, hqs⟩ := hread w i query resp ha hq he depth qs recs hr
    have ht : textNames qs recs = true := by
      rw [textNames, hqs, isText_of_answers hans]
      rfl
    rw [lookupLoop_readable hq he hr ht]
    cases hip : (addressesOf qtype recs).getLast? with
    | some ip =>
      refine ⟨some ip, _, rfl, ?_, ?_, by simp⟩
      · simp [afterQuery, World.ask]
      · rintro _ ⟨⟩
        obtain ⟨rec, hr, hip⟩ := mem_filterMap.mp (mem_of_getLast? hip)
        rcases hans.only rec hr with ⟨j, -, -, rfl⟩ | ⟨ip', hip', rfl⟩
        · cases hip
        grind [AliasChain.address, RecordData.addressOf]
    | none =>
      rcases Nat.lt_or_eq_of_le hi with hlt | rfl
      · obtain ⟨j, hij, hj, htg⟩ := lastAnswer_alias hans hlt
        obtain ⟨ip?, w', hl, has, hrs⟩ := ih hj (by omega)
          (.next ha hq he hr (getLast?_eq_none_iff.mp hip) htg hj)
        refine ⟨ip?, w', ?_, ?_, hrs⟩
        · simp only [htg, Option.elim_some, text_ofText]
          exact hl
        · simp only [World.ask] at has
          omega
      · obtain ⟨hem, htg⟩ := lastAnswer_last hc hans hip
        simp_all [Arrives, afterQuery, World.ask]

/-- A lookup that returns an address has been through all the queries. -/
theorem asked_of_lookup {start w w' : World} {ip? : Option IpAddr} (ha : chain.Asked out r qtype start w i)
    (hl : r.lookup out (chain.names 0) qtype start = (.ok ip?, w')) :
    i ≤ chain.last ∧ ∃ rounds, r.lookupLoop out qtype (rounds + 1) (chain.names i) w = (.ok ip?, w') := by
  induction ha with
  | first => exact ⟨Nat.zero_le _, 15, hl⟩
  | next _ hq he hr hn htg hj ih =>
    refine ⟨hj, ?_⟩
    obtain ⟨-, rounds, hl⟩ := ih
    obtain ⟨ans, hp⟩ := readable_of_lookupLoop hq he hl
    obtain ⟨hr, ht⟩ := response_of_parseResponse hr hp
    rw [lookupLoop_readable hq he hr ht, hn, htg, getLast?_nil, Option.elim_none, Option.elim_some, text_ofText] at hl
    rcases rounds with _ | rounds
    · cases hl
    · exact ⟨rounds, hl⟩

/-- A chain of up to 16 names is followed to the addresses of its last one, exactly if all answers
on the way can be read. -/
theorem lookup_aliasChain (outside : Outside) (r : Resolver) (qtype : UInt16) (chain : AliasChain) (w : World)
    (hlast : chain.last ≤ 15) (hchain : chain.WellFormed qtype) (hserved : chain.Served outside r qtype) :
    (∃ result w', r.lookup outside (chain.names 0) qtype w = (.ok result, w') ∧
      w'.asked ≤ w.asked + (chain.last + 1) ∧ (∀ ip ∈ result, ip ∈ chain.addresses) ∧
      (result = none → chain.addresses = [])) ↔
    ∀ w' i query response, chain.Asked outside r qtype w w' i →
      buildQuery w'.nextId (chain.names i) qtype = .ok query → outside.exchange w'.asked r query = .ok response →
      Readable response w'.nextId := by
  constructor
  · rintro ⟨result, w', hl, -⟩ w' i query response ha hq he depth questions records hr
    obtain ⟨-, rounds, hl⟩ := asked_of_lookup ha hl
    obtain ⟨ans, hp⟩ := readable_of_lookupLoop hq he hl
    obtain ⟨hr, ht⟩ := response_of_parseResponse hr hp
    exact ⟨hr, (Bool.and_eq_true_iff.mp ht).1⟩
  · intro h
    exact lookupLoop_chain hchain hserved h (by omega) (by omega) .first

/-! ## A server that compresses names -/

/-- The rest of the header of a response with one question and one answer. -/
def responseBits : List UInt8 := [0x80, 0, 0, 1, 0, 1, 0, 0, 0, 0]

/-- The address 192.0.2.1 of the name at 12. -/
def pointerRecord : List UInt8 := [0xc0, 12, 0, 1, 0, 1, 0, 0, 0, 0, 0, 4, 192, 0, 2, 1]

/-- The question of the query, and an answer whose name is a pointer to it. -/
def compressedResponse (query : List UInt8) : List UInt8 :=
  query.take 2 ++ responseBits ++ (query.drop 12 ++ pointerRecord)

def compressingServer : Outside where
  lookupHost _ _ := .error []
  exchange _ _ query := .ok (compressedResponse query)
  bind _ _ := .ok ()
  connect _ _ := .ok ()
  race _ := true
  sendTo _ _ _ := .ok 0

theorem compressedResponse_query (id : UInt16) (name : DnsName) :
    compressedResponse (queryHeader id ++ (name.wire ++ queryEnd 1)) =
      (beBytes 2 id.toNat ++ responseBits) ++ (name.wire ++ (queryEnd 1 ++ pointerRecord)) := by
  have hd : (queryHeader id ++ (name.wire ++ queryEnd 1)).drop 12 = name.wire ++ queryEnd 1 := drop_left' rfl
  have ht : (queryHeader id ++ (name.wire ++ queryEnd 1)).take 2 = beBytes 2 id.toNat := rfl
  rw [compressedResponse, hd, ht, append_assoc name.wire]

theorem answersAt_pointer {front : List UInt8} {name : DnsName} {stop steps depth : Nat}
    (hn : NameAt (front ++ pointerRecord) 12 name stop steps) (hd : steps + 1 ≤ depth) :
    AnswersAt depth (front ++ pointerRecord) front.length [⟨name, .address (.v4 0xc0000201)⟩] := by
  have hg : ∀ k, (front ++ pointerRecord)[front.length + k]? = pointerRecord[k]? := by
    grind
  have ho : NameAt (front ++ pointerRecord) front.length name (front.length + 2) (steps + 1) :=
    .pointer (hg 0) (by decide) (hg 1) hn
  have hk : U16At (front ++ pointerRecord) (front.length + 2) 1 := ⟨by decide, slice_append front pointerRecord 2 4⟩
  have hl : U16At (front ++ pointerRecord) (front.length + 2 + 8) 4 :=
    ⟨by decide, slice_append front pointerRecord 10 12⟩
  have hdt := slice_append front pointerRecord 12 16
  exact .cons ⟨_, hd, ho⟩ hk hl (by simp [pointerRecord]) (.v4 hdt rfl) .nil

theorem response_compressed (id : UInt16) {name : DnsName} {depth : Nat}
    (hn : ∀ lbl ∈ name, 1 ≤ lbl.length ∧ lbl.length ≤ 63) (hd : name.length + 1 ≤ depth) :
    Response depth (compressedResponse (queryHeader id ++ (name.wire ++ queryEnd 1))) id [name]
      [⟨name, .address (.v4 0xc0000201)⟩] := by
  have hq := nameAt_wire hn (beBytes 2 id.toNat ++ responseBits) (queryEnd 1 ++ pointerRecord)
  set msg := (beBytes 2 id.toNat ++ responseBits) ++ (name.wire ++ (queryEnd 1 ++ pointerRecord)) with hm
  have hf : msg = (beBytes 2 id.toNat ++ responseBits ++ name.wire ++ queryEnd 1) ++ pointerRecord := by
    simp only [hm, append_assoc]
  have hl : (beBytes 2 id.toNat ++ responseBits ++ name.wire ++ queryEnd 1).length =
      12 + name.wire.length + 4 := by
    simp [responseBits, queryEnd]
    omega
  have ha : AnswersAt depth msg (12 + name.wire.length + 4) [⟨name, .address (.v4 0xc0000201)⟩] := by
    rw [hf] at hq ⊢
    rw [← hl]
    exact answersAt_pointer hq hd
  have ht : 12 + name.wire.length + 4 ≤ msg.length := by
    grind
  have hc : U16At msg 4 1 ∧ U16At msg 6 1 := ⟨⟨by decide, rfl⟩, ⟨by decide, rfl⟩⟩
  rw [compressedResponse_query, ← hm]
  exact {
    header := by omega
    id := ⟨id.toNat_lt, rfl⟩
    flags := ⟨0x8000, ⟨by decide, rfl⟩, by decide, by decide⟩
    questionCount := hc.1
    answerCount := hc.2
    sections := ⟨_, .cons ⟨_, by omega, hq⟩ ht .nil, ha⟩ }

/-- One name with the address 192.0.2.1. -/
def ownName (name : Str) : AliasChain where
  names _ := name
  last := 0
  addresses := [.v4 0xc0000201]

variable {name : Str}

theorem wellFormed_ownName (ht : trimEndMatches '.' name = name)
    (hn : ∀ lbl ∈ DnsName.ofText name, 1 ≤ lbl.length ∧ lbl.length ≤ 63)
    (hl : (DnsName.ofText name).length ≤ 127) : (ownName name).WellFormed 1 where
  names _ _ id := by
    rw [← ht] at hn
    have hq : buildQuery id name 1 = .ok _ := buildQuery_ok hn
    rw [ht] at hq hn
    exact ⟨_, _, hq, readName_query hn hl⟩
  addresses ip hip := by
    rw [mem_singleton.mp hip]
    rfl

theorem answers_ownName (name : Str) : (ownName name).Answers 0 [⟨.ofText name, .address (.v4 0xc0000201)⟩] where
  only rec hr := .inr ⟨_, mem_singleton_self _, mem_singleton.mp hr⟩
  cname hlt := absurd hlt (Nat.not_lt_zero 0)
  addresses _ ip hip := by
    rw [mem_singleton.mp hip]
    exact mem_singleton_self _

/-- The answer of the server has one label or pointer more than the name has labels. -/
theorem response_ownName {id : UInt16} {query : List UInt8} (ht : trimEndMatches '.' name = name)
    (hn : ∀ lbl ∈ DnsName.ofText name, 1 ≤ lbl.length ∧ lbl.length ≤ 63) (hq : buildQuery id name 1 = .ok query)
    {depth : Nat} (hd : (DnsName.ofText name).length + 1 ≤ depth) :
    Response depth (compressedResponse query) id [.ofText name] [⟨.ofText name, .address (.v4 0xc0000201)⟩] := by
  rw [← ht] at hn
  rw [buildQuery_ok hn] at hq
  rw [ht] at hq hn
  cases hq
  exact response_compressed id hn hd

theorem served_ownName (ht : trimEndMatches '.' name = name)
    (hn : ∀ lbl ∈ DnsName.ofText name, 1 ≤ lbl.length ∧ lbl.length ≤ 63) (r : Resolver) :
    (ownName name).Served compressingServer r 1 := by
  intro i hi n id query hq
  obtain rfl : i = 0 := Nat.le_zero.mp hi
  exact ⟨_, _, _, _, rfl, response_ownName ht hn hq (Nat.le_refl _), answers_ownName name⟩

theorem readable_ownName {id : UInt16} {query : List UInt8} (ht : trimEndMatches '.' name = name)
    (hn : ∀ lbl ∈ DnsName.ofText name, 1 ≤ lbl.length ∧ lbl.length ≤ 63) (hd : (DnsName.ofText name).length ≤ 126)
    (hq : buildQuery id name 1 = .ok query) : Readable (compressedResponse query) id := by
  intro depth qs recs hr
  have hp : parseResponse (compressedResponse query) id 1 = _ :=
    parseResponse_eq (response_ownName ht hn hq (Nat.succ_le_succ hd))
  rw [textNames, all_cons, isUtf8_ofText, isText_of_answers (answers_ownName name)] at hp
  obtain ⟨hr, ht⟩ := response_of_parseResponse hr hp
  exact ⟨hr, (Bool.and_eq_true_iff.mp ht).1⟩

theorem lookup_aliasChain_test :
    ∃ result w', (Resolver.udp []).lookup compressingServer "a.test".toList 1 {} = (.ok result, w') ∧
      w'.asked ≤ 0 + (0 + 1) ∧ (∀ ip ∈ result, ip ∈ (ownName "a.test".toList).addresses) ∧
      (result = none → (ownName "a.test".toList).addresses = []) := by
  have hn : ∀ lbl ∈ DnsName.ofText "a.test", 1 ≤ lbl.length ∧ lbl.length ≤ 63 := by decide
  refine (lookup_aliasChain compressingServer (.udp []) 1 (ownName "a.test") {} (by decide)
    (wellFormed_ownName (by decide) hn (by decide)) (served_ownName (by decide) hn _)).mpr ?_
  rintro w i query _ - hq ⟨⟩
  exact readable_ownName (by decide) hn (by decide) hq

/-- A name of 127 labels, the longest there is. -/
def deepName : Str := ['.'].intercalate (List.replicate 127 ['a'])

theorem ofText_deepName : DnsName.ofText deepName = replicate 127 [97] := by decide +kernel

theorem labels_deepName : ∀ lbl ∈ DnsName.ofText deepName, 1 ≤ lbl.length ∧ lbl.length ≤ 63 := by
  rw [ofText_deepName]
  simp

/-- The pointer to a name of 127 labels is one step too many. -/
theorem lookup_deepName :
    (ownName deepName).WellFormed 1 ∧ (ownName deepName).Served compressingServer (.udp []) 1 ∧
      ((Resolver.udp []).lookup compressingServer deepName 1 {}).1 =
        .error (protocolError "DNS compression pointer loop") := by
  have ht : trimEndMatches '.' deepName = deepName := by decide +kernel
  have hl : (DnsName.ofText deepName).length = 127 := by rw [ofText_deepName, length_replicate]
  exact ⟨wellFormed_ownName ht labels_deepName (by omega),
    served_ownName ht labels_deepName _, by decide +kernel⟩

end Hysteria.Proof
