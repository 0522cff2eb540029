import Hysteria.Framework.Fallible
import Hysteria.Impl.Realm.Stun

/-!
# What is read from a STUN response

`parse_binding_response` never leaves the packet and comes to an end, whatever the
packet is (`parseBindingResponse_ends`). A well-formed response is read as its list of
attributes, one after the other (`parseAttributes_bytes`); so its address is found among
any others (`stun_response_exact`).
-/

namespace Hysteria.Proof

open Framework Impl List

variable {txn pkt : List UInt8}

/-! ## Well-formed responses -/

/-- An attribute, with what fills its last word. -/
structure StunAttribute where
  kind : Nat
  value : List UInt8
  padding : List UInt8
  kind_lt : kind < 65536
  length_lt : value.length < 65536
  length_padding : value.length + padding.length = (value.length + 3) / 4 * 4

variable {attributes : List StunAttribute}

def StunAttribute.bytes (item : StunAttribute) : List UInt8 :=
  beBytes 2 item.kind ++ (beBytes 2 item.value.length ++ (item.value ++ item.padding))

def attributeBytes (attributes : List StunAttribute) : List UInt8 := attributes.flatMap StunAttribute.bytes

/-- The value of a `MAPPED-ADDRESS`, or of an `XOR-MAPPED-ADDRESS`. -/
def addressValue (xor : Bool) (transaction : List UInt8) (ip : IpAddr) (port : UInt16) : List UInt8 :=
  let mask (bytes mask : List UInt8) : List UInt8 := if xor then xorBytes bytes mask else bytes
  let port := beBytes 2 (if xor then port ^^^ 0x2112 else port).toNat
  match ip with
  | .v4 bits => [0, 1] ++ (port ++ mask (beBytes 4 bits.toNat) (beBytes 4 magicCookie))
  | .v6 bits => [0, 2] ++ (port ++ mask (beBytes 16 bits.toNat) (beBytes 4 magicCookie ++ transaction))

def bindingResponse (transaction : List UInt8) (attributes : List StunAttribute) : List UInt8 :=
  beBytes 2 bindingSuccess ++ (beBytes 2 (attributeBytes attributes).length ++
    (beBytes 4 magicCookie ++ (transaction ++ attributeBytes attributes)))

/-! ## Addresses -/

theorem parseAddress_addressValue (h : txn.length = 12) (xor : Bool) (ip : IpAddr)
    (port : UInt16) : parseAddress (addressValue xor txn ip port) xor txn = .ok { ip, port } := by
  obtain ⟨high, low, hbs⟩ := length_eq_two.mp
    (length_beBytes 2 (if xor then port ^^^ 0x2112 else port).toNat)
  have hp : (if xor then UInt16.ofNat (beNat [high, low]) ^^^ UInt16.ofNat (magicCookie / 2 ^ 16)
      else UInt16.ofNat (beNat [high, low])) = port := by
    rw [← hbs, beNat_beBytes (UInt16.toNat_lt _), UInt16.ofNat_toNat]
    cases xor
    · rfl
    · show port ^^^ 0x2112 ^^^ 0x2112 = port
      rw [UInt16.xor_assoc, UInt16.xor_self, UInt16.xor_zero]
  have hm {bs mask : List UInt8} (hle : bs.length ≤ mask.length) :
      (if xor then xorBytes (if xor then xorBytes bs mask else bs) mask
        else if xor then xorBytes bs mask else bs) = bs := by
    cases xor
    · rfl
    · apply ext_getElem
      · simp [xorBytes, hle]
      · intro i hi hi'
        simp only [if_true, xorBytes, getElem_zipWith]
        exact xor_xor_self _ _
  have hl {bs mask : List UInt8} (hle : bs.length ≤ mask.length) :
      (if xor then xorBytes bs mask else bs).length = bs.length := by
    cases xor <;> simp [xorBytes, hle]
  cases ip with
  | v4 bits =>
    have hb : beNat (beBytes 4 bits.toNat) = bits.toNat := beNat_beBytes (by simpa using bits.isLt)
    have hle : (beBytes 4 bits.toNat).length ≤ (beBytes 4 magicCookie).length := by simp
    simp only [addressValue, hbs, cons_append, nil_append, parseAddress, hp, hl hle, hm hle, length_beBytes]
    simp [hb]
  | v6 bits =>
    have hb : beNat (beBytes 16 bits.toNat) = bits.toNat := beNat_beBytes (by simpa using bits.isLt)
    have hle : (beBytes 16 bits.toNat).length ≤ (beBytes 4 magicCookie ++ txn).length := by simp [h]
    simp only [addressValue, hbs, cons_append, nil_append, parseAddress, hp, hl hle, hm hle, length_beBytes]
    simp [hb]

/-! ## The attributes of a response -/

theorem wordAt_append {word : Nat} (h : word < 65536) (front rest : List UInt8) :
    wordAt (front ++ (beBytes 2 word ++ rest)) front.length = .ok word := by
  have hsl : slice (front ++ (beBytes 2 word ++ rest)) front.length (front.length + 2) = some (beBytes 2 word) :=
    (slice_eq_some_iff (by omega)).mpr ⟨front, rest, rfl, rfl, by simp⟩
  rw [wordAt, hsl]
  exact congrArg _ (beNat_beBytes h)

/-- What an attribute does to the addresses found so far. -/
def readAttribute (transaction : List UInt8) (found : Option SocketAddr × Option SocketAddr) (item : StunAttribute) :
    Option SocketAddr × Option SocketAddr :=
  let address (xor : Bool) := (parseAddress item.value xor transaction).toOption
  if item.kind = xorMappedAddress then (found.1, address true)
  else if item.kind = mappedAddress then (address false, found.2)
  else found

/-- The loop reads the attributes one after the other. -/
theorem parseAttributes_bytes :
    ∀ {front : List UInt8} {rounds : Nat} {found : Option SocketAddr × Option SocketAddr}, attributes.length < rounds →
      parseAttributes (front ++ attributeBytes attributes) txn
        (front.length + (attributeBytes attributes).length) rounds front.length found.1 found.2 =
      .ok (attributes.foldl (readAttribute txn) found) := by
  induction attributes with
  | nil =>
    intro front rounds found hr
    obtain ⟨rounds, rfl⟩ := Nat.exists_eq_succ_of_ne_zero (Nat.ne_zero_of_lt hr)
    rw [parseAttributes, if_neg (by simp [attributeBytes])]
    rfl
  | cons item attributes ih =>
    intro front rounds found hr
    obtain ⟨rounds, rfl⟩ := Nat.exists_eq_succ_of_ne_zero (Nat.ne_zero_of_lt hr)
    have hpd := item.length_padding
    have hbs : item.bytes.length = 4 + (item.value.length + 3) / 4 * 4 := by
      simp [StunAttribute.bytes, ← hpd]
      omega
    have hp : front ++ attributeBytes (item :: attributes) = front ++ (beBytes 2 item.kind ++
        (beBytes 2 item.value.length ++ (item.value ++ (item.padding ++ attributeBytes attributes)))) := by
      simp [attributeBytes, StunAttribute.bytes]
    have hk := wordAt_append item.kind_lt front
      (beBytes 2 item.value.length ++ (item.value ++ (item.padding ++ attributeBytes attributes)))
    have hl := wordAt_append item.length_lt (front ++ beBytes 2 item.kind)
      (item.value ++ (item.padding ++ attributeBytes attributes))
    rw [append_assoc, length_append, length_beBytes] at hl
    have hv : slice (front ++ attributeBytes (item :: attributes)) (front.length + 4)
        (front.length + 4 + item.value.length) = some item.value :=
      (slice_eq_some_iff (by omega)).mpr
        ⟨front ++ (beBytes 2 item.kind ++ beBytes 2 item.value.length), item.padding ++ attributeBytes attributes,
          by simp [hp], by simp, by simp⟩
    rw [← hp] at hk hl
    have hs : (attributeBytes (item :: attributes)).length =
        item.bytes.length + (attributeBytes attributes).length := by
      simp [attributeBytes]
    have hn (found : Option SocketAddr × Option SocketAddr) :
        parseAttributes (front ++ attributeBytes (item :: attributes)) txn
          (front.length + (attributeBytes (item :: attributes)).length) rounds
          (front.length + 4 + (item.value.length + 3) / 4 * 4) found.1 found.2 =
        .ok (attributes.foldl (readAttribute txn) found) := by
      have hih := @ih (front ++ item.bytes) rounds found (Nat.lt_of_succ_lt_succ hr)
      rw [length_append, Nat.add_assoc, ← hs, hbs, append_assoc, ← Nat.add_assoc] at hih
      exact hih
    rw [parseAttributes, if_pos (by omega), hk, hl]
    simp only [bind, Except.bind]
    rw [if_neg (by omega), hv]
    simp only [foldl_cons, ← hn]
    unfold readAttribute
    dsimp only
    split_ifs <;> rfl

theorem parseBindingResponse_of_fold {addr : SocketAddr} (htx : txn.length = 12)
    (hbd : (attributeBytes attributes).length < 65536) {found : Option SocketAddr × Option SocketAddr}
    (hfn : attributes.foldl (readAttribute txn) (none, none) = found) (ha : found.2.or found.1 = some addr) :
    parseBindingResponse (bindingResponse txn attributes) = .ok (txn, addr) := by
  set pkt := bindingResponse txn attributes with hp
  set front := beBytes 2 bindingSuccess ++ (beBytes 2 (attributeBytes attributes).length ++
    (beBytes 4 magicCookie ++ txn)) with hf
  have hps : pkt = front ++ attributeBytes attributes := by simp [hp, hf, bindingResponse]
  have hln : front.length = 20 := by simp [hf, htx]
  have hk : wordAt pkt 0 = .ok bindingSuccess := wordAt_append (by decide) [] _
  have hb : wordAt pkt 2 = .ok (attributeBytes attributes).length := wordAt_append hbd (beBytes 2 bindingSuccess) _
  have hc : slice pkt 4 8 = some (beBytes 4 magicCookie) :=
    (slice_eq_some_iff (by decide)).mpr ⟨beBytes 2 bindingSuccess ++ beBytes 2 (attributeBytes attributes).length,
      txn ++ attributeBytes attributes, by simp [hp, bindingResponse], by simp, by simp⟩
  have hid : slice pkt 8 20 = some txn :=
    (slice_eq_some_iff (by decide)).mpr ⟨beBytes 2 bindingSuccess ++ (beBytes 2 (attributeBytes attributes).length ++
      beBytes 4 magicCookie), attributeBytes attributes, by simp [hp, bindingResponse], by simp,
      by simp [htx]⟩
  have hr : attributes.length < pkt.length + 1 := by
    have hle : attributes.length ≤ (attributeBytes attributes).length :=
      length_le_flatMap fun item _ => by simp [StunAttribute.bytes]
    rw [hps, length_append]
    omega
  have hl := @parseAttributes_bytes txn attributes front (pkt.length + 1) (none, none) hr
  rw [← hps, hln, hfn] at hl
  have hs : pkt.length = 20 + (attributeBytes attributes).length := by rw [hps, length_append, hln]
  show (if pkt.length < 20 ∨ (1 : UInt8) &&& 0xc0 ≠ 0 then _ else _) = _
  rw [if_neg (not_or_intro (by omega) (by decide)), hk, hb]
  simp only [bind, Except.bind, ne_eq, not_true_eq_false, if_false]
  rw [if_neg (by simp [hs, hc]), hid]
  simp only [hl, ha]

/-! ## Any packet -/

theorem wordAt_reads {pos : Nat} (h : pos + 2 ≤ pkt.length) : ∃ word, wordAt pkt pos = .ok word := by
  rw [wordAt, slice, if_pos ⟨Nat.le_add_right _ _, h⟩]
  exact ⟨_, rfl⟩

theorem parseAttributes_ends {stop : Nat} (hs : stop ≤ pkt.length) :
    ∀ {rounds pos : Nat} {mapped xorMapped : Option SocketAddr}, 0 < rounds → stop < rounds + pos →
      Ends (fun e => ∃ err, e = .error err) (fun _ => True)
        (parseAttributes pkt txn stop rounds pos mapped xorMapped) := by
  intro rounds
  induction rounds with
  | zero => exact fun h => absurd h (by omega)
  | succ rounds ih =>
    intro pos mapped xorMapped hp hr
    refine .branch (fun hm => ?_) fun _ => .ok trivial
    obtain ⟨kind, hk⟩ := wordAt_reads (show pos + 2 ≤ pkt.length by omega)
    obtain ⟨len, hl⟩ := wordAt_reads (show pos + 2 + 2 ≤ pkt.length by omega)
    rw [hk, hl]
    refine .branch (fun _ => .error ⟨_, rfl⟩) fun hf => ?_
    rw [slice, if_pos ⟨by omega, by omega⟩]
    grind

theorem parseBindingResponse_ends (pkt : List UInt8) :
    Ends (fun e => ∃ err, e = .error err) (fun _ => True) (parseBindingResponse pkt) := by
  unfold parseBindingResponse
  split
  · refine .branch (fun _ => .error ⟨_, rfl⟩) fun hh => ?_
    rename_i first rest
    rw [not_or, not_lt] at hh
    obtain ⟨kind, hk⟩ := wordAt_reads (show 0 + 2 ≤ (first :: rest).length by omega)
    obtain ⟨body, hb⟩ := wordAt_reads (show 2 + 2 ≤ (first :: rest).length by omega)
    rw [hk, hb]
    refine .branch (fun _ => .error ⟨_, rfl⟩) fun _ => .branch (fun _ => .error ⟨_, rfl⟩) fun hf => ?_
    rw [not_or, not_lt] at hf
    rw [slice, if_pos ⟨by decide, hh.1⟩]
    refine (parseAttributes_ends hf.1 (by omega) (by omega)).bind fun found _ => ?_
    dsimp only
    split
    · exact .ok trivial
    · exact .error ⟨_, rfl⟩
  · exact .error ⟨_, rfl⟩

/-! ## The address of a response -/

theorem foldl_readAttribute_other (txn : List UInt8)
    (h : ∀ item ∈ attributes, item.kind ≠ xorMappedAddress) (found : Option SocketAddr × Option SocketAddr) :
    (attributes.foldl (readAttribute txn) found).2 = found.2 ∧ ((∀ item ∈ attributes, item.kind ≠ mappedAddress) →
        (attributes.foldl (readAttribute txn) found).1 = found.1) := by
  induction attributes generalizing found with
  | nil => exact ⟨rfl, fun _ => rfl⟩
  | cons item attributes ih =>
    obtain ⟨hitem, h⟩ := forall_mem_cons.mp h
    obtain ⟨hxr, hm⟩ := ih h (readAttribute txn found item)
    refine ⟨hxr.trans ?_, fun ho => (hm fun x hx => ho x (mem_cons_of_mem _ hx)).trans ?_⟩
    · simp only [readAttribute, if_neg hitem]
      split <;> rfl
    grind [readAttribute]

/-- The one address of the response: of its `XOR-MAPPED-ADDRESS`, or without one of its `MAPPED-ADDRESS`. -/
inductive OneAddress (transaction : List UInt8) (ip : IpAddr) (port : UInt16) (others : List StunAttribute)
    (item : StunAttribute) : Prop
  | xorMapped (hkind : item.kind = xorMappedAddress) (hvalue : item.value = addressValue true transaction ip port)
    (hothers : ∀ other ∈ others, other.kind ≠ xorMappedAddress)
  | mapped (hkind : item.kind = mappedAddress) (hvalue : item.value = addressValue false transaction ip port)
    (hothers : ∀ other ∈ others, other.kind ≠ xorMappedAddress ∧ other.kind ≠ mappedAddress)

/-- No packet makes the parser leave it or go on forever, and a well-formed response gives its
transaction and its address. -/
theorem stun_response_exact :
    (∀ packet, parseBindingResponse packet ≠ .error .outOfBounds ∧ parseBindingResponse packet ≠ .error .unfinished) ∧
    ∀ (transaction : List UInt8) (ip : IpAddr) (port : UInt16) (before : List StunAttribute) (item : StunAttribute)
      (after : List StunAttribute), transaction.length = 12 →
      (attributeBytes (before ++ item :: after)).length < 65536 →
      OneAddress transaction ip port (before ++ after) item →
      parseBindingResponse (bindingResponse transaction (before ++ item :: after)) =
        .ok (transaction, { ip, port }) := by
  refine ⟨fun packet => ⟨fun h => ?_, fun h => ?_⟩, fun transaction ip port before item after hid hb hon => ?_⟩
  · obtain ⟨err, he⟩ := (parseBindingResponse_ends packet).of_error _ h
    cases he
  · obtain ⟨err, he⟩ := (parseBindingResponse_ends packet).of_error _ h
    cases he
  refine parseBindingResponse_of_fold hid hb rfl ?_
  rw [foldl_append, foldl_cons]
  cases hon with
  | xorMapped hk hv ho =>
    obtain ⟨-, ha⟩ := forall_mem_append.mp ho
    rw [(foldl_readAttribute_other transaction ha _).1]
    simp only [readAttribute, if_pos hk, hv, parseAddress_addressValue hid]
    rfl
  | mapped hk hv ho =>
    obtain ⟨hbf, ha⟩ := forall_mem_append.mp ho
    obtain ⟨hxr, hm⟩ := foldl_readAttribute_other transaction (fun x hx => (ha x hx).1)
      (readAttribute transaction (before.foldl (readAttribute transaction) (none, none)) item)
    have hn := (foldl_readAttribute_other transaction (fun x hx => (hbf x hx).1) (none, none)).1
    rw [hxr, hm fun x hx => (ha x hx).2]
    have hne : item.kind ≠ xorMappedAddress := by
      rw [hk]
      decide
    simp only [readAttribute, if_neg hne, if_pos hk, hv, parseAddress_addressValue hid, hn]
    rfl

end Hysteria.Proof
