import Hysteria.Proof.Sniff.CryptoFrames
import Hysteria.Proof.Sniff.HttpHost

/-!
# Addresses after sniffing

The hook is asked for an address with a port, so `rewrite_host` never fails
(`rewriteHost_eq`), and reading a stream fails only if the stream does
(`sniffHost_ends`). The name is that of the `Host` header or of the ClientHello in the bytes
(`sniffHost_named`, `quicSni_eq_ok_iff`), and it is written into the address as it is: the
address can be dialled exactly if the name is one that can (`routedTo_addressAfter`).
-/

namespace Hysteria.Proof

open Framework Impl Spec List

variable {ending : ReadEnd} {cs : List (List UInt8)}
variable {addr front : Str} {port : UInt16}

/-! ## Reading fails only with the stream -/

/-- The error of a stream that fails. -/
def ReadFails (ending : ReadEnd) (failure : Failure TransportError) : Prop :=
  ∃ error, ending = .failed error ∧ failure = .error (.io error)

theorem readUpTo_ends (len : Nat) (cs : List (List UInt8)) (cap : List UInt8) :
    Ends (ReadFails ending) (fun res => res.1 = true → len ≤ res.2.1.length)
      (readUpTo ending len cs cap) := by
  fun_induction readUpTo ending len cs cap with
  | case1 cs cap hd => exact .ok fun _ => hd
  | case2 cap _ => exact .ok nofun
  | case3 cap _ => exact .ok nofun
  | case4 cap _ err he => exact .error ⟨err, he, rfl⟩
  | case5 cap _ chunk cs size hch ih => exact ih
  | case6 cap hm chunk cs size hch =>
    refine .ok fun _ => ?_
    grind

theorem httpHeaderLoop_ends (room : Nat) (cs : List (List UInt8)) (cap : List UInt8) :
    Ends (ReadFails ending) (fun _ => True) (httpHeaderLoop ending room cs cap) := by
  induction room generalizing cs cap with
  | zero => exact .ok trivial
  | succ room ih =>
    refine .branch (fun _ => .ok trivial) fun _ => ?_
    refine (readUpTo_ends _ cs cap).bind ?_
    rintro ⟨whole, cap, cs⟩ -
    exact .branch (fun _ => ih cs cap) fun _ => .ok trivial

theorem ends_getOrPanic {α : Type} {P : Failure TransportError → Prop} {x : Option α} (h : x.isSome) :
    Ends P (fun a => x = some a) (getOrPanic x) := by
  obtain ⟨a, rfl⟩ := Option.isSome_iff_exists.mp h
  exact .ok rfl

/-- The parser of a ClientHello does not panic. -/
theorem helloHost_ends (data : List UInt8) : Ends (ReadFails ending) (fun _ => True) (helloHost data) := by
  unfold helloHost
  cases hp : parseClientHelloSni data with
  | ok host => exact .ok trivial
  | error stop =>
    obtain rfl := (parseClientHelloSni_returns data).of_error stop hp
    exact .ok trivial

theorem readTlsSni_ends (cs : List (List UInt8)) (cap : List UInt8) :
    Ends (ReadFails ending) (fun _ => True) (readTlsSni ending cs cap) := by
  refine (readUpTo_ends 5 cs cap).bind ?_
  rintro ⟨whole, cap, cs⟩ hf
  refine .branch (fun _ => .ok trivial) fun hwh => ?_
  have hl : 5 ≤ cap.length := hf (not_not.mp hwh)
  refine (ends_getOrPanic (isSome_getElem? (by omega))).bind fun high _ => ?_
  refine (ends_getOrPanic (isSome_getElem? (by omega))).bind fun low _ => ?_
  refine (readUpTo_ends _ cs cap).bind ?_
  rintro ⟨whole, cap, cs⟩ hr
  refine .branch (fun _ => .ok trivial) fun hwh => ?_
  have hl : 5 + (high.toNat * 256 + low.toNat) ≤ cap.length := hr (not_not.mp hwh)
  refine (ends_getOrPanic (isSome_slice (by omega) (by omega))).bind fun data _ => ?_
  exact (helloHost_ends data).bind fun _ _ => .ok trivial

theorem sniffHost_ends (cs : List (List UInt8)) : Ends (ReadFails ending) (fun _ => True) (sniffHost ending cs) := by
  refine (readUpTo_ends 3 cs []).bind ?_
  rintro ⟨whole, cap, cs⟩ ht
  refine .branch (fun _ => .ok trivial) fun hwh => ?_
  have hl : 3 ≤ cap.length := ht (not_not.mp hwh)
  refine (ends_getOrPanic (isSome_slice (by omega) hl)).bind fun front _ => ?_
  refine .branch (fun _ => ((httpHeaderLoop_ends _ cs cap).bind fun _ _ => .ok trivial)) fun _ => ?_
  have htl : Ends (ReadFails ending) (fun _ => True) (isTls cap) :=
    .branch (fun _ => (ends_getOrPanic (isSome_getElem? (by omega))).bind fun _ _ => .ok trivial) fun _ => .ok trivial
  refine htl.bind fun tls _ => ?_
  exact .branch (fun _ => readTlsSni_ends cs cap) fun _ => .ok trivial

/-! ## The name that a stream has -/

section Names

variable {cap cap' : List UInt8} {rest : List (List UInt8)} {whole : Bool} {len : Nat} {name : Str}

theorem readUpTo_ok (h : readUpTo ending len cs cap = .ok (whole, cap', rest)) :
    cap' = cap ++ cs.flatten.take (len - cap.length) ∧ rest.flatten = cs.flatten.drop (len - cap.length) ∧
      (whole = true ↔ len ≤ cap.length + cs.flatten.length) := by
  fun_induction readUpTo ending len cs cap with
  | case1 cs cap hd =>
    cases h
    simp [Nat.sub_eq_zero_of_le hd]
    omega
  | case2 cap hd =>
    cases h
    simpa using hd
  | case3 cap hd =>
    cases h
    simpa using hd
  | case4 cap _ err he => cases h
  | case5 cap hd chunk cs size hch ih =>
    obtain ⟨rfl, hr, hw⟩ := ih h
    have hs : len - (cap ++ chunk).length = size - chunk.length := by
      rw [length_append]
      omega
    rw [hs] at hr ⊢
    rw [flatten_cons, take_append, drop_append, take_of_length_le hch, drop_of_length_le hch, append_assoc, nil_append,
      length_append, hw, length_append]
    exact ⟨rfl, hr, by omega⟩
  | case6 cap hd chunk cs size hch =>
    cases h
    have hle : size ≤ chunk.length := by omega
    rw [flatten_cons, flatten_cons, take_append_of_le_length hle, drop_append_of_le_length hle, length_append]
    exact ⟨rfl, rfl, by simp; omega⟩

theorem httpHeaderLoop_head {room : Nat} {stream : List UInt8} (hst : stream = cap ++ cs.flatten)
    (hroom : cap.length + room = maxHttpHeader)
    (hfirst : ∀ shorter, shorter <+: cap → [13, 10, 13, 10] <:+ shorter → shorter = cap)
    (h : httpHeaderLoop ending room cs cap = .ok (cap', rest)) : HttpHead stream cap' := by
  induction room generalizing cs cap with
  | zero =>
    cases h
    exact ⟨⟨_, hst.symm⟩, Nat.le_of_eq hroom, hfirst, .inr (.inl hroom)⟩
  | succ room ih =>
    have hlim : cap.length ≤ 256 * 1024 := by
      rw [maxHttpHeader] at hroom
      omega
    rw [httpHeaderLoop] at h
    split at h
    · rename_i he
      cases h
      exact ⟨⟨_, hst.symm⟩, hlim, hfirst, .inl (isSuffixOf_iff_suffix.mp he)⟩
    rename_i he
    obtain ⟨⟨whole, cap₁, cs₁⟩, hr, h⟩ := bind_eq_ok h
    obtain ⟨rfl, hcs, hw⟩ := readUpTo_ok hr
    rw [Nat.add_sub_cancel_left] at hcs h
    rcases hfl : cs.flatten with _ | ⟨b, more⟩
    · rw [hfl, length_nil] at hw
      have hn : whole = false := Bool.eq_false_iff.mpr fun hw' => by have := hw.mp hw'; omega
      rw [hfl, take_nil, append_nil, hn] at h
      cases h
      exact ⟨⟨_, hst.symm⟩, hlim, hfirst, .inr (.inr (by rw [hst, hfl, append_nil]))⟩
    · have ht : whole = true := hw.mpr (by rw [hfl, length_cons]; omega)
      rw [hfl] at hcs h hst
      rw [ht] at h
      refine @ih cs₁ (cap ++ [b]) (by rw [hst, hcs]; simp) (by rw [length_append, length_singleton]; omega) ?_ h
      rintro shorter hs he'
      rcases prefix_concat_iff.mp hs with rfl | hs
      · rfl
      · rw [hfirst shorter hs he'] at he'
        exact absurd (isSuffixOf_iff_suffix.mpr he') he

theorem httpHead_unique {stream a b : List UInt8} (ha : HttpHead stream a) (hb : HttpHead stream b) : a = b := by
  have hle {a b : List UInt8} (ha : HttpHead stream a) (hb : HttpHead stream b) (h : a <+: b) : a = b := by
    rcases ha.ends with he | he | he
    · exact hb.first a h he
    · exact h.eq_of_length_le (by rw [he]; exact hb.limit)
    · exact h.eq_of_length_le (by rw [he]; exact hb.start.length_le)
  rcases prefix_or_prefix_of_prefix ha.start hb.start with h | h
  · exact hle ha hb h
  · exact (hle hb ha h).symm

theorem hostLine_eq_some_iff {line : Str} :
    hostLine line = some name ↔ ∃ val, HostLine line val ∧ WithoutPort val name := by
  rcases not_mem_or_append ':' line with hc | ⟨fld, val, hc, rfl⟩
  · have hn : hostLine line = none := by
      rw [hostLine, splitOnce_of_not_mem hc]
      rfl
    refine iff_of_false (by simp [hn]) ?_
    rintro ⟨val, ⟨fld, rest, -, -, rfl, -⟩, -⟩
    simp at hc
  · rw [hostLine_header hc]
    constructor
    · intro h
      split at h <;> cases h
      exact ⟨trim val, ⟨fld, val, hc, by assumption, rfl, rfl⟩, stripHostPort_eq_iff.mp rfl⟩
    · rintro ⟨val', ⟨fld', rest, hc', hl, heq, rfl⟩, hw⟩
      obtain ⟨rfl, rfl⟩ := append_cons_inj hc hc' heq
      rw [if_pos hl, stripHostPort_eq_iff.mpr hw]

theorem findSome_hostLine_iff {ls : List Str} :
    ls.findSome? hostLine = some name ↔ ∃ val, HostValue ls val ∧ WithoutPort val name := by
  have hnone (line : Str) : hostLine line = none ↔ ∀ val, ¬ HostLine line val := by
    rw [Option.eq_none_iff_forall_ne_some]
    constructor
    · intro h val hv
      exact h _ (hostLine_eq_some_iff.mpr ⟨val, hv, stripHostPort_eq_iff.mp rfl⟩)
    · intro h name hn
      obtain ⟨val, hv, -⟩ := hostLine_eq_some_iff.mp hn
      exact h val hv
  rw [findSome?_eq_some_iff]
  simp only [hostLine_eq_some_iff, hnone, HostValue]
  constructor
  · rintro ⟨before, line, after, hl, ⟨val, hv, hw⟩, hb⟩
    exact ⟨val, ⟨before, line, after, hl, hv, hb⟩, hw⟩
  · rintro ⟨val, ⟨before, line, after, hl, hv, hb⟩, hw⟩
    exact ⟨before, line, after, hl, ⟨val, hv, hw⟩, hb⟩

theorem isTls_eq {a b c : UInt8} :
    isTls [a, b, c] = .ok (decide ((a = 0x16 ∨ a = 0x17) ∧ b = 3 ∧ c ≤ 9)) := by
  by_cases h : (a = 0x16 ∨ a = 0x17) ∧ b = 3
  · rw [isTls, if_pos (by simpa using h)]
    simp [h, bind, Except.bind, pure, Except.pure]
  · rw [isTls, if_neg (by simpa using h)]
    simp only [not_and] at h
    simp [pure, Except.pure]
    grind

theorem helloHost_eq_some {data : List UInt8} {host : Option Str} (h : helloHost data = .ok host) (name : Str) :
    host = some name ↔ ∃ sni, HelloName data sni ∧ fromUtf8 sni = some name := by
  rw [← parseClientHelloSni_eq_ok_iff]
  unfold helloHost at h
  split at h <;> cases h <;> simp_all

theorem not_letter {a : UInt8} (h : a = 0x16 ∨ a = 0x17) : ¬ (65 ≤ a ∧ a ≤ 90 ∨ 97 ≤ a ∧ a ≤ 122) := by
  rcases h with rfl | rfl <;> decide

/-- A record of TLS is named by its ClientHello. -/
theorem namedBy_record_iff {kind version high low : UInt8} {more : List UInt8} (hk : kind = 0x16 ∨ kind = 0x17)
    (hv : version ≤ 9) : NamedBy (kind :: 3 :: version :: high :: low :: more) name ↔
      high.toNat * 256 + low.toNat ≤ more.length ∧
        ∃ sni, HelloName (more.take (high.toNat * 256 + low.toNat)) sni ∧ fromUtf8 sni = some name := by
  constructor
  · intro h
    cases h with
    | host heq hl =>
      cases heq
      exact absurd (hl kind mem_cons_self) (not_letter hk)
    | @sni _ _ _ _ data rest _ _ heq _ _ hlen hn ht =>
      cases heq
      rw [length_append, ← hlen, take_left]
      exact ⟨Nat.le_add_right _ _, _, hn, ht⟩
  · rintro ⟨hle, sni, hn, ht⟩
    refine @NamedBy.sni _ kind version high low _ (more.drop (high.toNat * 256 + low.toNat)) sni name ?_ hk hv ?_ hn ht
    · rw [take_append_drop]
    · rw [length_take, Nat.min_eq_left hle]

theorem readTlsSni_named {a b c : UInt8} {host : Option Str} (hk : (a = 0x16 ∨ a = 0x17) ∧ b = 3 ∧ c ≤ 9)
    (h : readTlsSni ending cs [a, b, c] = .ok (host, cap, rest)) (name : Str) :
    host = some name ↔ NamedBy (a :: b :: c :: cs.flatten) name := by
  obtain ⟨hk, rfl, hv⟩ := hk
  obtain ⟨⟨whole, cap₁, cs₁⟩, hr, h⟩ := bind_eq_ok h
  obtain ⟨hcap, hcs, hw⟩ := readUpTo_ok hr
  dsimp only at h
  by_cases hl : 2 ≤ cs.flatten.length
  · obtain ⟨high, low, more, hfl⟩ : ∃ high low more, cs.flatten = high :: low :: more := by
      rcases hfl : cs.flatten with _ | ⟨high, _ | ⟨low, more⟩⟩ <;> simp_all
    rw [hfl]
    have ht : whole = true := hw.mpr (by rw [hfl, length_cons, length_cons]; simp; omega)
    have hc5 : cap₁ = [a, 3, c, high, low] := by simpa [hfl] using hcap
    have hm : cs₁.flatten = more := by simpa [hfl] using hcs
    subst hc5 hm
    rw [if_neg (not_not_intro ht)] at h
    obtain ⟨_, ⟨⟩, h⟩ := bind_eq_ok h
    obtain ⟨_, ⟨⟩, h⟩ := bind_eq_ok h
    obtain ⟨⟨whole₂, cap₂, cs₂⟩, hr₂, h⟩ := bind_eq_ok h
    obtain ⟨hcap₂, -, hw₂⟩ := readUpTo_ok hr₂
    rw [namedBy_record_iff hk hv]
    dsimp only at h
    have hlen : [a, 3, c, high, low].length = 5 := rfl
    rw [hlen, Nat.add_sub_cancel_left] at hcap₂
    rw [hlen, Nat.add_le_add_iff_left] at hw₂
    split at h
    · rename_i hn
      cases h
      exact iff_of_false (by simp) fun hnm => hn (hw₂.mpr hnm.1)
    rename_i hn
    obtain ⟨data, hd, h⟩ := bind_eq_ok h
    obtain ⟨found, hf, h⟩ := bind_eq_ok h
    cases h
    have hdata : data = cs₁.flatten.take (high.toNat * 256 + low.toNat) := by
      rw [hcap₂, slice_length (by simp), getOrPanic_some] at hd
      cases hd
      rfl
    rw [helloHost_eq_some hf, hdata, and_iff_right (hw₂.mp (not_not.mp hn))]
  · have hn : ¬ whole = true := fun ht => hl (Nat.le_of_add_le_add_left (show 3 + 2 ≤ 3 + _ from hw.mp ht))
    rw [if_pos hn] at h
    cases h
    refine iff_of_false (by simp) fun hnm => ?_
    cases hnm with
    | host heq hletters =>
      cases heq
      exact absurd (hletters a mem_cons_self) (not_letter hk)
    | sni heq =>
      simp only [cons.injEq] at heq
      exact absurd (by simp [heq]) hl

theorem readHttpHost_named {a b c : UInt8} {host : Option Str}
    (hall : ∀ letter ∈ [a, b, c], 65 ≤ letter ∧ letter ≤ 90 ∨ 97 ≤ letter ∧ letter ≤ 122)
    (h : readHttpHost ending cs [a, b, c] = .ok (host, cap, rest)) (name : Str) :
    host = some name ↔ NamedBy (a :: b :: c :: cs.flatten) name := by
  obtain ⟨⟨header, left⟩, hloop, h⟩ := bind_eq_ok h
  cases h
  have hroom : [a, b, c].length + (maxHttpHeader - [a, b, c].length) = maxHttpHeader :=
    Nat.add_sub_cancel' (show 3 ≤ 256 * 1024 by decide)
  have hh : HttpHead (a :: b :: c :: cs.flatten) cap := by
    refine httpHeaderLoop_head rfl hroom (fun shorter hs he => ?_) hloop
    have hle := Nat.le_trans he.length_le hs.length_le
    simp at hle
  rw [findSome_hostLine_iff]
  constructor
  · rintro ⟨val, hv, hwo⟩
    exact .host rfl hall hh hv hwo
  · intro hnm
    cases hnm with
    | host heq _ hh' hv hwo => exact ⟨_, httpHead_unique hh' hh ▸ hv, hwo⟩
    | sni heq hk =>
      obtain ⟨rfl, -⟩ := cons.inj heq
      exact absurd (hall a mem_cons_self) (not_letter hk)

theorem sniffHost_named {host : Option Str} (h : sniffHost ending cs = .ok (host, cap, rest)) (name : Str) :
    host = some name ↔ NamedBy cs.flatten name := by
  obtain ⟨⟨whole, cap₁, cs₁⟩, hr, h⟩ := bind_eq_ok h
  obtain ⟨hcap, hcs, hw⟩ := readUpTo_ok hr
  dsimp only at h
  split at h
  · -- Fewer than three bytes have no name.
    rename_i hn
    cases h
    refine iff_of_false (by simp) fun hnm => hn (hw.mpr ?_)
    cases hnm with
    | host heq => simp [heq]
    | sni heq => simp [heq]
  rename_i hn
  have hl := hw.mp (not_not.mp hn)
  obtain ⟨a, b, c, more, hfl⟩ : ∃ a b c more, cs.flatten = a :: b :: c :: more := by
    rcases hcs : cs.flatten with _ | ⟨a, _ | ⟨b, _ | ⟨c, more⟩⟩⟩ <;> simp_all
  have hc3 : cap₁ = [a, b, c] := by simpa [hfl] using hcap
  have hm : cs₁.flatten = more := by simpa [hfl] using hcs
  subst hc3 hm
  rw [hfl]
  have hsl : slice [a, b, c] 0 3 = some [a, b, c] := by simp [slice]
  rw [hsl, getOrPanic_some] at h
  have hlet : ([a, b, c].all isAsciiLetter = true) ↔
      ∀ letter ∈ [a, b, c], 65 ≤ letter ∧ letter ≤ 90 ∨ 97 ≤ letter ∧ letter ≤ 122 := by
    simp [isAsciiLetter]
  change (if [a, b, c].all isAsciiLetter then readHttpHost ending cs₁ [a, b, c] else _) = _ at h
  split at h
  · rename_i hall
    exact readHttpHost_named (hlet.mp hall) h name
  · rename_i hall
    rw [hlet] at hall
    obtain ⟨tls, ht, h⟩ := bind_eq_ok h
    rw [isTls_eq] at ht
    cases ht
    split at h
    · rename_i htls
      exact readTlsSni_named (of_decide_eq_true htls) h name
    · rename_i htls
      cases h
      refine iff_of_false (by simp) fun hnm => ?_
      cases hnm with
      | host heq hl =>
        cases heq
        exact hall hl
      | sni heq hk hv =>
        simp only [cons.injEq] at heq
        obtain ⟨rfl, rfl, rfl, -⟩ := heq
        exact htls (decide_eq_true ⟨hk, rfl, hv⟩)

end Names

/-- The payload of the Initial packet, if the keys of the library open it. -/
def Decrypted (crypto : InitialCrypto) (packet payload : List UInt8) : Prop :=
  ∃ initialKeys header keys, crypto = some initialKeys ∧ initialHeader packet = .ok header ∧
    header.destination.length ≤ 20 ∧ initialKeys header.version header.destination = some keys ∧
    initialPayload keys packet header = .ok payload

/-- The packet names this host: in the ClientHello that its CRYPTO frames carry. -/
def NamedByPacket (crypto : InitialCrypto) (packet : List UInt8) (name : Str) : Prop :=
  ∃ payload frames hello sni, Decrypted crypto packet payload ∧ PayloadBytes frames payload ∧
    Reassembles frames hello ∧ HelloName hello sni ∧ fromUtf8 sni = some name

theorem quicSni_eq_ok_iff {crypto : InitialCrypto} {packet : List UInt8} {name : Str} :
    quicSni crypto packet = .ok name ↔ NamedByPacket crypto packet name := by
  constructor
  · intro h
    obtain ⟨header, hh, h⟩ := bind_eq_ok h
    obtain ⟨initialKeys, hi, h⟩ := bind_eq_ok h
    dsimp only at h
    split at h
    · cases h
    rename_i hd
    obtain ⟨keys, hk, h⟩ := bind_eq_ok h
    obtain ⟨payload, hp, h⟩ := bind_eq_ok h
    obtain ⟨hello, hx, h⟩ := bind_eq_ok h
    rw [orNone_eq_ok_iff] at hi hk
    obtain ⟨frames, hf, hr⟩ := (extractCryptoFrames_iff payload).mp hx
    obtain ⟨sni, hn, ht⟩ := parseClientHelloSni_eq_ok_iff.mp h
    have hdec : Decrypted crypto packet payload := ⟨initialKeys, header, keys, hi, hh, Nat.le_of_not_lt hd, hk, hp⟩
    exact ⟨payload, frames, hello, sni, hdec, hf, hr, hn, ht⟩
  · rintro ⟨payload, frames, hello, sni, ⟨initialKeys, header, keys, rfl, hh, hd, hk, hp⟩, hf, hr, hn, ht⟩
    rw [quicSni, hh]
    simp only [bind, Except.bind, Sniff.orNone]
    rw [if_neg (Nat.not_lt.mpr hd), hk]
    simp only [hp, (extractCryptoFrames_iff payload).mpr ⟨frames, hf, hr⟩]
    exact parseClientHelloSni_eq_ok_iff.mpr ⟨sni, hn, ht⟩

/-! ## What can be dialled -/

theorem hostPort_of_splitAddress (h : splitAddress addr = some (front, port)) : ∃ host, HostPort addr host port := by
  obtain ⟨⟨host, txt⟩, hc, hr⟩ := Option.bind_eq_some_iff.mp h
  obtain ⟨-, rfl⟩ := rsplitOnce_eq_some hc
  obtain ⟨_, hp, heq⟩ := Option.bind_eq_some_iff.mp hr
  cases heq
  exact ⟨host, txt, rfl, hp⟩

/-- The host of an address is what is before its last colon, and the port what is after it. -/
theorem hostPort_unique {host other : Str} {port' : UInt16} (h : HostPort addr host port)
    (h' : HostPort addr other port') : host = other ∧ port = port' := by
  obtain ⟨txt, rfl, hp⟩ := h
  obtain ⟨txt', heq, hport'⟩ := h'
  grind [rsplitOnce_port]

/-- The address is this name with a port. -/
def WrittenIn (address name : Str) : Prop := ∃ port : UInt16, address = writtenHost name ++ ':' :: showNat port.toNat

theorem routableHost_writtenHost {name : Str} : RoutableHost (writtenHost name) ↔ RoutableName name := by
  unfold writtenHost RoutableName
  split
  · rename_i hl
    exact ⟨fun _ => .inl hl, fun _ => .inl ⟨name, hl, rfl⟩⟩
  grind

theorem routedTo_addressAfter (h : splitAddress addr = some (front, port)) (host : Option Str) :
    RoutedTo addr (addressAfter addr port host) ↔ ∀ name ∈ host, RoutableName name ∨ WrittenIn addr name := by
  rcases host with _ | name
  · exact iff_of_true (.inl rfl) (by simp)
  have ha : HostPort (addressAfter addr port (some name)) (writtenHost name) port := ⟨_, rfl, parseU16_showNat port⟩
  obtain ⟨host, hh⟩ := hostPort_of_splitAddress h
  simp only [Option.mem_some_iff, forall_eq']
  constructor
  · rintro (hs | ⟨_, host', _, -, hhost', hr⟩)
    · exact .inr ⟨port, hs.symm⟩
    · rw [(hostPort_unique hhost' ha).1] at hr
      exact .inl (routableHost_writtenHost.mp hr)
  · rintro (hn | ⟨port', rfl⟩)
    · exact .inr ⟨host, _, port, hh, ha, routableHost_writtenHost.mpr hn⟩
    · obtain ⟨-, rfl⟩ := hostPort_unique hh ⟨_, rfl, parseU16_showNat port'⟩
      exact .inl rfl

/-- A request that the hook is asked for never fails for its address, and a stream or a
datagram leaves the address as it is or makes it one that can be dialled, exactly if the
name in its `Host` header or ClientHello can be, or is already in the address. Names are not
looked at: some cannot. -/
theorem sniffing_routable_iff (sniffer : Sniffer) (address : Str) :
    (sniffer.check false address = true → ∀ ending chunks,
        (∀ failure, Sniffer.tcp ending chunks address = .error failure →
          ∃ error, ending = .failed error ∧ failure = .error (.io error)) ∧
        ∀ address' putback rest, Sniffer.tcp ending chunks address = .ok (address', putback, rest) →
          (RoutedTo address address' ↔
            ∀ name, NamedBy chunks.flatten name → RoutableName name ∨ WrittenIn address name)) ∧
      (sniffer.check true address = true → ∀ crypto data,
        (∀ error, Sniffer.udp crypto data address ≠ .ok (.error error)) ∧
        ∀ address', Sniffer.udp crypto data address = .ok (.ok address') →
          (RoutedTo address address' ↔
            ∀ name, NamedByPacket crypto data name → RoutableName name ∨ WrittenIn address name)) := by
  constructor
  · intro hc ending chunks
    obtain ⟨front, port, hs⟩ := splitAddress_of_check hc
    rcases hsn : sniffHost ending chunks with failure | res
    · have ht : Sniffer.tcp ending chunks address = .error failure := by
        rw [Sniffer.tcp, sniffTcp, hsn]
        rfl
      rw [ht]
      refine ⟨?_, by simp⟩
      rintro _ ⟨⟩
      exact (sniffHost_ends chunks).of_error failure hsn
    · obtain ⟨host, cap, left⟩ := res
      have ht : Sniffer.tcp ending chunks address = .ok (addressAfter address port host, cap, left) :=
        sniffTcp_eq hs hsn
      rw [ht]
      refine ⟨by simp, ?_⟩
      rintro _ _ _ ⟨⟩
      simp only [routedTo_addressAfter hs, Option.mem_def, sniffHost_named hsn]
  · intro hc crypto data
    obtain ⟨front, port, hs⟩ := splitAddress_of_check hc
    simp only [← quicSni_eq_ok_iff]
    unfold Sniffer.udp
    split
    · rename_i name hsni
      rw [rewriteHost_eq hs]
      refine ⟨by simp, ?_⟩
      rintro _ ⟨⟩
      have hr := routedTo_addressAfter hs (some name)
      simpa [hsni, addressAfter] using hr
    · rename_i hsni
      refine ⟨by simp, ?_⟩
      rintro _ ⟨⟩
      exact iff_of_true (.inl rfl) (by simp [hsni])
    · exact ⟨by simp, by simp⟩

/-- A sniffer for all ports, but not for names. -/
def plainSniffer : Sniffer := ⟨false, none, none⟩

theorem check_plainSniffer (udp : Bool) : plainSniffer.check udp "1.2.3.4:80" = true := by
  cases udp <;> decide +kernel

theorem splitAddress_plain : splitAddress "1.2.3.4:80".toList = some ("1.2.3.4".toList, 80) := by decide +kernel

/-- The request of `getBlock` goes to the host that it names, and no datagram fails for its address. -/
theorem sniffing_routable_iff_get : (∃ rest, Sniffer.tcp .finished [getBlock.bytes] "1.2.3.4:80".toList =
      .ok ("a.test:80".toList, getBlock.bytes, rest)) ∧
      RoutedTo "1.2.3.4:80".toList "a.test:80".toList ∧
      ∀ error, Sniffer.udp none [] "1.2.3.4:80".toList ≠ .ok (.error error) := by
  obtain ⟨ht, hu⟩ := sniffing_routable_iff plainSniffer "1.2.3.4:80".toList
  have hf : [getBlock.bytes].flatten = getBlock.bytes ++ [] := by simp
  have hh : getBlock.hostValue.map stripHostPort = some "a.test".toList := by decide
  obtain ⟨rest, -, hs⟩ := sniffHost_block getBlock hf
  rw [hh] at hs
  have hr := sniffTcp_eq splitAddress_plain hs
  refine ⟨⟨rest, hr⟩, ?_, (hu (check_plainSniffer true) none []).1⟩
  refine ((ht (check_plainSniffer false) .finished _).2 _ _ _ hr).mpr fun name hn => ?_
  cases (sniffHost_named hs name).mpr hn
  exact .inl (.inr (.inr ⟨by simp, by simp [isWhitespace, isControl]⟩))

/-- An empty `Host` header. -/
def emptyHost : HttpBlock where
  method := "GET"
  target := "/ HTTP/1.1"
  headers := [("Host", [])]
  method_letters := getBlock.method_letters
  method_colon := getBlock.method_colon
  method_clean := getBlock.method_clean
  target_clean := by simp [Clean]
  name_colon := by simp
  headers_clean := by simp [Clean]
  fits := by decide

/-- A request with an empty `Host` header is sent to an address without a host. -/
theorem sniffing_emptyHost : plainSniffer.check false "1.2.3.4:80".toList = true ∧
      emptyHost.text = "GET / HTTP/1.1\r\nHost:\r\n\r\n".toList ∧
      (∃ rest, Sniffer.tcp .finished [emptyHost.bytes] "1.2.3.4:80".toList =
        .ok (":80".toList, emptyHost.bytes, rest)) ∧
      ¬ RoutedTo "1.2.3.4:80".toList ":80".toList := by
  have hf : [emptyHost.bytes].flatten = emptyHost.bytes ++ [] := by simp
  have hh : emptyHost.hostValue.map stripHostPort = some [] := by decide
  obtain ⟨rest, -, hs⟩ := sniffHost_block emptyHost hf
  rw [hh] at hs
  refine ⟨check_plainSniffer false, by decide, ⟨rest, sniffTcp_eq splitAddress_plain hs⟩, ?_⟩
  intro hr
  have hn := (routedTo_addressAfter splitAddress_plain (some [])).mp hr [] rfl
  rcases hn with (hl | ⟨literal, -, hl⟩ | ⟨hne, -⟩) | ⟨port, hw⟩
  · exact absurd hl (by decide)
  · cases hl
  · exact hne rfl
  · cases hw

end Hysteria.Proof
