import Hysteria.Framework.HttpHead
import Hysteria.Impl.Outbound.HttpConnect

/-!
# What an HTTP proxy reads from the CONNECT outbound

Nothing between the client and the HTTP CONNECT outbound looks at the request
address, and the outbound puts it into the request twice as it is.
`connect_request_iff`: the proxy reads one CONNECT request for the address, and
nothing else, exactly for the addresses without line ends and spaces
(`Targetable`).
-/

namespace Hysteria.Proof

open Framework Impl List

variable {ob : HttpConnectOutbound} {addr : Str} {wr : List UInt8}
variable {n : Nat} {s rest bs : List UInt8} {txts : StreamTexts}

/-- The header fields of a CONNECT request for the address. -/
def connectFields (outbound : HttpConnectOutbound) (address : Str) : List Field :=
  [⟨"Host", address⟩, ⟨"Proxy-Connection", "Keep-Alive"⟩] ++
    (outbound.authorization.map fun authorization =>
      ⟨"Proxy-Authorization", "Basic " ++ authorization⟩).toList

/-- One CONNECT request for the address, with these fields, and nothing after it. -/
def OneConnect (outbound : HttpConnectOutbound) (address : Str) (written : List UInt8) : Prop :=
  ∃ text, fromUtf8 written = some text ∧
    parseHead text = some (⟨"CONNECT", address, "HTTP/1.1", connectFields outbound address⟩, [])

/-- No line end and no space, and no tab at an end, where it is not part of a header value. -/
def Targetable (address : Str) : Prop := ' ' ∉ address ∧ Clean address ∧ OwsTrimmed address

instance (address : Str) : Decidable (Targetable address) :=
  inferInstanceAs (Decidable (' ' ∉ address ∧ Clean address ∧ OwsTrimmed address))

/-! ## The request -/

theorem request_eq_endLines (ob : HttpConnectOutbound) (tgt : Str) : ob.request tgt =
      endLines (("CONNECT" ++ ' ' :: (tgt ++ ' ' :: "HTTP/1.1")) ::
        (connectFields ob tgt).map Field.line ++ [[]]) := by
  unfold HttpConnectOutbound.request connectFields
  cases ob.authorization <;> simp [endLines, Field.line]

/-- The credentials are Base64: there is no line end and no space in them. -/
def EncodedCredentials (outbound : HttpConnectOutbound) : Prop :=
  ∀ authorization ∈ outbound.authorization, authorization ≠ [] ∧ ∀ c ∈ authorization, isWhitespace c = false

theorem encodedCredentials_new {url : ProxyUrl} (h : HttpConnectOutbound.new url = .ok ob) : EncodedCredentials ob := by
  unfold HttpConnectOutbound.new at h
  split at h
  · split at h
    · cases h
      intro az ha
      split at ha
      · cases ha
      cases ha
      refine ⟨base64Encode_ne_nil ?_, not_isWhitespace_base64Encode _⟩
      rw [ne_eq, utf8_eq_nil]
      simp
    · cases h
  · cases h

theorem clean_of_not_isWhitespace {s : Str} (h : ∀ c ∈ s, isWhitespace c = false) : Clean s := by
  constructor
  · intro hc
    exact absurd (h _ hc) (by decide)
  · intro hc
    exact absurd (h _ hc) (by decide)

theorem wellFormed_authorization {az : Str} (h : ∀ c ∈ az, isWhitespace c = false)
    (hne : az ≠ []) : Field.WellFormed ⟨"Proxy-Authorization", "Basic " ++ az⟩ := by
  refine .of_parts (by decide) ?_ ⟨?_, ?_⟩
  · exact (clean_append _ _).2 ⟨by decide, clean_of_not_isWhitespace h⟩
  · intro c hc
    cases hc
    decide
  intro c hc
  rw [getLast?_append_of_ne_nil _ hne] at hc
  have h := h c (mem_of_getLast? hc)
  simp only [isOws, decide_eq_false_iff_not, not_or]
  constructor <;> rintro rfl <;> exact absurd h (by decide)

theorem wellFormed_connectFields (hat : EncodedCredentials ob) (ha : Targetable addr) :
    ∀ fld ∈ connectFields ob addr, fld.WellFormed := by
  intro fld hf
  simp only [connectFields, cons_append, nil_append, mem_cons, Option.mem_toList, Option.map_eq_some_iff] at hf
  rcases hf with rfl | rfl | ⟨az, hsm, rfl⟩
  · exact .of_parts (by decide) ha.2.1 ha.2.2
  · exact .of_parts (by decide) (by decide) (by decide)
  · obtain ⟨hne, hs⟩ := hat az hsm
    exact wellFormed_authorization hs hne

/-- A request for an address without spaces and line ends is read as it was meant. -/
theorem parseHead_request (hat : EncodedCredentials ob) (hne : addr ≠ []) (ha : Targetable addr) :
    parseHead (ob.request addr) =
      some (⟨"CONNECT", addr, "HTTP/1.1", connectFields ob addr⟩, []) := by
  rw [request_eq_endLines]
  refine parseHead_endLines (by decide) ⟨hne, ha.1⟩ (by decide) ?_ (wellFormed_connectFields hat ha)
  simp [ha.2.1]

theorem oneConnect_request_iff (ha : EncodedCredentials ob) (hne : addr ≠ []) :
    OneConnect ob addr (utf8 (ob.request addr)) ↔ Targetable addr := by
  constructor
  · rintro ⟨txt, -, hp⟩
    obtain ⟨hs, hc, hv⟩ := parseHead_sound hp
    exact ⟨hs, hc, hv ⟨"Host", addr⟩ mem_cons_self⟩
  · intro had
    exact ⟨_, fromUtf8_utf8 _, parseHead_request ha hne had⟩

/-! ## The way to the outbound -/

theorem run_checkedLength {val : UInt64} {hi : Nat}
    (h : (checkedLength val hi false).run s = .ok (n, rest)) : 0 < n := by
  unfold checkedLength at h
  split at h
  · cases h
  rename_i hv
  cases h
  have hne : val ≠ 0 := fun hz => hv (.inl ⟨rfl, hz⟩)
  exact Nat.pos_of_ne_zero fun hz => hne (UInt64.toNat_inj.mp hz)

theorem length_of_readExact (h : (Impl.readExact txts n).run s = .ok (bs, rest)) : bs.length = n := by
  rw [Impl.readExact, StreamReader.run_readExact] at h
  split at h
  · cases h
    rwa [length_take, min_eq_left]
  · cases h

theorem fromUtf8_of_stringFromUtf8 {txt : Str}
    (h : (stringFromUtf8 txts bs).run s = .ok (txt, rest)) : fromUtf8 bs = some txt := by
  unfold stringFromUtf8 at h
  split at h
  · rename_i heq
    cases h
    exact heq
  · cases h

/-- `read_tcp_request` accepts no empty address. -/
theorem readTcpRequest_address_ne {req : TcpRequest}
    (h : (readTcpRequest txts).run s = .ok (req, rest)) : req.address ≠ [] := by
  obtain ⟨frameType, s₁, -, h⟩ := StreamReader.run_bind_ok h
  split at h
  · cases h
  obtain ⟨val, s₂, -, h⟩ := StreamReader.run_bind_ok h
  obtain ⟨len, s₃, hl, h⟩ := StreamReader.run_bind_ok h
  obtain ⟨bs, s₄, hbs, h⟩ := StreamReader.run_bind_ok h
  obtain ⟨_, s₅, -, h⟩ := StreamReader.run_bind_ok h
  obtain ⟨_, s₆, -, h⟩ := StreamReader.run_bind_ok h
  obtain ⟨_, s₇, -, h⟩ := StreamReader.run_bind_ok h
  obtain ⟨addr, s₈, ha, h⟩ := StreamReader.run_bind_ok h
  cases h
  rintro (rfl : addr = [])
  obtain rfl := eq_nil_of_fromUtf8 (fromUtf8_of_stringFromUtf8 ha)
  have hp := run_checkedLength hl
  rw [← length_of_readExact hbs] at hp
  exact absurd hp (Nat.lt_irrefl 0)

/-- The proxy takes the connection, and the TLS session if there is one. -/
def Connects (outbound : HttpConnectOutbound) (peer : ProxyPeer) : Prop :=
  peer.dial = some (.ok ()) ∧ (outbound.tls = true → peer.serverName = .ok () ∧ peer.handshake = some (.ok ()))

theorem timeout_eq_ok {op : String} {res : Option (Except Str Unit)} :
    timeout op res = .ok () ↔ res = some (.ok ()) := by
  rcases res with _ | (err | -) <;> simp [timeout]

/-- The whole request is written to a proxy that takes the connection, and nothing to another one. -/
theorem connect_written (ob : HttpConnectOutbound) (peer : ProxyPeer) (addr : Str) :
    (Connects ob peer → (ob.connect peer addr).2 = utf8 (ob.request addr)) ∧
      (¬Connects ob peer → (ob.connect peer addr).2 = []) := by
  unfold HttpConnectOutbound.connect
  rcases hd : timeout "HTTP proxy dial" peer.dial with err | ⟨⟩
  · refine ⟨fun hc => ?_, fun _ => rfl⟩
    rw [timeout_eq_ok.mpr hc.1] at hd
    cases hd
  have hdial := timeout_eq_ok.mp hd
  cases htls : ob.tls with
  | false =>
    refine ⟨fun _ => rfl, fun hc => absurd ⟨hdial, fun ht => ?_⟩ hc⟩
    rw [htls] at ht
    cases ht
  | true =>
    rcases hs : peer.serverName with err | ⟨⟩
    · refine ⟨fun hc => ?_, fun _ => rfl⟩
      rw [(hc.2 htls).1] at hs
      cases hs
    rcases hh : timeout "HTTP proxy TLS handshake" peer.handshake with err | ⟨⟩
    · refine ⟨fun hc => ?_, fun _ => rfl⟩
      rw [timeout_eq_ok.mpr (hc.2 htls).2] at hh
      cases hh
    · exact ⟨fun _ => rfl, fun hc => absurd ⟨hdial, fun _ => ⟨hs, timeout_eq_ok.mp hh⟩⟩ hc⟩

/-- What the HTTP proxy gets for a request of a client: nothing, or one CONNECT
request for the address, exactly when it does not take the connection or the address
has no line end, no space and no tab at an end. The destination of the speed test,
for which nothing is written, is such an address. -/
theorem connect_request_iff (texts : StreamTexts) (url : ProxyUrl) (outbound : HttpConnectOutbound) (speedTest : Bool)
    (peer : ProxyPeer) (stream : List UInt8) (address : Str) (written : List UInt8)
    (hnew : HttpConnectOutbound.new url = .ok outbound)
    (hserve : outbound.serve texts speedTest peer stream = some (address, written)) :
    written = [] ∨ OneConnect outbound address written ↔ ¬Connects outbound peer ∨ Targetable address := by
  unfold HttpConnectOutbound.serve at hserve
  split at hserve
  · cases hserve
  rename_i req rest hr
  cases hserve
  have hi := oneConnect_request_iff (encodedCredentials_new hnew) (readTcpRequest_address_ne hr)
  unfold HttpConnectOutbound.tcp
  split
  · rename_i hst
    have ht : Targetable speedTestDestination := by decide +kernel
    exact iff_of_true (.inl rfl) (.inr (hst.2 ▸ ht))
  obtain ⟨hw, hnw⟩ := connect_written outbound peer req.address
  by_cases hc : Connects outbound peer
  · have hne : utf8 (outbound.request req.address) ≠ [] := by
      rw [ne_eq, utf8_eq_nil, request_eq_endLines]
      simp [endLines]
    rw [hw hc, hi, or_iff_right hne, or_iff_right (not_not_intro hc)]
  · exact iff_of_true (.inl (hnw hc)) (.inl hc)

def exampleUrl : ProxyUrl := ⟨"http", some "proxy.test", some 3128, "alice", some "secret"⟩

def exampleOutbound : HttpConnectOutbound where
  proxyAddress := formatAuthority "proxy.test" 3128
  serverName := "proxy.test"
  tls := false
  authorization := some (base64Encode (utf8 "alice:secret"))

/-- A proxy that takes the connection and says nothing. -/
def examplePeerProxy : ProxyPeer := ⟨some (.ok ()), .ok (), some (.ok ()), .ok (), [], none⟩

def exampleTexts : StreamTexts := ⟨[], fun _ => [], fun _ => []⟩

/-- The frame of a TCP request for a short ASCII address, without padding. -/
def exampleFrame (address : Str) : List UInt8 := [0x44, 0x01, UInt8.ofNat address.length] ++ utf8 address ++ [0]

theorem exampleOutbound_new : HttpConnectOutbound.new exampleUrl = .ok exampleOutbound := rfl

/-- The example proxy is sent the request for whatever address the frame is read as. -/
theorem exampleOutbound_serve {addr : Str}
    (hr : (readTcpRequest exampleTexts).run (exampleFrame addr) = .ok (⟨addr⟩, rest)) :
    exampleOutbound.serve exampleTexts false examplePeerProxy (exampleFrame addr) =
      some (addr, utf8 (exampleOutbound.request addr)) := by
  rw [HttpConnectOutbound.serve, hr]
  rfl

/-- `a.test:80`. -/
theorem connect_request_iff_plain :
    OneConnect exampleOutbound "a.test:80".toList (utf8 (exampleOutbound.request "a.test:80".toList)) := by
  have hr : (readTcpRequest exampleTexts).run (exampleFrame "a.test:80") =
      .ok (⟨"a.test:80"⟩, []) := by decide +kernel
  have hi := connect_request_iff exampleTexts exampleUrl exampleOutbound false examplePeerProxy _ _ _
    exampleOutbound_new (exampleOutbound_serve hr)
  exact (hi.2 (.inr (by decide +kernel))).resolve_left (by decide +kernel)

/-- An address that ends the request line and brings a header field with it. -/
def injectedAddress : Str := "a.test:80 HTTP/1.1\r\nX-Injected: 1\r\nX-Rest: x"

/-- The proxy reads a CONNECT request for `a.test:80`, which nobody asked for, with a field that the
client has written. -/
theorem connect_request_injected :
    exampleOutbound.serve exampleTexts false examplePeerProxy (exampleFrame injectedAddress) =
      some (injectedAddress, utf8 (exampleOutbound.request injectedAddress)) ∧
    ¬OneConnect exampleOutbound injectedAddress (utf8 (exampleOutbound.request injectedAddress)) ∧
    ((parseHead (exampleOutbound.request injectedAddress)).map fun (head, _) => (head.target, head.fields.take 1)) =
      some ("a.test:80".toList, [⟨"X-Injected".toList, "1".toList⟩]) := by
  have hr : (readTcpRequest exampleTexts).run (exampleFrame injectedAddress) = .ok (⟨injectedAddress⟩, []) := by
    decide +kernel
  refine ⟨exampleOutbound_serve hr, ?_, by decide +kernel⟩
  rw [oneConnect_request_iff (encodedCredentials_new exampleOutbound_new) (by decide)]
  decide +kernel

end Hysteria.Proof
