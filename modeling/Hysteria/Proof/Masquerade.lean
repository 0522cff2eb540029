import Hysteria.Spec.HopByHop

/-!
# Hop-by-hop headers in the masquerade proxy

What each step of the proxy does to the values of a header (`valuesOf_removeHopHeaders`,
`valuesOf_setHost`, `valuesOf_setForwarded`, `valuesOf_setContentLength`), and from
these the names that are sent (`sent_iff`). The code reads the first `Connection`
field only, and none in an upgrade: `stripped_iff`.
-/

namespace Hysteria.Proof

open Framework Impl Spec List

/-! ## The steps -/

section Steps

variable (name : Str) (headers : HeaderMap)

theorem valuesOf_removeAll (others : List Str) : valuesOf name (others.foldl HeaderMap.remove headers) =
      if name ∈ others.map toAsciiLowercase then [] else valuesOf name headers := by
  have hk := valuesOf_removeKeys name (others.map toAsciiLowercase) headers
  rw [foldl_map] at hk
  by_cases hm : name ∈ others.map toAsciiLowercase
  · rw [if_pos hm] at hk ⊢
    exact hk
  · rw [if_neg hm] at hk ⊢
    exact hk

theorem valuesOf_insert (other : Str) (val : List UInt8) : valuesOf name (headers.insert other val) =
      if name = toAsciiLowercase other then [val] else valuesOf name headers :=
  valuesOf_setKey _ _ _ _

theorem valuesOf_insertSome (other : Str) (val : Option (List UInt8)) : valuesOf name (headers.insertSome other val) =
      if name = toAsciiLowercase other then (val.map fun val => [val]).getD (valuesOf name headers)
      else valuesOf name headers := by
  rcases val with _ | val
  · simp [HeaderMap.insertSome]
  · exact valuesOf_insert _ _ _ _

theorem get_eq (other : Str) : headers.get other = (valuesOf (toAsciiLowercase other) headers).head? :=
  (head?_valuesOf _ _).symm

theorem valuesOf_removeHopHeaders : valuesOf name (removeHopHeaders headers) =
      if name ∈ hopHeaders ∨ name ∈ (connectionTokens headers).map toAsciiLowercase then []
      else valuesOf name headers := by
  have hl : hopHeaders.map toAsciiLowercase = hopHeaders := by decide
  rw [removeHopHeaders, valuesOf_removeAll, valuesOf_removeAll, hl]
  by_cases hh : name ∈ hopHeaders <;> simp [hh]

theorem valuesOf_removeForwarding : valuesOf name (forwardingHeaders.foldl HeaderMap.remove headers) =
      if name ∈ forwardingHeaders then [] else valuesOf name headers := by
  have hl : forwardingHeaders.map toAsciiLowercase = forwardingHeaders := by decide
  rw [valuesOf_removeAll, hl]

variable (backend : ProxyBackend) (host : Option Str)

theorem valuesOf_setHost : valuesOf name (backend.setHost host headers) = if name = "host" then
        if backend.rewriteHost then []
        else ((host.bind headerValue).map fun val => [val]).getD (valuesOf name headers)
      else valuesOf name headers := by
  have hl : toAsciiLowercase "host" = "host" := by decide
  unfold ProxyBackend.setHost
  by_cases hr : backend.rewriteHost = true
  · rw [if_pos hr, HeaderMap.remove, valuesOf_removeKey, hl, if_pos hr]
  · rw [if_neg hr, valuesOf_insertSome, hl, if_neg hr]

theorem valuesOf_setForwarded (remote : SocketAddr) (scheme : Str) :
    valuesOf name (backend.setForwarded remote host scheme headers) = if backend.xForwarded then
        if name = "x-forwarded-proto" then [utf8 scheme]
        else if name = "x-forwarded-host" then
          ((host.bind headerValue).map fun val => [val]).getD (valuesOf name headers)
        else if name = "x-forwarded-for" then
          ((headerValue remote.ip.display).map fun val => [val]).getD (valuesOf name headers)
        else valuesOf name headers
      else valuesOf name headers := by
  have hp : toAsciiLowercase "x-forwarded-proto" = "x-forwarded-proto" := by decide
  have hh : toAsciiLowercase "x-forwarded-host" = "x-forwarded-host" := by decide
  have hfr : toAsciiLowercase "x-forwarded-for" = "x-forwarded-for" := by decide
  unfold ProxyBackend.setForwarded
  by_cases hf : backend.xForwarded = true
  · rw [if_pos hf, if_pos hf]
    rw [valuesOf_insert, hp, valuesOf_insertSome, hh, valuesOf_insertSome, hfr]
    by_cases hn : name = "x-forwarded-host"
    · simp_all
    · rw [if_neg hn, if_neg hn]
  · rw [if_neg hf, if_neg hf]

theorem valuesOf_setContentLength (bodyLength : Option Nat) :
    valuesOf name (ProxyBackend.setContentLength bodyLength headers) =
      if name = "content-length".toList ∧ valuesOf name headers = [] then
        ((bodyLength.bind fun len => headerValue (showNat len)).map fun val => [val]).getD []
      else valuesOf name headers := by
  have hl : toAsciiLowercase "content-length".toList = "content-length".toList := by decide
  have hnn : headers.get "content-length".toList = none ↔ valuesOf "content-length".toList headers = [] := by
    rw [get_eq, hl, head?_eq_none_iff]
  unfold ProxyBackend.setContentLength
  by_cases hn : name = "content-length".toList
  · subst hn
    by_cases he : valuesOf "content-length".toList headers = []
    · rw [if_pos (hnn.mpr he), valuesOf_insertSome, hl, if_pos rfl, if_pos ⟨rfl, he⟩, he]
    simp_all
  have ho : ¬(name = "content-length".toList ∧ valuesOf name headers = []) := fun h => hn h.1
  rw [if_neg ho]
  by_cases hg : headers.get "content-length".toList = none
  · rw [if_pos hg, valuesOf_insertSome, hl, if_neg hn]
  · rw [if_neg hg]

theorem valuesOf_setForwarded_other {name : Str} (hn : name ∉ forwardingHeaders) (remote : SocketAddr)
    (scheme : Str) : valuesOf name (backend.setForwarded remote host scheme headers) = valuesOf name headers := by
  simp only [forwardingHeaders, mem_cons, not_mem_nil, or_false, not_or] at hn
  simp_all [valuesOf_setForwarded, ite_self]

theorem valuesOf_setContentLength_other {name : Str} (hn : name ≠ "content-length") (bodyLength : Option Nat) :
    valuesOf name (ProxyBackend.setContentLength bodyLength headers) = valuesOf name headers := by
  rw [valuesOf_setContentLength, if_neg fun h => hn h.1]

end Steps

/-! ## What is sent -/

section Sent

variable {backend : ProxyBackend} {request : BackendRequest} {upstream : HeaderMap} {name : Str}

/-- The headers of the request that are left for the proxy to complete. -/
def leftHeaders (headers : HeaderMap) : HeaderMap :=
  if isUpgradeRequest headers then headers else removeHopHeaders headers

theorem proxyRequest_eq (h : backend.proxyRequest request = some upstream) :
    upstream = ProxyBackend.setContentLength request.bodyLength
      (backend.setForwarded request.remote (requestHost request.uri request.headers)
        (request.scheme.getD "https")
        (backend.setHost (requestHost request.uri request.headers)
          (forwardingHeaders.foldl HeaderMap.remove (leftHeaders request.headers)))) := by
  unfold ProxyBackend.proxyRequest at h
  dsimp only at h
  split at h
  next => cases h
  next => exact (Option.some.inj h).symm

theorem valuesOf_other (h : backend.proxyRequest request = some upstream) (hn : name ∉ ownHeaders) :
    valuesOf name upstream = valuesOf name (leftHeaders request.headers) := by
  simp only [ownHeaders, mem_cons, not_or] at hn
  obtain ⟨hh, hl, hf⟩ := hn
  rw [proxyRequest_eq h, valuesOf_setContentLength_other _ hl, valuesOf_setForwarded_other _ _ _ hf,
    valuesOf_setHost, if_neg hh, valuesOf_removeForwarding, if_neg hf]

/-- The forwarding headers come from the proxy only. -/
theorem valuesOf_forwarding (h : backend.proxyRequest request = some upstream) (hn : name ∈ forwardingHeaders) :
    valuesOf name upstream = if backend.xForwarded then
        if name = "x-forwarded-proto" then [utf8 (request.scheme.getD "https")]
        else if name = "x-forwarded-host" then
          (((requestHost request.uri request.headers).bind headerValue).map fun val => [val]).getD []
        else if name = "x-forwarded-for" then
          ((headerValue request.remote.ip.display).map fun val => [val]).getD []
        else []
      else [] := by
  have hl : name ≠ "content-length" := by
    rintro rfl
    revert hn
    decide
  have hh : name ≠ "host" := by
    rintro rfl
    revert hn
    decide
  rw [proxyRequest_eq h, valuesOf_setContentLength_other _ hl, valuesOf_setForwarded, valuesOf_setHost,
    if_neg hh, valuesOf_removeForwarding, if_pos hn]

theorem valuesOf_host (h : backend.proxyRequest request = some upstream) : valuesOf "host".toList upstream =
      if backend.rewriteHost then []
      else (((requestHost request.uri request.headers).bind headerValue).map fun val => [val]).getD
        (valuesOf "host".toList (leftHeaders request.headers)) := by
  have hf : "host".toList ∉ forwardingHeaders := by decide
  rw [proxyRequest_eq h, valuesOf_setContentLength_other _ (by decide), valuesOf_setForwarded_other _ _ _ hf,
    valuesOf_setHost, if_pos rfl, valuesOf_removeForwarding, if_neg hf]

theorem valuesOf_contentLength (h : backend.proxyRequest request = some upstream) :
    valuesOf "content-length".toList upstream =
      if valuesOf "content-length".toList (leftHeaders request.headers) = [] then
        ((request.bodyLength.bind fun len => headerValue (showNat len)).map fun val => [val]).getD []
      else valuesOf "content-length".toList (leftHeaders request.headers) := by
  have hf : "content-length".toList ∉ forwardingHeaders := by decide
  have hh : "content-length".toList ≠ "host".toList := by decide
  rw [proxyRequest_eq h, valuesOf_setContentLength, valuesOf_setForwarded_other _ _ _ hf, valuesOf_setHost,
    if_neg hh, valuesOf_removeForwarding, if_neg hf]
  simp only [true_and]

theorem getD_singleton_ne_nil {α : Type} {val : Option α} {vals : List α} :
    (val.map fun val => [val]).getD vals ≠ [] ↔ val.isSome ∨ vals ≠ [] := by
  cases val <;> simp

theorem ite_getD_singleton_ne_nil {α : Type} {b : Bool} {val : Option α} :
    (if b then (val.map fun val => [val]).getD [] else []) ≠ [] ↔ b = true ∧ val.isSome := by
  cases b <;> cases val <;> simp

theorem setByProxy_forwarding (h : backend.proxyRequest request = some upstream) (hn : name ∈ forwardingHeaders) :
    valuesOf name upstream ≠ [] ↔ SetByProxy backend request name := by
  rw [valuesOf_forwarding h hn]
  simp only [forwardingHeaders, mem_cons, not_mem_nil, or_false] at hn
  unfold SetByProxy
  rcases hn with rfl | rfl | rfl | rfl
  · simp
  · rw [if_neg (show "x-forwarded-for".toList ≠ "x-forwarded-proto".toList by decide),
      if_neg (show "x-forwarded-for".toList ≠ "x-forwarded-host".toList by decide), if_pos rfl,
      ite_getD_singleton_ne_nil]
    simp
  · rw [if_neg (show "x-forwarded-host".toList ≠ "x-forwarded-proto".toList by decide), if_pos rfl,
      ite_getD_singleton_ne_nil]
    simp
  · simp

theorem setByProxy_host : SetByProxy backend request "host" ↔
      backend.rewriteHost = false ∧ ((requestHost request.uri request.headers).bind headerValue).isSome := by
  simp [SetByProxy]

theorem setByProxy_contentLength : SetByProxy backend request "content-length" ↔
      (request.bodyLength.bind fun length => headerValue (showNat length)).isSome := by
  simp [SetByProxy]

theorem setByProxy_own (h : SetByProxy backend request name) : name ∈ ownHeaders := by
  rcases h with ⟨rfl, -⟩ | ⟨rfl, -⟩ | ⟨-, rfl | ⟨rfl, -⟩ | ⟨rfl, -⟩⟩ <;> decide

/-- What is sent is the proxy's own, or left of the request and not cleared. -/
theorem sent_iff (h : backend.proxyRequest request = some upstream) : valuesOf name upstream ≠ [] ↔
      SetByProxy backend request name ∨
        valuesOf name (leftHeaders request.headers) ≠ [] ∧ ¬ClearedByProxy backend name := by
  by_cases hfw : name ∈ forwardingHeaders
  · have hc : ClearedByProxy backend name := .inl hfw
    rw [setByProxy_forwarding h hfw, or_iff_left fun hl => hl.2 hc]
  by_cases hh : name = "host".toList
  · subst hh
    have hc : ClearedByProxy backend "host" ↔ backend.rewriteHost = true :=
      ⟨fun hc => (hc.resolve_left hfw).2, fun hr => .inr ⟨rfl, hr⟩⟩
    rw [valuesOf_host h, setByProxy_host, hc]
    cases backend.rewriteHost with
    | true => simp
    | false => rw [if_neg (by simp), getD_singleton_ne_nil, and_iff_right rfl, and_iff_left (by simp)]
  have hc : ¬ClearedByProxy backend name := fun hc => hc.elim hfw fun hr => hh hr.1
  rw [and_iff_left hc]
  by_cases hl : name = "content-length".toList
  · subst hl
    rw [valuesOf_contentLength h, setByProxy_contentLength]
    by_cases he : valuesOf "content-length".toList (leftHeaders request.headers) = []
    · rw [if_pos he, getD_singleton_ne_nil, or_iff_left (not_not_intro rfl), or_iff_left (not_not_intro he)]
    · rw [if_neg he]
      exact (or_iff_right_of_imp fun _ => he).symm
  have ho : name ∉ ownHeaders := by
    simp only [ownHeaders, mem_cons, not_or]
    exact ⟨hh, hl, hfw⟩
  rw [valuesOf_other h ho, or_iff_right fun hs => ho (setByProxy_own hs)]

/-! ## What a field names -/

theorem isWhitespace_visible : ∀ n < 127, 32 ≤ n ∨ n = 9 → isWhitespace (Char.ofNat n) = isOws (Char.ofNat n) := by
  decide

theorem headerText_eq {val : List UInt8} {txt : Str} (h : headerText val = some txt) :
    txt = fieldChars val ∧ ∀ c ∈ txt, isWhitespace c = isOws c := by
  unfold headerText at h
  split at h
  next hv =>
    obtain rfl := Option.some.inj h
    refine ⟨rfl, fun c hc => ?_⟩
    obtain ⟨b, hb, rfl⟩ := mem_map.mp hc
    have hb := all_eq_true.mp hv b hb
    simp only [Bool.or_eq_true, Bool.and_eq_true, decide_eq_true_eq, UInt8.le_iff_toNat_le,
      UInt8.lt_iff_toNat_lt] at hb
    rcases hb with ⟨hge, hlt⟩ | rfl
    · exact isWhitespace_visible _ hlt (.inl hge)
    · rfl
  next => cases h

theorem headerText_eq_none {val : List UInt8} : headerText val = none ↔ ¬∀ b ∈ val, 32 ≤ b ∧ b < 127 ∨ b = 9 := by
  simp [headerText]

/-- The names the code removes are those of the first `Connection` field. -/
theorem firstNames_iff {headers : HeaderMap} :
    name ∈ (connectionTokens headers).map toAsciiLowercase ↔ FirstNames headers name := by
  have hl : toAsciiLowercase "connection" = "connection".toList := by decide
  rw [connectionTokens, get_eq, hl, FirstNames]
  rcases hv : (valuesOf "connection".toList headers).head? with _ | first
  · simp
  simp only [Option.bind_some, Option.mem_some_iff, exists_eq_left']
  rcases htx : headerText first with _ | txt
  · simp [headerText_eq_none.mp htx]
  have hr : ∀ b ∈ first, 32 ≤ b ∧ b < 127 ∨ b = 9 := by
    by_contra hn
    rw [headerText_eq_none.mpr hn] at htx
    cases htx
  obtain ⟨rfl, ho⟩ := headerText_eq htx
  have htrim : (commaTokens (fieldChars first)).map toAsciiLowercase = fieldNames first := by
    rw [commaTokens, fieldNames, map_map]
    refine map_congr_left fun part hp => ?_
    rw [Function.comp_apply, trim_eq_trimOws fun c hc => ho c (mem_of_mem_splitOn hp hc)]
  rw [Option.map_some, Option.getD_some, htrim, and_iff_right hr]

theorem connectionNames_of_first {headers : HeaderMap} (h : FirstNames headers name) :
    name ∈ connectionNames headers := by
  obtain ⟨first, hf, -, hn⟩ := h
  exact mem_flatMap.mpr ⟨first, mem_of_mem_head? hf, hn⟩

theorem leftHeaders_kept {headers : HeaderMap}
    (h : isUpgradeRequest headers = true ∨ ¬(name ∈ hopHeaders ∨ FirstNames headers name)) :
    valuesOf name (leftHeaders headers) = valuesOf name headers := by
  unfold leftHeaders
  split
  next => rfl
  next hup =>
    rw [valuesOf_removeHopHeaders, if_neg]
    exact fun hr => h.resolve_left hup (hr.imp_right firstNames_iff.mp)

theorem leftHeaders_removed {headers : HeaderMap} (hup : isUpgradeRequest headers = false)
    (h : name ∈ hopHeaders ∨ FirstNames headers name) : valuesOf name (leftHeaders headers) = [] := by
  rw [leftHeaders, if_neg (by simp [hup]), valuesOf_removeHopHeaders,
    if_pos (h.imp_right firstNames_iff.mpr)]

/-- The proxy strips a request as it should exactly if an upgrade has no other hop-by-hop
header, and in any other request the first `Connection` field says it all. -/
theorem stripped_iff (h : backend.proxyRequest request = some upstream) :
    Stripped request.headers upstream ↔ Strippable backend request := by
  have hsent : ∀ name, valuesOf name upstream = [] ↔ ¬SetByProxy backend request name ∧
      (valuesOf name (leftHeaders request.headers) = [] ∨ ClearedByProxy backend name) := fun name => by
    rw [← not_iff_not, ← ne_eq, sent_iff h]
    tauto
  constructor
  · rintro ⟨hst, -⟩
    refine ⟨fun name hh hu => ((hsent name).mp (hst name hh hu)).1, fun hup name hh hc hu => ?_, fun hup name hn => ?_⟩
    · have hs := ((hsent name).mp (hst name hh fun hu' => hu'.2.elim hc hu)).2
      rwa [leftHeaders_kept (.inl hup)] at hs
    · have hnu : ¬UpgradeHeader request.headers name := fun hu => Bool.noConfusion (hup.symm.trans hu.1)
      have hs := ((hsent name).mp (hst name (.inr hn) hnu)).2
      by_cases hf : name ∈ hopHeaders ∨ FirstNames request.headers name
      · exact or_assoc.mp (.inl hf)
      · rw [leftHeaders_kept (.inr hf)] at hs
        exact .inr (.inr hs)
  · intro hs
    refine ⟨fun name hh hu => (hsent name).mpr ⟨hs.unset name hh hu, ?_⟩, fun name hh ho => ?_⟩
    · cases hup : isUpgradeRequest request.headers with
      | true =>
        rw [leftHeaders_kept (.inl hup)]
        exact hs.upgrade hup name hh (fun hc => hu ⟨hup, .inl hc⟩) fun hc => hu ⟨hup, .inr hc⟩
      | false =>
        by_cases hf : name ∈ hopHeaders ∨ FirstNames request.headers name
        · exact .inl (leftHeaders_removed hup hf)
        · rw [leftHeaders_kept (.inr hf)]
          have hn := hs.named hup name (hh.resolve_left fun ht => hf (.inl ht))
          exact (or_assoc.mpr hn).resolve_left hf
    · rw [valuesOf_other h ho, leftHeaders_kept]
      exact .inr fun hr => hh (hr.imp id connectionNames_of_first)

end Sent

section Example

def plainBackend : ProxyBackend := { rewriteHost := true, xForwarded := false }

def requestWith (headers : HeaderMap) : BackendRequest :=
  { remote := { ip := .v4 0x0a000001, port := 5000 }, uri := ⟨none, none, "/", none⟩, headers, http3 := false,
    scheme := none, bodyLength := none }

/-- Two `Connection` fields: the one named in the second is sent on. And in an upgrade
all of them are, here the credentials for the proxy. -/
theorem hop_headers_sent_on : let twoFields : HeaderMap := [("connection".toList, utf8 "close".toList),
      ("connection".toList, utf8 "X-Secret".toList), ("x-secret".toList, utf8 "1".toList)]
    let upgrade : HeaderMap := [("connection".toList, utf8 "Upgrade".toList),
      ("upgrade".toList, utf8 "websocket".toList), ("proxy-authorization".toList, utf8 "Basic eA==".toList)]
    (∃ upstream, plainBackend.proxyRequest (requestWith twoFields) = some upstream ∧
      valuesOf "x-secret".toList upstream = [utf8 "1".toList] ∧ ¬Stripped twoFields upstream) ∧
    ∃ upstream, plainBackend.proxyRequest (requestWith upgrade) = some upstream ∧
      valuesOf "proxy-authorization".toList upstream = [utf8 "Basic eA==".toList] ∧ ¬Stripped upgrade upstream := by
  intro twoFields upgrade
  constructor
  · refine ⟨_, rfl, by decide, fun hs => ?_⟩
    have he := hs.1 "x-secret" (.inr (by decide)) fun hup => absurd hup.1 (by decide)
    revert he
    decide
  refine ⟨_, rfl, by decide, fun hs => ?_⟩
  have he := hs.1 "proxy-authorization" (.inl (by decide))
    fun hup => absurd hup.2 (by decide)
  revert he
  decide

/-- A request with two `Connection` fields, of which the first names all there is. -/
theorem stripped_first_names_all : let headers : HeaderMap := [("accept".toList, utf8 "*/*".toList),
      ("connection".toList, utf8 "close, X-Secret".toList), ("connection".toList, utf8 "TE".toList),
      ("x-secret".toList, utf8 "1".toList)]
    ∃ upstream, plainBackend.proxyRequest (requestWith headers) = some upstream ∧ Stripped headers upstream := by
  intro headers
  have hsn : plainBackend.proxyRequest (requestWith headers) = some _ := rfl
  have hup : isUpgradeRequest headers = false := by decide
  have hset : ∀ name, ¬SetByProxy plainBackend (requestWith headers) name := fun name hs => by
    rcases hs with ⟨-, hr, -⟩ | ⟨-, hb⟩ | ⟨hx, -⟩
    · cases hr
    · cases hb
    · cases hx
  refine ⟨_, hsn, (stripped_iff hsn).mpr ⟨fun name _ _ => hset name, fun hup' => ?_, fun _ name hn => ?_⟩⟩
  · exact Bool.noConfusion (hup.symm.trans hup')
  · have hn : name ∈ ["close".toList, "x-secret".toList, "te".toList] := hn
    simp only [mem_cons, not_mem_nil, or_false] at hn
    rcases hn with rfl | rfl | rfl
    · exact .inr (.inr (.inl (by decide)))
    · exact .inr (.inl (firstNames_iff.mp (by decide)))
    · exact .inl (by decide)

end Example

end Hysteria.Proof
