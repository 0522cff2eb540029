import Hysteria.Impl.Masquerade
import Hysteria.Proof.Transport.Bandwidth

/-!
# Redirects to HTTPS

The location is the `Host` field of the request with the port of the HTTPS listener
after it, so it is right when the field has no port of its own: on port 80. A listener
whose host is a name has no port for the redirect, which is right for 443, and by
accident when both listeners have one port (`redirect_location_iff`).
-/

namespace Hysteria.Proof

open Framework Impl List

/-- A port after a host, unless it is the default of the scheme. -/
def portText (default port : UInt16) : Str := if port = default then [] else ':' :: showNat port.toNat

/-- Where the HTTPS listener on `port` serves the path. -/
def httpsLocation (host : Str) (port : UInt16) (path : Str) : Str := "https://" ++ host ++ portText 443 port ++ path

theorem showNat_inj {a b : UInt16} (h : showNat a.toNat = showNat b.toNat) : a = b := by
  grind [parseU16_showNat]

theorem visible_portText (dflt port : UInt16) : ∀ c ∈ portText dflt port, 32 ≤ c.toNat ∧ c.toNat < 127 := by
  unfold portText
  split
  · simp
  · exact forall_mem_cons.mpr ⟨by decide, visible_showNat _⟩

theorem headerValue_append {txt path : Str} (h : ∀ c ∈ txt, 32 ≤ c.toNat ∧ c.toNat < 127)
    (hp : (headerValue path).isSome = true) : headerValue (txt ++ path) = some (utf8 (txt ++ path)) := by
  have ha : (utf8 path).all (fun b => 32 ≤ b && b ≠ 127 || b = 9) = true := by
    grind [headerValue]
  rw [headerValue, if_pos]
  rw [utf8_append, all_append, ha, Bool.and_true, all_eq_true]
  intro b hb
  rw [utf8_ascii fun c hc => Nat.lt_of_lt_of_le (h c hc).2 (by decide)] at hb
  obtain ⟨c, hc, rfl⟩ := mem_map.mp hb
  have hbn := h c hc
  have hby : (UInt8.ofNat c.toNat).toNat = c.toNat := Nat.mod_eq_of_lt (by omega)
  simp only [Bool.or_eq_true, Bool.and_eq_true, decide_eq_true_eq, UInt8.le_iff_toNat_le, ne_eq, ← UInt8.toNat_inj,
    hby]
  grind

/-- What the redirect has after the name of the host. -/
theorem portText_append_iff {httpPort httpsPort parsed : UInt16} (hps : httpsPort ≠ 0)
    (hpr : parsed = httpsPort ∨ parsed = 0) :
    portText 80 httpPort ++ (if parsed = 0 then [] else portText 443 parsed) = portText 443 httpsPort ↔
      httpPort = 80 ∧ (httpsPort = 443 ∨ parsed ≠ 0) ∨
        httpPort ≠ 80 ∧ httpPort = httpsPort ∧ httpsPort ≠ 443 ∧ parsed = 0 := by
  have hp (dflt port : UInt16) : portText dflt port = [] ↔ port = dflt := by
    unfold portText
    split <;> simp [*]
  obtain rfl | rfl := hpr
  · simp_all
  rw [if_pos rfl, append_nil]
  by_cases h80 : httpPort = 80
  · grind
  by_cases h443 : httpsPort = 443
  · simp [h80, h443, portText]
  rw [portText, if_neg h80, portText, if_neg h443]
  simp only [h80, h443, ne_eq, not_false_eq_true, true_and, false_and, false_or, and_true, cons.injEq]
  exact ⟨showNat_inj, fun h => by rw [h]⟩

theorem parseListenPort_cases {listen : Str} {port : UInt16} (h : bindFrontendPort listen = some port) :
    parseListenPort listen = port ∧ (parseSocketAddr (normalizeListen listen)).isSome = true ∨
      parseListenPort listen = 0 ∧ parseSocketAddr (normalizeListen listen) = none := by
  unfold bindFrontendPort at h
  unfold parseListenPort
  rcases hp : parseSocketAddr (normalizeListen listen) with _ | addr
  · exact .inr ⟨rfl, rfl⟩
  grind

/-- The location that the front end answers with. -/
theorem redirectToHttps_location {req : HttpRequest} {host : Str} (parsed : UInt16)
    (hh : req.headers.get "host" = some (utf8 host)) (hv : ∀ c ∈ host, 32 ≤ c.toNat ∧ c.toNat < 127)
    (hp : (headerValue req.uri.pathAndQuery).isSome = true) :
    ∃ resp, redirectToHttps req parsed = some resp ∧ resp.headers.get "location" =
      some (utf8 ("https://" ++ (host ++ if parsed = 0 then [] else portText 443 parsed) ++
        req.uri.pathAndQuery)) := by
  have ha : (if parsed = 0 ∨ parsed = 443 then host else host ++ ':' :: showNat parsed.toNat) =
      host ++ if parsed = 0 then [] else portText 443 parsed := by
    by_cases h0 : parsed = 0
    · simp [h0]
    · by_cases h443 : parsed = 443 <;> simp [h0, h443, portText]
  have hch : ∀ c ∈ "https://" ++ (host ++ if parsed = 0 then [] else portText 443 parsed),
      32 ≤ c.toNat ∧ c.toNat < 127 := by
    intro c hc
    obtain hc | hc := mem_append.mp hc
    · exact (show ∀ c ∈ "https://".toList, 32 ≤ c.toNat ∧ c.toNat < 127 from
        List.all_iff_forall_prop.mp (by decide)) c hc
    grind [visible_portText]
  simp only [redirectToHttps, hh, Option.bind_some, headerText_utf8 hv, Option.getD_some, ha,
    headerValue_append hch hp, Option.map_some]
  exact ⟨_, rfl, rfl⟩

/-- A request has the port of the HTTP listener in its host, unless it is 80. A forced redirect
leads to the HTTPS listener if this port is 80 and the other's text is a socket address or its
port is 443; else only if both listeners are on one port and the text is none. -/
theorem redirect_location_iff {config : MasqueradeConfig} {quicPort httpPort httpsPort : UInt16}
    {next : Str → HttpRequest → HttpResponse} {request : HttpRequest} {host : Str} (hforce : config.forceHttps = true)
    (hhttps : bindFrontendPort config.listenHttps = some httpsPort) (hpos : httpsPort ≠ 0)
    (hhost : request.headers.get "host" = some (utf8 (host ++ portText 80 httpPort)))
    (hvisible : ∀ c ∈ host, 32 ≤ c.toNat ∧ c.toNat < 127)
    (hpath : (headerValue request.uri.pathAndQuery).isSome = true) :
    (∃ response, frontendResponse (config.httpFrontend quicPort) next request = some response ∧
      response.headers.get "location" = some (utf8 (httpsLocation host httpsPort request.uri.pathAndQuery))) ↔
      httpPort = 80 ∧ (httpsPort = 443 ∨ (parseSocketAddr (normalizeListen config.listenHttps)).isSome = true) ∨
        httpPort ≠ 80 ∧ httpPort = httpsPort ∧ httpsPort ≠ 443 ∧
          parseSocketAddr (normalizeListen config.listenHttps) = none := by
  have hc := forall_mem_append.mpr ⟨hvisible, visible_portText 80 httpPort⟩
  obtain ⟨response, hr, hl⟩ := redirectToHttps_location (parseListenPort config.listenHttps) hhost hc hpath
  have hf : frontendResponse (config.httpFrontend quicPort) next request = some response := by
    show (if config.forceHttps then redirectToHttps request (parseListenPort config.listenHttps) else _) = _
    rw [if_pos hforce, hr]
  have hpt := @portText_append_iff httpPort httpsPort (parseListenPort config.listenHttps) hpos
    ((parseListenPort_cases hhttps).imp And.left And.left)
  have hpr : parseListenPort config.listenHttps = 0 ↔
      parseSocketAddr (normalizeListen config.listenHttps) = none := by
    obtain ⟨hp, hsm⟩ | ⟨hp, hn⟩ := parseListenPort_cases hhttps
    · grind
    · simp only [hp, hn]
  have hs : response.headers.get "location" = some (utf8 (httpsLocation host httpsPort request.uri.pathAndQuery)) ↔
      portText 80 httpPort ++ (if parseListenPort config.listenHttps = 0 then []
        else portText 443 (parseListenPort config.listenHttps)) = portText 443 httpsPort := by
    unfold httpsLocation
    rw [hl, Option.some_inj, utf8_inj]
    simp only [append_assoc, append_cancel_left_eq]
    simp only [← append_assoc, append_cancel_right_eq]
  rw [Option.isSome_iff_ne_none, ne_eq, ne_eq, ← hpr, ← hpt, ← hs]
  simp_all

/-- A request for the path `/`. -/
def rootRequest (host : Str) : HttpRequest := ⟨.get, ⟨none, none, "/", none⟩, [("host", utf8 host)], []⟩

theorem redirect_location_default : ∃ response,
    frontendResponse (MasqueradeConfig.httpFrontend ⟨":80", ":8443", true⟩ 443) (fun _ _ => ⟨200, [], [], true⟩)
      (rootRequest "example.com") = some response ∧
    response.headers.get "location" = some (utf8 (httpsLocation "example.com" 8443 "/")) :=
  (@redirect_location_iff _ _ 80 _ _ _ _ (by decide) (by decide) (by decide) (by decide)
    (List.all_iff_forall_prop.mp (by decide)) (by decide)).mpr (.inl (by decide))

/-- On port 8080 the location has the ports of both listeners. -/
theorem redirect_location_twoPorts : bindFrontendPort ":8080" = some 8080 ∧ bindFrontendPort ":8443" = some 8443 ∧
      (frontendResponse (MasqueradeConfig.httpFrontend ⟨":8080", ":8443", true⟩ 443) (fun _ _ => ⟨200, [], [], true⟩)
        (rootRequest ("example.com" ++ portText 80 8080))).bind (·.headers.get "location") =
        some (utf8 "https://example.com:8080:8443/") ∧
      httpsLocation "example.com" 8443 "/" = "https://example.com:8443/".toList := by
  decide

end Hysteria.Proof
