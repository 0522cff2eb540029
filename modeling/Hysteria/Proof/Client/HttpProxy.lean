import Mathlib.Data.Bool.AllAny
import Hysteria.Proof.Client.HttpTarget

/-!
# Requests on one connection to the HTTP proxy

The proxy reads one request of a connection, rewrites it, and copies everything
else into its tunnel as it comes (`handleConnection_tunnels`). The address it
dials is the one that the request names if the target is plain enough
(`Direct`), and no request's otherwise (`tunnel_ne`).

`keep_alive_isolated_iff`: the requests of a connection are kept apart, and the
header fields for the proxy are kept from the origins, exactly if the first one is
not `Forwarded` or there is one request on the connection, with a direct target.
-/

namespace Hysteria.Proof

open Framework Impl Spec List

variable {addr path : Str} {rest : List PlainRequest}

/-- A target without the parts that the proxy takes for a part of the host: user
information, a query right after the authority, a colon with no port. -/
structure Direct (r : PlainRequest) : Prop where
  userinfo : r.userinfo = none
  port : r.port ≠ some []
  query : r.origin.head? ≠ some '?'

/-! ## The characters of an address -/

variable {r : PlainRequest} {c : Char}

theorem portText_cases (r : PlainRequest) : r.port.getD [] = [] ∧ r.portText = "80" ∨
    ∃ ds, r.port = some ds ∧ ds ≠ [] ∧ r.portText = ds := by
  unfold PlainRequest.portText
  rcases r.port with _ | ds
  · exact .inl ⟨rfl, rfl⟩
  grind

theorem portText_digits (r : PlainRequest) :
    r.portText ≠ [] ∧ (∀ c ∈ r.portText, (decimalDigit c).isSome = true) ∧ (parseU16 r.portText).isSome = true := by
  rcases portText_cases r with ⟨-, heq⟩ | ⟨ds, hp, hne, heq⟩
  · rw [heq]
    exact ⟨by decide, all_eq_true.mp (by decide), by decide⟩
  · rw [heq]
    exact ⟨hne, (r.port_valid ds hp).resolve_left hne⟩

theorem not_mem_portText (hc : decimalDigit c = none) : c ∉ r.portText := by
  intro hm
  grind [portText_digits]

theorem not_mem_tunnel (hp : ∀ s, AuthorityPart s → c ∉ s) (hcl : c ≠ ':') (hc : decimalDigit c = none) :
    c ∉ r.tunnel := by
  simp [PlainRequest.tunnel, hp _ r.host_valid.part, hcl, not_mem_portText hc]

theorem slash_not_mem_authority (r : PlainRequest) : '/' ∉ r.authority := by
  have hp : ∀ s, AuthorityPart s → '/' ∉ s := fun s hs hm => (hs _ hm).1 rfl
  unfold PlainRequest.authority
  simp only [mem_append, not_or]
  refine ⟨⟨?_, hp _ r.host_valid.part⟩, ?_⟩
  · rcases hi : r.userinfo with _ | info
    · exact not_mem_nil
    · simp [hp _ (r.userinfo_part info hi).2]
  rcases hpr : r.port with _ | ds
  · exact not_mem_nil
  · simp [not_mem_digits (r.port_valid ds hpr) (by decide : decimalDigit '/' = none)]

/-! ## The authority that the code reads -/

theorem target_eq (r : PlainRequest) : r.target = r.scheme ++ ':' :: '/' :: '/' :: (r.authority ++ r.origin) := by
  simp [PlainRequest.target]

theorem stripStart_target {remainder : Str} (h : stripStart "http://" r.target = some remainder) :
    r.scheme = "http" ∧ remainder = r.authority ++ r.origin := by
  have heq := stripStart_eq_some h
  -- The scheme is what stands before the first colon.
  have hf : splitOnce ':' r.target = some (r.scheme, '/' :: '/' :: (r.authority ++ r.origin)) := by
    rw [target_eq, splitOnce_append r.scheme_word.2.2.1]
  have hh : splitOnce ':' r.target = some ("http".toList, '/' :: '/' :: remainder) := by
    have hc : ':' ∉ "http".toList := by decide
    rw [heq]
    exact splitOnce_append hc
  rw [hf] at hh
  simpa [eq_comm] using hh

theorem stripStart_http (hs : r.scheme = "http") : stripStart "http://" r.target = some (r.authority ++ r.origin) := by
  rw [target_eq, hs]
  rfl

theorem authority_ne (r : PlainRequest) : r.authority ≠ [] := by
  simp [PlainRequest.authority, r.host_valid.ne_nil]

theorem splitPath_direct (h : r.origin.head? ≠ some '?') :
    splitPath (r.authority ++ r.origin) = (r.authority, r.path) := by
  have hs := slash_not_mem_authority r
  rcases ho : r.origin with _ | ⟨c, orig⟩
  · rw [append_nil, splitPath_of_not_mem hs]
    simp [PlainRequest.path, ho]
  have hc : c = '/' ∨ c = '?' := r.origin_word.2 c (by simp [ho])
  grind [splitPath_append, PlainRequest.path]

theorem splitPath_origin (h : r.origin.head? = some '?') :
    ∃ part, (splitPath (r.authority ++ r.origin)).1 = r.authority ++ '?' :: part := by
  rcases ho : r.origin with _ | ⟨c, orig⟩
  · rw [ho] at h
    cases h
  rw [ho] at h
  cases h
  exact splitPath_query (slash_not_mem_authority r) orig

theorem parseAbsoluteHttpTarget_eq (hs : r.scheme = "http") : parseAbsoluteHttpTarget r.target =
      (normalizeAuthority (splitPath (r.authority ++ r.origin)).1 80).map
        (·, (splitPath (r.authority ++ r.origin)).2) := by
  have hne : (splitPath (r.authority ++ r.origin)).1 ≠ [] := by
    by_cases h : r.origin.head? = some '?'
    · obtain ⟨query, hq⟩ := splitPath_origin h
      simp [hq]
    · simp [splitPath_direct h, authority_ne]
  rw [parseAbsoluteHttpTarget, stripStart_http hs]
  simp only [if_neg hne]

theorem scheme_of_parse {res : Str × Str} (h : parseAbsoluteHttpTarget r.target = .ok res) : r.scheme = "http" := by
  unfold parseAbsoluteHttpTarget at h
  split at h
  · cases h
  · rename_i heq
    exact (stripStart_target heq).1

/-! ## The address -/

theorem parseAbsoluteHttpTarget_direct (hsc : r.scheme = "http") (h : Direct r) :
    parseAbsoluteHttpTarget r.target = .ok (r.tunnel, r.path) := by
  have hnr : normalizeAuthority r.authority 80 = .ok r.tunnel := by
    obtain ⟨hne, hd, hpr⟩ := portText_digits r
    rcases portText_cases r with ⟨hn, ht⟩ | ⟨ds, hs, -, ht⟩
    · have hp : r.port = none := by
        rcases hp : r.port with _ | ds
        · rfl
        grind [h.port]
      have ha : r.authority = r.host := by simp [PlainRequest.authority, h.userinfo, hp]
      rw [ha, normalizeAuthority_host r.host_valid, PlainRequest.tunnel, ht]
      rfl
    · have ha : r.authority = r.tunnel := by
        simp [PlainRequest.authority, PlainRequest.tunnel, h.userinfo, hs, ht]
      rw [ha]
      exact normalizeAuthority_port r.host_valid.ne_nil hpr hne hd
  rw [parseAbsoluteHttpTarget_eq hsc, splitPath_direct h.query, hnr]
  rfl

theorem authority_empty_port (hi : r.userinfo = none) (hp : r.port = some []) : r.authority = r.host ++ [':'] := by
  simp [PlainRequest.authority, hi, hp]

/-- A colon with nothing after it stays in the host. -/
theorem tunnel_ne_empty_port {host : Str} (h : normalizeAuthority (host ++ [':']) 80 = .ok addr)
    (other : PlainRequest) : other.tunnel ≠ addr := by
  have ht : rsplitOnce ':' other.tunnel = some (other.host, other.portText) :=
    rsplitOnce_append (not_mem_portText (by decide))
  rintro rfl
  rcases normalizeAuthority_cases h with heq | heq
  · rw [heq, rsplitOnce_append not_mem_nil] at ht
    grind [Option.some.injEq, Prod.mk.injEq, portText_digits]
  have hs : rsplitOnce ':' (host ++ [':'] ++ ':' :: "80".toList) = some (host ++ [':'], "80".toList) :=
    rsplitOnce_append (by decide)
  rw [heq] at ht
  have hh := hs.symm.trans ht
  simp only [Option.some.injEq, Prod.mk.injEq] at hh
  have hc := other.host_valid.colon
  rw [← hh.1] at hc
  simp at hc

/-- The address of a target that is not direct is that of no request. -/
theorem tunnel_ne (h : ¬ Direct r) (hp : parseAbsoluteHttpTarget r.target = .ok (addr, path))
    (other : PlainRequest) : other.tunnel ≠ addr := by
  obtain ⟨auth, ha, hn⟩ : ∃ auth, auth = (splitPath (r.authority ++ r.origin)).1 ∧
      normalizeAuthority auth 80 = .ok addr := by
    rw [parseAbsoluteHttpTarget_eq (scheme_of_parse hp)] at hp
    refine ⟨_, rfl, ?_⟩
    rcases hn : normalizeAuthority (splitPath (r.authority ++ r.origin)).1 80 with err | addr
    · rw [hn] at hp
      cases hp
    rw [hn] at hp
    cases hp
    rfl
  have hk : ∀ c ∈ auth, c ∈ addr := by
    rcases normalizeAuthority_cases hn with rfl | rfl
    · exact fun c hc => hc
    · exact fun c hc => mem_append_left _ hc
  by_cases hq : r.origin.head? = some '?'
  · obtain ⟨query, heq⟩ := splitPath_origin hq
    have hm : '?' ∈ addr := hk _ (by simp [ha, heq])
    rintro rfl
    exact not_mem_tunnel (fun s hs hc => (hs _ hc).2.1 rfl) (by decide) (by decide) hm
  rw [splitPath_direct hq] at ha
  cases hi : r.userinfo with
  | some info =>
    have hm : '@' ∈ addr := hk _ (by simp [ha, PlainRequest.authority, hi])
    rintro rfl
    exact not_mem_tunnel (fun s hs hc => (hs _ hc).2.2.2 rfl) (by decide) (by decide) hm
  | none =>
    have hpr : r.port = some [] := by
      by_contra hpr
      exact h ⟨hi, hpr, hq⟩
    grind [authority_empty_port, tunnel_ne_empty_port]

/-! ## What goes into the tunnel -/

/-- The request that the code reads. -/
def parsed (r : PlainRequest) (body : List UInt8) : ProxyRequest := ⟨r.method, r.target, r.version, fields r, body⟩

/-- Whether the proxy takes a request, and gets through to its host. -/
def serves (config : HttpProxyConfig) (dial : Str → Except Str Unit) (r : PlainRequest) : Bool :=
  r.scheme = "http" ∧ r.headers.all (·.text.isSome) ∧ authorized (parsed r []) config ∧ (dial r.tunnel).isOk

/-- What is sent on for a request, with some target. -/
def rewritten (r : PlainRequest) (path : Str) : List UInt8 := utf8 (r.requestLine path) ++ [13, 10] ++
    (r.headers.filter fun header => ¬ header.forProxy).flatMap (·.trimmed ++ [13, 10]) ++ [13, 10] ++ r.body

theorem isProxyHeader_name (hdr : RawHeader) : isProxyHeader hdr.name = hdr.forProxy := by
  have ha : toAsciiLowercase "proxy-authorization" = "proxy-authorization" := by decide
  have hc : toAsciiLowercase "proxy-connection" = "proxy-connection" := by decide
  simp only [isProxyHeader, eqIgnoreAsciiCase, RawHeader.forProxy, ha, hc, decide_eq_true_eq]

theorem fields_flatMap (hfs : ∀ hdr ∈ r.headers, hdr.text.isSome = true) :
    ((fields r).filter fun (name, _) => ¬ isProxyHeader name).flatMap (fun (name, val) =>
        utf8 name ++ utf8 ": " ++ utf8 val ++ [13, 10]) =
      (r.headers.filter fun hdr => ¬ hdr.forProxy).flatMap (·.trimmed ++ [13, 10]) := by
  rw [fields, filter_map, flatMap_map]
  simp only [Function.comp_def, isProxyHeader_name]
  refine flatMap_congr fun hdr hm => ?_
  obtain ⟨val, hv⟩ := Option.isSome_iff_exists.mp (hfs hdr (mem_of_mem_filter hm))
  simp [RawHeader.trimmed, hv]

theorem plainOutbound_parsed {body rest more : List UInt8} (hfs : ∀ hdr ∈ r.headers, hdr.text.isSome = true)
    (hr : body ++ rest = r.body ++ more) : plainOutbound (parsed r body) path ++ rest = rewritten r path ++ more := by
  have hl : utf8 (r.method ++ ' ' :: path ++ ' ' :: r.version ++ "\r\n") =
      utf8 (r.requestLine path) ++ [13, 10] := utf8_append _ _
  have ho : plainOutbound (parsed r body) path = utf8 (r.requestLine path) ++ [13, 10] ++
      (r.headers.filter fun hdr => ¬ hdr.forProxy).flatMap (·.trimmed ++ [13, 10]) ++ [13, 10] ++ body := by
    rw [← hl, ← fields_flatMap hfs]
    rfl
  rw [ho, rewritten, append_assoc, hr, ← append_assoc]

theorem rewritten_ne (r : PlainRequest) (path : Str) : rewritten r path ≠ [] := by
  simp [rewritten]

/-! ## A connection -/

variable (cfg : HttpProxyConfig) (dial : Str → Except Str Unit) (invalid : Str) {cs : List (List UInt8)}
  {more : List UInt8}

/-- The authority as the code cuts it, with a query that comes right after it. -/
def cutAuthority (r : PlainRequest) : Str := before '/' (r.authority ++ r.origin)

/-- The request comes to the proxy, which takes it and gets through to the address it
makes of the target. -/
structure Forwarded (config : HttpProxyConfig) (dial : Str → Except Str Unit) (chunks : List (List UInt8))
    (r : PlainRequest) : Prop where
  head : HeadComes r chunks
  text : ∀ header ∈ r.headers, header.text.isSome = true
  authorized : authorized (parsed r []) config = true
  scheme : r.scheme = "http"
  dialled : ∃ address, AddressOf (cutAuthority r) address ∧ dial address = .ok ()

theorem splitPath_fst (s : Str) : (splitPath s).1 = before '/' s := by
  rcases not_mem_or_append '/' s with hn | ⟨auth, path, ha, rfl⟩
  · rw [splitPath_of_not_mem hn, before_of_not_mem hn]
  · rw [splitPath_append ha, before_append ha]

theorem parseAbsoluteHttpTarget_cut (hs : r.scheme = "http") :
    (∃ path, parseAbsoluteHttpTarget r.target = .ok (addr, path)) ↔ AddressOf (cutAuthority r) addr := by
  have hne : cutAuthority r ≠ [] := by
    obtain ⟨c, auth, ha⟩ := exists_cons_of_ne_nil (authority_ne r)
    have hc : c ≠ '/' := fun hc => slash_not_mem_authority r (by simp [ha, hc])
    simp [cutAuthority, before, ha, hc]
  have hw : ∀ c ∈ cutAuthority r, isWhitespace c = false := fun c hc =>
    word_append.mpr ⟨word_authority r, r.origin_word.1⟩ c (takeWhile_subset _ hc)
  have hcl : ¬(cutAuthority r).any (fun c => c = '/' ∨ c = '\r' ∨ c = '\n') = true := by
    rw [any_eq_true]
    rintro ⟨c, hc, hb⟩
    rcases of_decide_eq_true hb with rfl | rfl | rfl
    · exact not_mem_before _ _ hc
    · exact absurd (hw _ hc) (by decide)
    · exact absurd (hw _ hc) (by decide)
  rw [← normalizeAuthority_iff hne hcl, parseAbsoluteHttpTarget_eq hs, splitPath_fst, ← cutAuthority]
  cases normalizeAuthority (cutAuthority r) 80 <;> simp [Except.map]

/-- The first request decides: everything after it goes where it goes. -/
theorem handleConnection_tunnels (hs : cs.flatten = r.raw ++ more) :
    ¬Forwarded cfg dial cs r ∧ (handleConnection cfg dial invalid cs).tunnels = [] ∨
      ∃ addr path, parseAbsoluteHttpTarget r.target = .ok (addr, path) ∧ dial addr = .ok () ∧
        Forwarded cfg dial cs r ∧
        (handleConnection cfg dial invalid cs).tunnels = [(addr, rewritten r path ++ more)] := by
  unfold handleConnection
  rcases hr : readRequest invalid cs with err | res
  · refine .inl ⟨fun hf => ?_, rfl⟩
    obtain ⟨res, hr'⟩ := @readRequest_isOk cs r invalid more hs hf.head hf.text
    rw [hr'] at hr
    cases hr
  obtain ⟨req, rest⟩ := res
  obtain ⟨hfs, body, rfl, hrs⟩ := readRequest_ok r hs hr
  have hc : HeadComes r cs := by
    obtain ⟨res, hh, -⟩ := bind_eq_ok hr
    exact (headComes_iff r hs).mpr ⟨res, hh⟩
  have hp : eqIgnoreAsciiCase r.method "CONNECT" = false := by
    have hc : toAsciiLowercase "CONNECT" = "connect" := by decide
    simp only [eqIgnoreAsciiCase, hc, r.method_plain, decide_false]
  dsimp only
  split
  · rename_i ha
    exact .inl ⟨fun hf => ha hf.authorized, rfl⟩
  rename_i ha
  rw [hp, if_neg (by decide)]
  unfold handlePlainHttp
  split
  · rename_i herr
    refine .inl ⟨fun hf => ?_, rfl⟩
    obtain ⟨addr, haddr, -⟩ := hf.dialled
    obtain ⟨path, hpath⟩ := (parseAbsoluteHttpTarget_cut hf.scheme).mpr haddr
    cases hpath.symm.trans herr
  rename_i addr path hpr
  have hscheme := scheme_of_parse hpr
  have haddr := (parseAbsoluteHttpTarget_cut hscheme).mp ⟨path, hpr⟩
  split
  · rename_i hd
    refine .inl ⟨fun hf => ?_, rfl⟩
    obtain ⟨addr', haddr', hd'⟩ := hf.dialled
    obtain ⟨path', hpath'⟩ := (parseAbsoluteHttpTarget_cut hscheme).mpr haddr'
    cases hpr.symm.trans hpath'
    cases hd.symm.trans hd'
  rename_i hd
  refine .inr ⟨addr, path, hpr, hd, ⟨hc, hfs, not_not.mp ha, hscheme, addr, haddr, hd⟩, ?_⟩
  simp only [← plainOutbound_parsed hfs hrs]
  rfl

theorem tunnels_eq_nil (hs : cs.flatten = []) : (handleConnection cfg dial invalid cs).tunnels = [] := by
  have hr : ∃ err, readRequest invalid cs = .error err := by
    unfold readRequest
    rcases hh : readHead cs [] with err | res
    · exact ⟨err, rfl⟩
    obtain ⟨ha, n, hn, -⟩ := readHead_ok hh
    rw [hs, append_nil, append_eq_nil_iff] at ha
    rw [ha.1] at hn
    cases hn
  obtain ⟨err, hr⟩ := hr
  rw [handleConnection, hr]

/-! ## The requests after the first -/

theorem space_not_mem_method (r : PlainRequest) : 32 ∉ utf8 r.method :=
  not_mem_utf8 (by decide) (not_mem_of_word r.method_word.2 rfl)

/-- In origin form, the target starts with a slash. -/
theorem originForm_eq (r : PlainRequest) : ∃ tail, r.originForm = utf8 r.method ++ 32 :: 47 :: tail := by
  obtain ⟨path, hp⟩ : ∃ path, r.path = '/' :: path := by
    unfold PlainRequest.path
    split
    · rename_i hs
      exact ⟨_, eq_cons_of_mem_head? hs⟩
    · exact ⟨_, rfl⟩
  refine ⟨?_, ?_⟩
  rotate_left
  · rw [PlainRequest.originForm, PlainRequest.requestLine, hp]
    simp only [append_assoc, utf8_append, cons_append, utf8_cons]
    rfl

/-- As the application has sent it, it does not. -/
theorem raw_eq (r : PlainRequest) : ∃ b tail, b ≠ 47 ∧ r.raw = utf8 r.method ++ 32 :: b :: tail := by
  obtain ⟨c, scheme, hs⟩ := exists_cons_of_ne_nil r.scheme_word.1
  obtain ⟨b, bs, hbs⟩ := exists_cons_of_ne_nil (utf8EncodeChar_ne_nil c)
  have hb : b ≠ 47 := by
    rintro rfl
    have hm : 47 ∈ utf8 r.scheme := by simp [hs, hbs]
    exact r.scheme_word.2.2.2 (mem_of_mem_utf8 (by decide) hm)
  refine ⟨b, ?_, hb, ?_⟩
  rotate_left
  · rw [PlainRequest.raw, PlainRequest.head, PlainRequest.requestLine, PlainRequest.target, hs]
    simp only [append_assoc, utf8_append, cons_append, utf8_cons, hbs]
    rfl

/-- Requests as they were sent are no requests in origin form. -/
theorem eq_nil_of_flatMap_raw {others : List PlainRequest}
    (h : rest.flatMap (·.raw) = others.flatMap (·.originForm)) : rest = [] := by
  rcases rest with _ | ⟨r, rest⟩
  · rfl
  obtain ⟨b, tail, hb, hr⟩ := raw_eq r
  rcases others with _ | ⟨other, others⟩
  · simp [hr] at h
  obtain ⟨tail', ho⟩ := originForm_eq other
  rw [flatMap_cons, flatMap_cons, hr, ho, append_assoc, append_assoc, cons_append, cons_append] at h
  grind [append_cons_inj, space_not_mem_method, cons.inj]

/-! ## Isolation -/

theorem isolated_nil (serves : PlainRequest → Bool) (reqs : List PlainRequest) : Isolated serves reqs [] :=
  ⟨0, fun _ => rfl⟩

theorem writtenTo_self (addr : Str) (bs : List UInt8) : writtenTo [(addr, bs)] addr = bs := by
  simp [writtenTo]

/-- If something is in the tunnel of the first request, it is the first, and the others are there in origin form. -/
theorem isolated_first {serves : PlainRequest → Bool} (hs : serves r = true)
    (h : Isolated serves (r :: rest) [(r.tunnel, r.originForm ++ rest.flatMap (·.raw))]) : rest = [] := by
  obtain ⟨k, hk⟩ := h
  have hwr := hk r.tunnel
  rw [writtenTo_self] at hwr
  rcases k with _ | k
  · obtain ⟨tail, ht⟩ := originForm_eq r
    simp [ht] at hwr
  · rw [take_succ_cons, filter_cons_of_pos (by simp [hs]), flatMap_cons] at hwr
    exact eq_nil_of_flatMap_raw (append_cancel_left hwr)

/-- What is in a tunnel that no request names is from no request. -/
theorem not_isolated_of_stray {serves : PlainRequest → Bool} {reqs : List PlainRequest} {bs : List UInt8}
    (hs : ∀ r : PlainRequest, r.tunnel ≠ addr) (hne : bs ≠ []) : ¬ Isolated serves reqs [(addr, bs)] := by
  rintro ⟨k, hk⟩
  have hwr := hk addr
  rw [writtenTo_self, filter_eq_nil_iff.mpr (by simp [hs])] at hwr
  exact hne hwr

theorem isolated_one {serves : PlainRequest → Bool} (hs : serves r = true) :
    Isolated serves [r] [(r.tunnel, r.originForm)] := by
  refine ⟨1, fun addr => ?_⟩
  by_cases h : r.tunnel = addr <;> simp [writtenTo, h, hs]

theorem serves_eq_true (h : Forwarded cfg dial cs r) (hd : dial r.tunnel = .ok ()) : serves cfg dial r = true := by
  have hok : (dial r.tunnel).isOk = true := by
    rw [hd]
    rfl
  simp only [serves, h.scheme, all_eq_true.mpr h.text, h.authorized, hok, and_self, decide_true]

/-- What is in the tunnels is isolated exactly if the first request is not forwarded, or if one
direct request was all that has come. -/
theorem keep_alive_isolated_iff (config : HttpProxyConfig) (dial : Str → Except Str Unit) (invalid : Str)
    (requests : List PlainRequest) (chunks : List (List UInt8)) (hsent : chunks.flatten = requests.flatMap (·.raw)) :
    Isolated (serves config dial) requests (handleConnection config dial invalid chunks).tunnels ↔
      (∀ r ∈ requests.head?, ¬Forwarded config dial chunks r) ∨ ∃ r, requests = [r] ∧ Direct r := by
  rcases requests with _ | ⟨r, rest⟩
  · rw [tunnels_eq_nil config dial invalid hsent]
    exact iff_of_true (isolated_nil _ _) (.inl nofun)
  rw [flatMap_cons] at hsent
  rcases handleConnection_tunnels config dial invalid hsent with ⟨hf, hn⟩ | ⟨addr, path, hp, hdl, hf, h⟩
  · rw [hn]
    refine iff_of_true (isolated_nil _ _) (.inl fun first hm => ?_)
    cases hm
    exact hf
  rw [h, or_iff_right fun hn => hn r rfl hf]
  constructor
  · intro hi
    by_cases hd : Direct r
    · cases hp.symm.trans (parseAbsoluteHttpTarget_direct hf.scheme hd)
      obtain rfl := isolated_first (serves_eq_true config dial hf hdl) hi
      exact ⟨r, rfl, hd⟩
    · have hne : rewritten r path ++ rest.flatMap (·.raw) ≠ [] := by simp [rewritten_ne]
      exact absurd hi (not_isolated_of_stray (tunnel_ne hd hp) hne)
  · rintro ⟨_, ho, hd⟩
    cases ho
    cases hp.symm.trans (parseAbsoluteHttpTarget_direct hf.scheme hd)
    rw [flatMap_nil, append_nil]
    exact isolated_one (serves_eq_true config dial hf hdl)

def exampleCredentials : RawHeader where
  name := "Proxy-Authorization"
  value := utf8 " Basic YWxpY2U6c2VjcmV0"
  name_ne := by decide
  name_visible := List.all_iff_forall_prop.mp (by decide)
  value_clean := by decide

/-- A GET with credentials for the proxy. -/
def exampleGet (host : Str) (h : Host host) : PlainRequest where
  method := "GET"
  scheme := "http"
  userinfo := none
  host := host
  port := none
  origin := "/"
  version := "HTTP/1.1"
  headers := [exampleCredentials]
  body := []
  method_word := by decide
  method_plain := by decide
  scheme_word := by decide
  userinfo_part := nofun
  host_valid := h
  port_valid := nofun
  origin_word := ⟨by decide, fun c hc => .inl (Option.mem_some_iff.mp hc).symm⟩
  version_word := by decide

def exampleFirst : PlainRequest := exampleGet "a.test" exampleTarget.host_valid

def exampleSecond : PlainRequest := exampleGet "b.test" ⟨by decide, by decide, by decide, by decide⟩

def exampleProxyConfig : HttpProxyConfig := ⟨"alice", "secret", []⟩

/-- The first request by itself. -/
theorem keep_alive_isolated_iff_one :
    (handleConnection exampleProxyConfig (fun _ => .ok ()) [] [exampleFirst.raw]).tunnels =
        [("a.test:80".toList, exampleFirst.originForm)] ∧
      Isolated (serves exampleProxyConfig fun _ => .ok ()) [exampleFirst]
        (handleConnection exampleProxyConfig (fun _ => .ok ()) [] [exampleFirst.raw]).tunnels := by
  refine ⟨by decide +kernel, ?_⟩
  refine (keep_alive_isolated_iff exampleProxyConfig (fun _ => .ok ()) [] [exampleFirst] _ (by simp)).mpr ?_
  exact .inr ⟨exampleFirst, rfl, rfl, nofun, by decide⟩

/-- The second request, for another host and with the credentials, comes to the host of the first. -/
theorem keep_alive_leaks :
    (handleConnection exampleProxyConfig (fun _ => .ok ()) [] [exampleFirst.raw ++ exampleSecond.raw]).tunnels =
        [("a.test:80".toList, exampleFirst.originForm ++ exampleSecond.raw)] ∧
      ¬ Isolated (serves exampleProxyConfig fun _ => .ok ()) [exampleFirst, exampleSecond]
        (handleConnection exampleProxyConfig (fun _ => .ok ()) [] [exampleFirst.raw ++ exampleSecond.raw]).tunnels := by
  have ht :
      (handleConnection exampleProxyConfig (fun _ => .ok ()) [] [exampleFirst.raw ++ exampleSecond.raw]).tunnels =
        [("a.test:80".toList, exampleFirst.originForm ++ exampleSecond.raw)] := by decide +kernel
  have hs : serves exampleProxyConfig (fun _ => .ok ()) exampleFirst = true := by decide +kernel
  refine ⟨ht, ?_⟩
  intro h
  cases isolated_first hs h

end Hysteria.Proof
