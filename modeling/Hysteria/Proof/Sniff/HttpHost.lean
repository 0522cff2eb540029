import Hysteria.Impl.Sniff.Tcp
import Hysteria.Proof.Client.HttpRequest
import Hysteria.Spec.SniffedHost

/-!
# The host of an HTTP request

`read_http_host` captures byte by byte until an empty line, so of a stream that
begins with a header block it takes the block (`httpHeaderLoop_first`,
`end_bytes_first`). In the lines of the block the first `Host` header is found
(`findSome_hostLine_lines`): a request line is none, whatever its target has in
it (`hostLine_request`).
-/

namespace Hysteria.Proof

open Framework Impl Spec List

variable {ending : ReadEnd} {cs : List (List UInt8)}
variable {more : List UInt8} {name val addr front : Str} {port : UInt16}

/-! ## Reading -/

/-- Bytes that come are captured, however they are cut, and no more. -/
theorem readUpTo_append {bs : List UInt8} (h : cs.flatten = bs ++ more) (cap : List UInt8) :
    ∃ rest, readUpTo ending (cap.length + bs.length) cs cap = .ok (true, cap ++ bs, rest) ∧
      rest.flatten = more := by
  induction cs generalizing bs cap with
  | nil =>
    simp_all [readUpTo]
  | cons chunk cs ih =>
    by_cases he : bs = []
    · grind [readUpTo]
    have hms : ¬ cap.length + bs.length ≤ cap.length := by
      have := length_pos_of_ne_nil he
      omega
    rw [readUpTo, if_neg hms]
    simp only [Nat.add_sub_cancel_left]
    split
    · rename_i hwh
      obtain ⟨tail, rfl, hr⟩ | ⟨tail, rfl, hr⟩ := append_eq_append_iff.mp h
      · obtain ⟨rest, hrd, hm⟩ := ih hr (cap ++ chunk)
        grind
      obtain rfl : tail = [] := by
        rw [length_append] at hwh
        exact eq_nil_of_length_eq_zero (by omega)
      have hn : cs.flatten = [] ++ more := hr.symm
      obtain ⟨rest, hrd, hm⟩ := ih hn (cap ++ bs)
      exact ⟨rest, by simpa using hrd, hm⟩
    · rename_i hp
      obtain ⟨tail, rfl, -⟩ | ⟨tail, rfl, hr⟩ := append_eq_append_iff.mp h
      · simp at hp
      · exact ⟨tail :: cs, by simp, hr.symm⟩

theorem httpHeaderLoop_first {front back : List UInt8} {room : Nat} (hr : back.length ≤ room)
    (he : [13, 10, 13, 10] <:+ front ++ back)
    (hf : ∀ a b, front ++ back = a ++ b → [13, 10, 13, 10] <:+ a → b = []) (h : cs.flatten = back ++ more) :
    ∃ rest, httpHeaderLoop ending room cs front = .ok (front ++ back, rest) ∧ rest.flatten = more := by
  induction back generalizing front room cs with
  | nil =>
    rw [append_nil] at he ⊢
    refine ⟨cs, ?_, h⟩
    rcases room with _ | room
    · rfl
    grind [httpHeaderLoop]
  | cons b back ih =>
    obtain ⟨room, rfl⟩ : ∃ n, room = n + 1 := ⟨room - 1, by rw [length_cons] at hr; omega⟩
    have hm : ¬ [13, 10, 13, 10].isSuffixOf front = true := by
      grind
    have hn : front ++ b :: back = front ++ [b] ++ back := by simp
    have ho : cs.flatten = [b] ++ (back ++ more) := h
    obtain ⟨cs', hrd, hfl⟩ := readUpTo_append ho front
    rw [hn] at he hf ⊢
    obtain ⟨rest, hl, hrs⟩ := ih (Nat.le_of_succ_le_succ hr) he hf hfl
    refine ⟨rest, ?_, hrs⟩
    rw [httpHeaderLoop, if_neg hm]
    rw [length_singleton] at hrd
    rw [hrd]
    exact hl

/-! ## The end of the block -/

theorem headerEnd_of_suffix {s : List UInt8} (h : [13, 10, 13, 10] <:+ s) : ∃ n, headerEnd s = some n := by
  obtain ⟨front, rfl⟩ := h
  induction front with
  | nil => exact ⟨0, rfl⟩
  | cons b front ih =>
    obtain ⟨n, hn⟩ := ih
    rw [cons_append, headerEnd, hn]
    split
    · exact ⟨0, rfl⟩
    · exact ⟨n + 1, rfl⟩

theorem utf8_endLines (lines : List Str) : utf8 (endLines lines) = (lines.map utf8).flatMap (· ++ [13, 10]) := by
  induction lines with
  | nil => rfl
  | cons line lines ih =>
    have hc : endLines (line :: lines) = line ++ ['\r', '\n'] ++ endLines lines := rfl
    rw [hc, utf8_append, utf8_append, ih]
    rfl

variable (block : HttpBlock)

namespace HttpBlock

/-- The lines before the empty one. -/
def headLines : List Str := (block.method ++ ' ' :: block.target) :: block.headers.map headerLine

theorem lines_eq : block.lines = headLines block ++ [[]] := rfl

theorem headLines_clean {line : Str} (h : line ∈ headLines block) : line ≠ [] ∧ Clean line := by
  rcases mem_cons.mp h with rfl | h
  · refine ⟨by simp, ?_⟩
    simp [block.method_clean, block.target_clean]
  obtain ⟨hdr, hm, rfl⟩ := mem_map.mp h
  obtain ⟨hn, hv⟩ := block.headers_clean hdr hm
  simp_all [headerLine]

theorem bytes_eq : block.bytes = [13, 10].intercalate ((headLines block).map utf8) ++ [13, 10, 13, 10] := by
  have hne : (headLines block).map utf8 ≠ [] := by simp [headLines]
  have hs : block.bytes = ((headLines block).map utf8).flatMap (· ++ [13, 10]) ++ [13, 10] := by
    rw [Spec.HttpBlock.bytes, Spec.HttpBlock.text, utf8_endLines, lines_eq, map_append, flatMap_append]
    rfl
  rw [hs, ← intercalate_append _ hne, append_assoc]
  rfl

theorem headerEnd_bytes : headerEnd block.bytes = some (block.bytes.length - 4) := by
  have hl : ∀ line ∈ (headLines block).map utf8, line ≠ [] ∧ 13 ∉ line := by
    intro line hln
    obtain ⟨txt, ht, rfl⟩ := mem_map.mp hln
    obtain ⟨hne, hc⟩ := headLines_clean block ht
    exact ⟨mt utf8_eq_nil.mp hne, not_mem_utf8 (by decide) hc.1⟩
  rw [bytes_eq, headerEnd_lines (by simp [headLines]) hl []]
  simp

theorem end_bytes_first {a b : List UInt8} (h : block.bytes = a ++ b) (he : [13, 10, 13, 10] <:+ a) : b = [] := by
  obtain ⟨n, hn⟩ := headerEnd_of_suffix he
  have hl := length_of_headerEnd hn
  have hwh := headerEnd_append hn b
  rw [← h, headerEnd_bytes] at hwh
  have heq := Option.some.inj hwh
  have hs := congrArg length h
  rw [length_append] at hs
  exact eq_nil_of_length_eq_zero (by omega)

/-! ## The `Host` header -/

theorem lines_text : Framework.lines block.text = block.lines := by
  refine lines_endLines ?_
  intro line hl
  rw [lines_eq] at hl
  rcases mem_append.mp hl with hl | hl
  · exact (headLines_clean block hl).2.2
  grind

end HttpBlock

theorem stripHostPort_brackets (rest : Str) :
    stripHostPort ('[' :: rest) = ((splitOnce ']' rest).map Prod.fst).getD ('[' :: rest) := by
  rw [stripHostPort, if_pos head?_cons, show stripStart ['['] ('[' :: rest) = some rest from stripStart_append _ _,
    Option.bind_some]

/-- After a last colon, a port is cut off and nothing else. -/
theorem stripHostPort_colon {port : Str} (hb : (name ++ ':' :: port).head? ≠ some '[') (hc : ':' ∉ port) :
    stripHostPort (name ++ ':' :: port) = if (parseU16 port).isSome then name else name ++ ':' :: port := by
  rw [stripHostPort, if_neg hb, rsplitOnce_append hc]
  grind

theorem stripHostPort_of_not_mem (hb : val.head? ≠ some '[') (hc : ':' ∉ val) :
    stripHostPort val = val := by
  rw [stripHostPort, if_neg hb, rsplitOnce_of_not_mem hc]
  rfl

theorem stripHostPort_eq_iff {host : Str} : stripHostPort val = host ↔ WithoutPort val host := by
  constructor
  · rintro rfl
    by_cases hb : val.head? = some '['
    · obtain ⟨rest, rfl⟩ := head?_eq_some_iff.mp hb
      rw [stripHostPort_brackets]
      rcases not_mem_or_append ']' rest with hr | ⟨host, port, hh, rfl⟩
      · rw [splitOnce_of_not_mem hr]
        exact .unclosed hr
      · rw [splitOnce_append hh]
        exact .brackets hh port
    · rcases not_mem_or_append_last ':' val with hc | ⟨name, port, hc, rfl⟩
      · rw [stripHostPort_of_not_mem hb hc]
        refine .whole hb ?_
        grind
      rw [stripHostPort_colon hb hc]
      split
      · rename_i hp
        refine .port ?_ hp
        grind
      refine .whole hb fun name' port' h => ?_
      cases hport' : parseU16 port' with
      | none => rfl
      | some n =>
        -- Both texts are after the last colon.
        grind [rsplitOnce_port, rsplitOnce_append, Option.isSome_of_eq_some]
  · intro h
    cases h with
    | brackets hh port => rw [stripHostPort_brackets, splitOnce_append hh, Option.map_some, Option.getD_some]
    | unclosed hr => rw [stripHostPort_brackets, splitOnce_of_not_mem hr, Option.map_none, Option.getD_none]
    | @port _ port hb hp =>
      obtain ⟨n, hn⟩ := Option.isSome_iff_exists.mp hp
      have hbeg' : (host ++ ':' :: port).head? ≠ some '[' := by
        rcases host with _ | ⟨c, host⟩
        · simp
        · exact hb
      rw [stripHostPort_colon hbeg' (not_mem_of_parseU16 hn (by decide) (by decide)), if_pos hp]
    | whole hb h =>
      rcases not_mem_or_append_last ':' val with hc | ⟨name, port, hc, rfl⟩
      · exact stripHostPort_of_not_mem hb hc
      · rw [stripHostPort_colon hb hc, if_neg (by simp [h name port rfl])]

theorem hostLine_header (h : ':' ∉ name) (val : Str) : hostLine (name ++ ':' :: val) =
      if toAsciiLowercase name = "host" then some (stripHostPort (trim val)) else none := by
  have hh : toAsciiLowercase "host" = "host" := by decide
  simp only [hostLine, splitOnce_append h, Option.bind_eq_bind, Option.bind_some, eqIgnoreAsciiCase, hh,
    decide_eq_true_eq]

/-- A request line has a space before its first colon. -/
theorem hostLine_request {method : Str} (h : ':' ∉ method) (tgt : Str) : hostLine (method ++ ' ' :: tgt) = none := by
  rcases not_mem_or_append ':' tgt with ht | ⟨a, b, ha, rfl⟩
  · have hl : ':' ∉ method ++ ' ' :: tgt := by simp [h, ht]
    rw [hostLine, splitOnce_of_not_mem hl]
    rfl
  have hn : ':' ∉ method ++ ' ' :: a := by simp [h, ha]
  have hc : method ++ ' ' :: (a ++ ':' :: b) = (method ++ ' ' :: a) ++ ':' :: b := by simp
  rw [hc, hostLine_header hn, if_neg]
  intro hh
  have hs : ' ' ∈ toAsciiLowercase (method ++ ' ' :: a) := mem_map.mpr ⟨' ', by simp, rfl⟩
  rw [hh] at hs
  simp at hs

theorem findSome_hostLine {hdrs : List (Str × Str)} (h : ∀ hdr ∈ hdrs, ':' ∉ hdr.1) :
    (hdrs.map headerLine ++ [[]]).findSome? hostLine =
      ((hdrs.find? fun hdr => toAsciiLowercase hdr.1 = "host").map fun hdr => trim hdr.2).map
        stripHostPort := by
  induction hdrs with
  | nil => rfl
  | cons hdr hdrs ih =>
    rw [forall_mem_cons] at h
    rw [map_cons, cons_append, findSome?_cons, headerLine, hostLine_header h.1, find?_cons]
    by_cases hn : toAsciiLowercase hdr.1 = "host"
    · simp only [hn, decide_true]
      rfl
    simp_all

theorem findSome_hostLine_lines : block.lines.findSome? hostLine = block.hostValue.map stripHostPort := by
  rw [Spec.HttpBlock.lines, blockLines, findSome?_cons, hostLine_request block.method_colon]
  exact findSome_hostLine block.name_colon

/-! ## Sniffing -/

theorem isAsciiLetter_of_isAlpha {c : Char} (h : c.isAlpha = true) :
    c.toNat < 128 ∧ isAsciiLetter (UInt8.ofNat c.toNat) = true := by
  have hr : 65 ≤ c.toNat ∧ c.toNat ≤ 90 ∨ 97 ≤ c.toNat ∧ c.toNat ≤ 122 := by
    delta Char.isAlpha Char.isUpper Char.isLower at h
    simpa [UInt32.le_iff_toNat_le] using h
  refine ⟨by omega, ?_⟩
  simp [isAsciiLetter, UInt8.le_iff_toNat_le]
  omega

theorem utf8_letters {s : Str} (h : ∀ c ∈ s, c.isAlpha = true) :
    (utf8 s).length = s.length ∧ (utf8 s).all isAsciiLetter = true := by
  rw [utf8_ascii fun c hc => (isAsciiLetter_of_isAlpha (h c hc)).1]
  grind [length_map, isAsciiLetter_of_isAlpha]

theorem HttpBlock.bytes_letters :
    ∃ letters rest, block.bytes = letters ++ rest ∧ letters.length = 3 ∧ letters.all isAsciiLetter = true := by
  obtain ⟨hle, hl⟩ := block.method_letters
  obtain ⟨hbs, ha⟩ := utf8_letters hl
  have hln : block.method <+: block.method ++ ' ' :: block.target := prefix_append _ _
  have ht : block.method <+: block.text := (hln.trans (prefix_append _ _)).trans (prefix_append _ _)
  obtain ⟨rest, hr⟩ := ( take_prefix 3 block.method).trans ht
  grind [utf8_append, length_take, Spec.HttpBlock.bytes]

theorem sniffHost_block (h : cs.flatten = block.bytes ++ more) : ∃ rest, rest.flatten = more ∧
      sniffHost ending cs = .ok (block.hostValue.map stripHostPort, block.bytes, rest) := by
  obtain ⟨letters, back, hbs, ht, hl⟩ := HttpBlock.bytes_letters block
  have hfl : cs.flatten = letters ++ (back ++ more) := by rw [h, hbs, append_assoc]
  obtain ⟨cs', hr, hcs'⟩ := readUpTo_append hfl []
  have he : [13, 10, 13, 10] <:+ letters ++ back := by
    grind [HttpBlock.bytes_eq]
  have hrm : back.length ≤ maxHttpHeader - letters.length := by
    have hf := block.fits
    change block.bytes.length ≤ _ at hf
    rw [hbs, length_append] at hf
    rw [maxHttpHeader]
    omega
  obtain ⟨rest, hlp, hrs⟩ := httpHeaderLoop_first hrm he
    (fun a b hab => HttpBlock.end_bytes_first block (hbs.trans hab)) hcs'
  refine ⟨rest, hrs, ?_⟩
  have hh : readHttpHost ending cs' letters =
      .ok (block.hostValue.map stripHostPort, block.bytes, rest) := by
    rw [readHttpHost, hlp, ← hbs]
    change Except.ok ((Framework.lines (fromUtf8Lossy (utf8 block.text))).findSome? hostLine, _, _) = _
    rw [fromUtf8Lossy_utf8, HttpBlock.lines_text, findSome_hostLine_lines]
  have hsl : slice letters 0 3 = some letters := by simp [slice, ← ht]
  rw [length_nil, Nat.zero_add, ht, nil_append] at hr
  rw [sniffHost, hr]
  change (getOrPanic (slice letters 0 3) >>= fun front =>
    if front.all isAsciiLetter then readHttpHost ending cs' letters else _) = _
  rw [hsl, getOrPanic_some]
  exact (if_pos hl).trans hh

/-! ## The address -/

/-- A host as `rewrite_host` writes it. -/
def writtenHost (host : Str) : Str := if (parseIpv6 host).isSome then '[' :: (host ++ [']']) else host

/-- The address for a request with this port, after sniffing. -/
def addressAfter (address : Str) (port : UInt16) : Option Str → Str
  | none => address
  | some host => writtenHost host ++ ':' :: showNat port.toNat

theorem splitAddress_of_check {sniffer : Sniffer} {udp : Bool} (h : sniffer.check udp addr = true) :
    ∃ host port, splitAddress addr = some (host, port) := by
  unfold Sniffer.check at h
  grind

theorem rewriteHost_eq (h : splitAddress addr = some (front, port))
    (host : Str) : rewriteHost addr host = .ok (writtenHost host ++ ':' :: showNat port.toNat) := by
  rw [rewriteHost, h, writtenHost]
  grind

theorem sniffTcp_eq (ha : splitAddress addr = some (front, port)) {host : Option Str} {cap : List UInt8}
    {rest : List (List UInt8)} (h : sniffHost ending cs = .ok (host, cap, rest)) :
    sniffTcp ending cs addr = .ok (addressAfter addr port host, cap, rest) := by
  rw [sniffTcp, h]
  rcases host with _ | host
  · rfl
  change ((rewriteHost addr host).mapError Failure.error >>= fun after => Except.ok (after, cap, rest)) = _
  rw [rewriteHost_eq ha]
  rfl

/-- Of a stream that begins with a header block, the block is captured and put back,
and the host is the one of its first `Host` header: the target is not looked at, nor
what comes after the block. -/
theorem sniffTcp_httpBlock (block : HttpBlock) (more : List UInt8) (ending : ReadEnd) (chunks : List (List UInt8))
    (h : chunks.flatten = block.bytes ++ more) :
    ∃ host rest, sniffHost ending chunks = .ok (host, block.bytes, rest) ∧ rest.flatten = more ∧
      (∀ other, Option.Rel WithoutPort block.hostValue other ↔ other = host) ∧
      ∀ (sniffer : Sniffer) (address : Str), sniffer.check false address = true →
        ∃ port, (splitAddress address).map Prod.snd = some port ∧
          sniffTcp ending chunks address = .ok (addressAfter address port host, block.bytes, rest) := by
  obtain ⟨rest, hr, hs⟩ := sniffHost_block block h
  refine ⟨_, rest, hs, hr, ?_, ?_⟩
  · intro other
    rcases block.hostValue with _ | val
    · constructor
      · rintro ⟨⟩
        rfl
      · rintro rfl
        exact .none
    · constructor
      · rintro ⟨⟩
        rename_i hh
        rw [Option.map_some, stripHostPort_eq_iff.mpr hh]
      · rintro rfl
        exact .some (stripHostPort_eq_iff.mp rfl)
  · intro sniffer address hc
    obtain ⟨front, port, hsp⟩ := splitAddress_of_check hc
    exact ⟨port, by rw [hsp]; rfl, sniffTcp_eq hsp hs⟩

/-- A GET request with one header. -/
def getBlock : HttpBlock where
  method := "GET"
  target := "http://b.test:8080/ HTTP/1.1"
  headers := [("host", " a.test:80")]
  method_letters := by simp
  method_colon := by simp
  method_clean := by simp [Clean]
  target_clean := by simp [Clean]
  name_colon := by simp
  headers_clean := by simp [Clean]
  fits := by decide

/-- The block of a request, in two chunks and with a byte after it. -/
theorem sniffTcp_httpBlock_get : ∃ rest, rest.flatten = [255] ∧
      sniffHost .deadline [getBlock.bytes.take 1, getBlock.bytes.drop 1 ++ [255]] =
        .ok (some "a.test".toList, getBlock.bytes, rest) := by
  have hf : [getBlock.bytes.take 1, getBlock.bytes.drop 1 ++ [255]].flatten = getBlock.bytes ++ [255] := by
    rw [flatten_cons, flatten_cons, flatten_nil, append_nil, ← append_assoc, take_append_drop]
  obtain ⟨host, rest, hs, hr, hh, -⟩ := sniffTcp_httpBlock getBlock [255] .deadline _ hf
  have hv : getBlock.hostValue = some ("a.test" ++ ':' :: "80") := by decide
  have hn : Option.Rel WithoutPort getBlock.hostValue (some "a.test") := by
    rw [hv]
    exact .some (.port (by decide) (by decide))
  rw [← (hh _).mp hn] at hs
  exact ⟨rest, hr, hs⟩

end Hysteria.Proof
