import Hysteria.Framework.Fallible
import Hysteria.Impl.Client.HttpProxy
import Hysteria.Spec.Proxy

/-!
# Reading a request from an application

`readHead_ok`: the loop that looks for the end of the head loses nothing.
`readRequest_chunk_independent`: what it returns does not depend on the chunks.
`readRequest_ok`: a request that is read is the one that was sent, in whatever
chunks it has come, and its body and what comes after it are still there. It is read
if its head comes in, and is text (`readRequest_isOk`).
-/

namespace Hysteria.Proof

open Framework Impl Spec List

variable {s line buf : List UInt8} {n : Nat} {cs rest : List (List UInt8)}

/-! ## The end of the head -/

theorem length_of_headerEnd (h : headerEnd s = some n) : n + 4 ≤ s.length := by
  fun_induction headerEnd s generalizing n with
  | case1 => cases h
  | case2 b s hb =>
    cases h
    exact ( isPrefixOf_iff_prefix.mp hb).length_le
  | case3 b s hb ih =>
    obtain ⟨m, hm, rfl⟩ := Option.map_eq_some_iff.mp h
    have := ih hm
    rw [length_cons]
    omega

theorem headerEnd_append (h : headerEnd s = some n) (rest : List UInt8) : headerEnd (s ++ rest) = some n := by
  fun_induction headerEnd s generalizing n with
  | case1 => cases h
  | case2 b s hb =>
    rw [ isPrefixOf_iff_prefix] at hb
    rw [cons_append, headerEnd, if_pos ( isPrefixOf_iff_prefix.mpr ?_), h]
    exact hb.trans (prefix_append _ rest)
  | case3 b s hb ih =>
    obtain ⟨m, hm, rfl⟩ := Option.map_eq_some_iff.mp h
    -- The end is not across the two parts: the first is long enough.
    have hl : 4 ≤ (b :: s).length := by
      have := length_of_headerEnd hm
      rw [length_cons]
      omega
    rw [cons_append, headerEnd, if_neg ?_, ih hm]
    · rfl
    rw [ isPrefixOf_iff_prefix] at hb ⊢
    intro hmr
    exact hb (prefix_of_prefix_length_le hmr (prefix_append _ rest) hl)

/-- What is long enough to have the end has it. -/
theorem headerEnd_of_append {rest : List UInt8} (h : headerEnd (s ++ rest) = some n)
    (hle : n + 4 ≤ s.length) : headerEnd s = some n := by
  induction s generalizing n with
  | nil => cases hle
  | cons b s ih =>
    rw [cons_append, headerEnd] at h
    rw [headerEnd]
    split at h
    · rename_i hb
      cases h
      rw [ isPrefixOf_iff_prefix] at hb
      rw [if_pos ( isPrefixOf_iff_prefix.mpr ?_)]
      exact prefix_of_prefix_length_le hb (prefix_append (b :: s) rest) hle
    · rename_i hb
      obtain ⟨m, hm, rfl⟩ := Option.map_eq_some_iff.mp h
      grind

/-- The first end is the one that `headerEnd` finds. -/
theorem headerEnd_first {head : List UInt8} (h : ¬ [13, 10, 13, 10] <:+: head ++ [13, 10, 13]) (body : List UInt8) :
    headerEnd (head ++ 13 :: 10 :: 13 :: 10 :: body) = some head.length := by
  induction head with
  | nil => rfl
  | cons b head ih =>
    have hb : ¬ [13, 10, 13, 10].isPrefixOf (b :: (head ++ 13 :: 10 :: 13 :: 10 :: body)) = true := by
      rw [ isPrefixOf_iff_prefix]
      intro hb
      have hwh : b :: head ++ [13, 10, 13] <+: b :: (head ++ 13 :: 10 :: 13 :: 10 :: body) := ⟨10 :: body, by simp⟩
      exact h (prefix_of_prefix_length_le hb hwh (by simp)).isInfix
    have hr : ¬ [13, 10, 13, 10] <:+: head ++ [13, 10, 13] := fun hr => h (hr.trans ⟨[b], [], by simp⟩)
    rw [cons_append, headerEnd, if_neg hb, ih hr]
    rfl

theorem headerEnd_skip (h : 13 ∉ line) (s : List UInt8) :
    headerEnd (line ++ s) = (headerEnd s).map (· + line.length) := by
  induction line with
  | nil => simp
  | cons b line ih =>
    simp only [mem_cons, not_or] at h
    have hb : ¬ [13, 10, 13, 10].isPrefixOf (b :: (line ++ s)) = true := by
      simp [isPrefixOf, h.1]
    rw [cons_append, headerEnd, if_neg hb, ih h.2, Option.map_map]
    rfl

theorem headerEnd_next (hne : line ≠ []) (h : 13 ∉ line) (s : List UInt8) :
    headerEnd (13 :: 10 :: (line ++ s)) = (headerEnd (line ++ s)).map (· + 2) := by
  rcases line with _ | ⟨b, line⟩
  · exact absurd rfl hne
  simp only [mem_cons, not_or] at h
  have hf : ¬ [13, 10, 13, 10].isPrefixOf (13 :: 10 :: (b :: line ++ s)) = true := by
    simp [isPrefixOf, h.1]
  simp_all [isPrefixOf, headerEnd, Option.map_map]

theorem headerEnd_lines {lines : List (List UInt8)} (hne : lines ≠ []) (h : ∀ line ∈ lines, line ≠ [] ∧ 13 ∉ line)
    (rest : List UInt8) :
    headerEnd ([13, 10].intercalate lines ++ 13 :: 10 :: 13 :: 10 :: rest) =
      some ([13, 10].intercalate lines).length := by
  induction lines with
  | nil => exact absurd rfl hne
  | cons line lines ih =>
    rw [forall_mem_cons] at h
    obtain ⟨⟨-, hcr⟩, hl⟩ := h
    rcases lines with _ | ⟨next, lines⟩
    · simp [headerEnd_skip hcr, headerEnd, isPrefixOf]
    obtain ⟨hnx, hn⟩ := hl next mem_cons_self
    obtain ⟨tail, ht⟩ : ∃ tail, [13, 10].intercalate (next :: lines) = next ++ tail := by
      rcases lines with _ | ⟨_, _⟩
      · exact ⟨[], by simp⟩
      simp
    have he := ih (cons_ne_nil _ _) hl
    rw [intercalate_cons_cons]
    rw [ht] at he ⊢
    simp only [append_assoc, cons_append, nil_append] at he ⊢
    rw [headerEnd_skip hcr, headerEnd_next hnx hn, he]
    simp
    omega

/-! ## Reading -/

/-- The loop loses nothing, and stops at the end of the head. -/
theorem readHead_ok {all : List UInt8} {stop : Nat} (h : readHead cs buf = .ok (all, stop, rest)) :
    all ++ rest.flatten = buf ++ cs.flatten ∧ ∃ n, headerEnd all = some n ∧ stop = n + 4 := by
  induction cs generalizing buf with
  | nil =>
    rw [readHead] at h
    split at h
    · split at h <;> cases h
    grind
  | cons chunk cs ih =>
    rw [readHead] at h
    split at h
    · split at h
      · cases h
      split at h
      · cases h
      · simpa using ih h
    grind

/-- A head that is not too long is found, in whatever chunks it comes. -/
theorem readHead_of_headerEnd (hcs : ∀ chunk ∈ cs, chunk ≠ []) (he : headerEnd (buf ++ cs.flatten) = some n)
    (hs : n + 4 ≤ maxHeaderSize) : ∃ all rest, readHead cs buf = .ok (all, n + 4, rest) ∧ headerEnd all = some n := by
  induction cs generalizing buf with
  | nil =>
    simp_all [flatten_nil, append_nil, readHead]
  | cons chunk cs ih =>
    rw [readHead]
    cases hb : headerEnd buf with
    | some m =>
      grind [headerEnd_append]
    | none =>
      -- A buffer of the largest size would have the end.
      have hsh : ¬ buf.length ≥ maxHeaderSize := by
        grind [headerEnd_of_append]
      rw [forall_mem_cons] at hcs
      rw [if_neg hsh, if_neg hcs.1]
      grind

/-- When it finds the end: in some of the chunks, before one is empty and before the buffer
is full without it. -/
theorem readHead_isOk_iff : (∃ res, readHead cs buf = .ok res) ↔ ∃ got rest, cs = got ++ rest ∧
      (∀ chunk ∈ got, chunk ≠ []) ∧ (headerEnd (buf ++ got.flatten)).isSome = true ∧
      ∀ fewer, fewer <+: got → fewer ≠ got → (buf ++ fewer.flatten).length < maxHeaderSize := by
  induction cs generalizing buf with
  | nil =>
    rw [readHead]
    rcases hb : headerEnd buf with _ | n
    · refine iff_of_false (by rintro ⟨res, hr⟩; dsimp only at hr; split at hr <;> cases hr) ?_
      rintro ⟨got, rest, hcs, -, he, -⟩
      obtain ⟨rfl, -⟩ := append_eq_nil_iff.mp hcs.symm
      simp [hb] at he
    · exact iff_of_true ⟨_, rfl⟩ ⟨[], [], rfl, nofun, by simp [hb], fun _ hp hne => absurd (prefix_nil.mp hp) hne⟩
  | cons chunk cs ih =>
    rw [readHead]
    rcases hb : headerEnd buf with _ | n
    · dsimp only
      -- The first chunk is one of those that are read.
      have hfirst : ∀ {got rest : List (List UInt8)}, chunk :: cs = got ++ rest →
          (headerEnd (buf ++ got.flatten)).isSome = true → ∃ got', got = chunk :: got' ∧ cs = got' ++ rest := by
        rintro (_ | ⟨c, got⟩) rest hcs he
        · simp [hb] at he
        · obtain ⟨rfl, htail⟩ := cons.inj hcs
          exact ⟨got, rfl, htail⟩
      split
      · rename_i hfull
        refine iff_of_false nofun ?_
        rintro ⟨got, rest, hcs, -, he, hlt⟩
        obtain ⟨got, rfl, -⟩ := hfirst hcs he
        have hl := hlt [] nil_prefix (by simp)
        rw [flatten_nil, append_nil] at hl
        exact absurd hl (Nat.not_lt.mpr hfull)
      rename_i hfull
      split
      · rename_i hempty
        refine iff_of_false nofun ?_
        rintro ⟨got, rest, hcs, hne, he, -⟩
        obtain ⟨got, rfl, -⟩ := hfirst hcs he
        exact hne chunk mem_cons_self hempty
      rename_i hempty
      rw [ih]
      constructor
      · rintro ⟨got, rest, rfl, hne, he, hlt⟩
        refine ⟨chunk :: got, rest, rfl, forall_mem_cons.mpr ⟨hempty, hne⟩, by simpa using he, ?_⟩
        rintro (_ | ⟨c, fewer⟩) hp hn
        · simpa using hfull
        · obtain ⟨rfl, htail⟩ := cons_prefix_cons.mp hp
          simpa using hlt fewer htail (by simpa using hn)
      · rintro ⟨got, rest, hcs, hne, he, hlt⟩
        obtain ⟨got, rfl, rfl⟩ := hfirst hcs he
        refine ⟨got, rest, rfl, (forall_mem_cons.mp hne).2, by simpa using he, fun fewer hp hn => ?_⟩
        simpa using hlt (chunk :: fewer) ((prefix_cons_inj chunk).mpr hp) (by simpa using hn)
    · exact iff_of_true ⟨_, rfl⟩ ⟨[], _, rfl, nofun, by simp [hb], fun _ hp hne => absurd (prefix_nil.mp hp) hne⟩

/-! ## Whatever the chunks -/

/-- What `read_request` has read in the head. -/
def headOf (request : ProxyRequest) : Str × Str × Str × List (Str × Str) :=
  (request.method, request.target, request.version, request.headers)

theorem parseRequest_body (hdr : Str) (body : List UInt8) :
    parseRequest hdr body = (parseRequest hdr []).map ({ · with bufferedBody := body }) := by
  unfold parseRequest
  split
  · rfl
  rename_i requestLine lines hl
  split
  · rfl
  · rfl
  · rfl
  rename_i method tgt ver more hfs
  split
  · rfl
  · cases lines.mapM parseHeader <;> rfl

/-- The outcome depends on the head alone, and nothing after it is lost, in whatever
chunks the stream comes. -/
theorem readRequest_chunk_independent (invalid : List UInt8 → Str) (head : List UInt8)
    (hfirst : ¬ [13, 10, 13, 10] <:+: head ++ [13, 10, 13]) (hsize : head.length + 4 ≤ maxHeaderSize) :
    ∃ outcome : Except Str (Str × Str × Str × List (Str × Str)), ∀ body chunks,
      (∀ chunk ∈ chunks, chunk ≠ []) → chunks.flatten = head ++ 13 :: 10 :: 13 :: 10 :: body →
      (readRequest (invalid head) chunks).map (fun read => headOf read.1) = outcome ∧
      ∀ request rest, readRequest (invalid head) chunks = .ok (request, rest) →
        request.bufferedBody ++ rest.flatten = body := by
  refine ⟨(fromUtf8 head).elim (.error ("invalid HTTP request header: " ++ invalid head)) fun hdr =>
    (parseRequest hdr []).map headOf, fun body chunks hcs hs => ?_⟩
  have he := headerEnd_first hfirst body
  rw [← hs, ← nil_append chunks.flatten] at he
  obtain ⟨all, rest, hr, hal⟩ := readHead_of_headerEnd hcs he hsize
  obtain ⟨hwh, -⟩ := readHead_ok hr
  rw [nil_append, hs] at hwh
  have hl := length_of_headerEnd hal
  have ht : all.take head.length = head := by
    grind [take_left]
  have hd : all.drop (head.length + 4) ++ rest.flatten = body := by
    have ha : (head ++ 13 :: 10 :: 13 :: 10 :: body).drop (head.length + 4) = body := by
      rw [← drop_drop, drop_left]
      rfl
    grind
  have hrq : readRequest (invalid head) chunks =
      (fromUtf8 head).elim (.error ("invalid HTTP request header: " ++ invalid head)) fun hdr =>
        (parseRequest hdr (all.drop (head.length + 4))).map (·, rest) := by
    unfold readRequest
    rw [hr]
    simp only [bind, Except.bind, Nat.add_sub_cancel, ht]
    cases fromUtf8 head <;> rfl
  rw [hrq]
  rcases fromUtf8 head with _ | hdr
  · exact ⟨rfl, by rintro request rest ⟨⟩⟩
  rw [Option.elim_some, Option.elim_some, parseRequest_body]
  rcases parseRequest hdr [] with err | request
  · exact ⟨rfl, by rintro request rest ⟨⟩⟩
  refine ⟨rfl, ?_⟩
  rintro _ _ ⟨⟩
  exact hd

/-- A request line by itself. -/
theorem readRequest_chunk_independent_get : ∃ outcome : Except Str (Str × Str × Str × List (Str × Str)),
    outcome = .ok ("GET".toList, "http://a.test/".toList, "HTTP/1.1".toList, []) ∧
    ∀ body chunks, (∀ chunk ∈ chunks, chunk ≠ []) →
      chunks.flatten = utf8 "GET http://a.test/ HTTP/1.1".toList ++ 13 :: 10 :: 13 :: 10 :: body →
      (readRequest [] chunks).map (fun read => headOf read.1) = outcome ∧
      ∀ request rest, readRequest [] chunks = .ok (request, rest) → request.bufferedBody ++ rest.flatten = body := by
  obtain ⟨outcome, h⟩ := readRequest_chunk_independent (fun _ => []) (utf8 "GET http://a.test/ HTTP/1.1")
    (fun hi => absurd (hi.sublist.count_le 10) (by decide)) (by decide)
  -- What the outcome is shows in one chunk.
  have hone := (h [] [utf8 "GET http://a.test/ HTTP/1.1\r\n\r\n".toList] (by simp) (by decide)).1
  exact ⟨outcome, hone.symm.trans rfl, h⟩

/-! ## The lines of a request -/

theorem not_mem_of_word {s : Str} (h : Word s) {c : Char} (hc : isWhitespace c = true) : c ∉ s := by
  intro hm
  rw [h c hm] at hc
  cases hc

theorem word_append {a b : Str} : Word (a ++ b) ↔ Word a ∧ Word b := forall_mem_append

variable (r : PlainRequest) (hdr : RawHeader)

theorem word_authority : Word r.authority := by
  unfold PlainRequest.authority
  rw [word_append, word_append]
  refine ⟨⟨?_, r.host_valid.word⟩, ?_⟩
  · rcases hi : r.userinfo with _ | info
    · exact nofun
    · exact word_append.mpr ⟨(r.userinfo_part info hi).1, by decide⟩
  rcases hp : r.port with _ | ds
  · exact nofun
  refine forall_mem_cons.mpr ⟨by decide, ?_⟩
  rcases r.port_valid ds hp with rfl | ⟨hd, -⟩
  · exact nofun
  · exact fun c hc => not_isWhitespace_digit (hd c hc)

theorem word_target : Word r.target := by
  unfold PlainRequest.target
  rw [word_append, word_append, word_append]
  exact ⟨⟨⟨r.scheme_word.2.1, by decide⟩, word_authority r⟩, r.origin_word.1⟩

theorem not_cr_requestLine : '\r' ∉ r.requestLine r.target := by
  have hm := not_mem_of_word r.method_word.2 (c := '\r') rfl
  have ht := not_mem_of_word (word_target r) (c := '\r') rfl
  have hv := not_mem_of_word r.version_word.1 (c := '\r') rfl
  simp [PlainRequest.requestLine, hm, ht, hv]

theorem not_cr_line : 13 ∉ hdr.line := by
  have hn : '\r' ∉ hdr.name := fun hm => absurd (hdr.name_visible _ hm).1 (by decide)
  have hbs : 13 ∉ utf8 hdr.name := not_mem_utf8 (by decide) hn
  simp [RawHeader.line, hbs, hdr.value_clean.1]

/-- The lines of the head. -/
def headLines : List (List UInt8) := utf8 (r.requestLine r.target) :: r.headers.map (·.line)

theorem head_eq : r.head = [13, 10].intercalate (headLines r) ++ [13, 10, 13, 10] := by
  have hl : headLines r ≠ [] := cons_ne_nil _ _
  have h := intercalate_append [13, 10] hl
  rw [show ([13, 10, 13, 10] : List UInt8) = [13, 10] ++ [13, 10] from rfl, ← append_assoc, h, headLines]
  simp [PlainRequest.head, flatMap_map]

theorem headLines_clean : ∀ line ∈ headLines r, line ≠ [] ∧ 13 ∉ line := by
  intro line hm
  rcases mem_cons.mp hm with rfl | hm
  · refine ⟨?_, not_mem_utf8 (by decide) (not_cr_requestLine r)⟩
    rw [ne_eq, utf8_eq_nil]
    simp [PlainRequest.requestLine]
  · obtain ⟨hdr, -, rfl⟩ := mem_map.mp hm
    exact ⟨by simp [RawHeader.line], not_cr_line hdr⟩

/-! ## The request that is read -/

/-- The header fields as they are read. -/
def fields : List (Str × Str) := r.headers.map fun header => (header.name, header.text.getD [])

theorem fromUtf8_line : fromUtf8 hdr.line = (fromUtf8 hdr.value).map (hdr.name ++ ':' :: ·) := by
  have hc : fromUtf8 (58 :: hdr.value) = (fromUtf8 hdr.value).map (':' :: ·) := fromUtf8_utf8_append [':'] hdr.value
  rw [RawHeader.line, fromUtf8_utf8_append, hc, Option.map_map]
  rfl

theorem parseHeader_line (val : Str) : parseHeader (hdr.name ++ ':' :: val) = .ok (hdr.name, trim val) := by
  have hcl : ':' ∉ hdr.name := fun hm => (hdr.name_visible _ hm).2.2 rfl
  have ha : ∀ c ∈ hdr.name, c.toNat < 128 := fun c hc => by
    have := hdr.name_visible c hc
    omega
  have hv : ¬(hdr.name = [] ∨ (utf8 hdr.name).any (fun byte => byte ≤ 0x20 ∨ byte ≥ 0x7f) = true) := by
    rintro (hn | han)
    · exact hdr.name_ne hn
    rw [utf8_ascii ha, any_map, any_eq_true] at han
    obtain ⟨c, hc, hb⟩ := han
    have := hdr.name_visible c hc
    simp only [Function.comp_apply, decide_eq_true_eq, UInt8.le_iff_toNat_le, ge_iff_le, UInt8.toNat_ofNat',
      UInt8.reduceToNat] at hb
    omega
  rw [parseHeader, splitOnce_append hcl]
  simp only [if_neg hv]

theorem splitFields_requestLine (tgt : Str) (hne : tgt ≠ []) (hw : Word tgt) :
    splitFields isWhitespace (r.requestLine tgt) = [r.method, tgt, r.version] := by
  have hv : r.version ≠ [] := by
    grind [r.version_word]
  have hs : isWhitespace ' ' = true := rfl
  rw [splitFields, PlainRequest.requestLine, append_assoc, cons_append, splitOnP_append_cons _ _ hs,
    splitOnP_append_cons _ _ hs, splitOnP_eq_singleton r.method_word.2, splitOnP_eq_singleton hw,
    splitOnP_eq_singleton r.version_word.1]
  simp [r.method_word.1, hne, hv]

/-- The text of the head is read as it was meant. -/
theorem parseRequest_head {txt : Str} (h : fromUtf8 ([13, 10].intercalate (headLines r)) = some txt)
    (body : List UInt8) :
    (∀ hdr ∈ r.headers, hdr.text.isSome = true) ∧
      parseRequest txt body = .ok ⟨r.method, r.target, r.version, fields r, body⟩ := by
  obtain ⟨hs, rfl⟩ := fromUtf8_intercalate h
  have hvl : ∀ hdr ∈ r.headers, ∃ val, fromUtf8 hdr.value = some val := by
    intro hdr hm
    have hl := hs hdr.line (mem_cons_of_mem _ (mem_map_of_mem hm))
    rw [fromUtf8_line, Option.isSome_map] at hl
    exact Option.isSome_iff_exists.mp hl
  refine ⟨fun hdr hm => ?_, ?_⟩
  · obtain ⟨val, hv⟩ := hvl hdr hm
    simp [RawHeader.text, hv]
  have hcr : ∀ line ∈ (headLines r).map fun line => (fromUtf8 line).getD [], '\r' ∉ line := by
    intro line hm hcr
    obtain ⟨bs, hbs, rfl⟩ := mem_map.mp hm
    obtain ⟨txt, ht⟩ := Option.isSome_iff_exists.mp (hs bs hbs)
    rw [ht, Option.getD_some] at hcr
    have hm : 13 ∈ utf8 txt := mem_utf8 (by decide) hcr
    grind [utf8_of_fromUtf8, headLines_clean]
  have hne : r.target ≠ [] := by simp [PlainRequest.target]
  have hh : ((r.headers.map (·.line)).map fun line => (fromUtf8 line).getD []).mapM parseHeader =
      .ok (fields r) := by
    rw [map_map, mapM_map]
    refine mapM_ok fun hdr hm => ?_
    obtain ⟨val, hv⟩ := hvl hdr hm
    rw [Function.comp_apply, Function.comp_apply, fromUtf8_line, hv]
    simp [parseHeader_line, RawHeader.text, hv]
  rw [parseRequest, splitCrlf_intercalate (by simp [headLines]) hcr]
  simp only [headLines, map_cons, fromUtf8_utf8, Option.getD_some,
    splitFields_requestLine r r.target hne (word_target r)]
  have hvr : ¬(([] : List Str) ≠ [] ∨ ¬ "HTTP/".toList.isPrefixOf r.version = true) := by
    rw [ isPrefixOf_iff_prefix]
    exact fun h => h.elim (absurd rfl) (absurd r.version_word.2)
  rw [hh, if_neg hvr]
  rfl

theorem headerEnd_raw (more : List UInt8) :
    headerEnd (r.raw ++ more) = some ([13, 10].intercalate (headLines r)).length := by
  have hl : headLines r ≠ [] := cons_ne_nil _ _
  have h := headerEnd_lines hl (headLines_clean r) (r.body ++ more)
  rw [PlainRequest.raw, head_eq]
  simpa using h

/-- The head that the loop finds is that of the request, and nothing after it is lost. -/
theorem readHead_raw {buf more : List UInt8} {stop : Nat} (hs : cs.flatten = r.raw ++ more)
    (h : readHead cs [] = .ok (buf, stop, rest)) : buf.take (stop - 4) = [13, 10].intercalate (headLines r) ∧
      buf.drop stop ++ rest.flatten = r.body ++ more := by
  obtain ⟨ha, n, hn, rfl⟩ := readHead_ok h
  rw [nil_append, hs] at ha
  have hl := length_of_headerEnd hn
  have he := headerEnd_append hn rest.flatten
  rw [ha, headerEnd_raw] at he
  obtain rfl := Option.some.inj he
  constructor
  · have ht := congrArg (take ([13, 10].intercalate (headLines r)).length) ha
    grind [PlainRequest.raw, head_eq]
  · have hd := congrArg (drop (([13, 10].intercalate (headLines r)).length + 4)) ha
    rw [drop_append_of_le_length hl, PlainRequest.raw, head_eq] at hd
    simpa [← drop_drop] using hd

/-- A request that is read is the one that was sent, and its body and what comes
after it are still to be read. -/
theorem readRequest_ok {invalid : Str} {req : ProxyRequest} {more : List UInt8}
    (hs : cs.flatten = r.raw ++ more) (h : readRequest invalid cs = .ok (req, rest)) :
    (∀ hdr ∈ r.headers, hdr.text.isSome = true) ∧
      ∃ body, req = ⟨r.method, r.target, r.version, fields r, body⟩ ∧ body ++ rest.flatten = r.body ++ more := by
  obtain ⟨⟨buf, stop, rest'⟩, hr, h⟩ := bind_eq_ok h
  obtain ⟨htx, hb⟩ := readHead_raw r hs hr
  simp only [htx] at h
  split at h
  · cases h
  rename_i txt hdc
  obtain ⟨hfs, hp⟩ := parseRequest_head r hdc (buf.drop stop)
  rw [hp] at h
  cases h
  exact ⟨hfs, _, rfl, hb⟩

/-- The head of the request comes in, before a chunk is empty and before the buffer is
full without it. -/
def HeadComes (r : PlainRequest) (chunks : List (List UInt8)) : Prop :=
  ∃ got rest, chunks = got ++ rest ∧ (∀ chunk ∈ got, chunk ≠ []) ∧ r.head <+: got.flatten ∧
    ∀ fewer, fewer <+: got → fewer ≠ got → fewer.flatten.length < maxHeaderSize

theorem headComes_iff {more : List UInt8} (hs : cs.flatten = r.raw ++ more) :
    HeadComes r cs ↔ ∃ res, readHead cs [] = .ok res := by
  have hlen : r.head.length = ([13, 10].intercalate (headLines r)).length + 4 := by simp [head_eq]
  have he : ∀ {got rest : List (List UInt8)}, cs = got ++ rest →
      (r.head <+: got.flatten ↔ (headerEnd got.flatten).isSome = true) := by
    intro got rest hcs
    rw [hcs, flatten_append] at hs
    have hend := headerEnd_raw r more
    rw [← hs] at hend
    constructor
    · intro hp
      rw [headerEnd_of_append hend (hlen ▸ hp.length_le)]
      rfl
    · intro hsome
      obtain ⟨n, hn⟩ := Option.isSome_iff_exists.mp hsome
      obtain rfl := Option.some.inj ((headerEnd_append hn rest.flatten).symm.trans hend)
      have hraw : r.head <+: got.flatten ++ rest.flatten := by
        rw [hs, PlainRequest.raw, append_assoc]
        exact prefix_append _ _
      exact prefix_of_prefix_length_le hraw (prefix_append _ _) (hlen ▸ length_of_headerEnd hn)
  rw [readHead_isOk_iff, HeadComes]
  simp only [nil_append]
  refine exists_congr fun got => exists_congr fun rest => ?_
  constructor
  · rintro ⟨hcs, hne, hp, hlt⟩
    exact ⟨hcs, hne, (he hcs).mp hp, hlt⟩
  · rintro ⟨hcs, hne, hp, hlt⟩
    exact ⟨hcs, hne, (he hcs).mpr hp, hlt⟩

/-- A request is read if its head comes in and its header fields are text. -/
theorem readRequest_isOk {invalid : Str} {more : List UInt8} (hs : cs.flatten = r.raw ++ more)
    (hc : HeadComes r cs) (hfs : ∀ hdr ∈ r.headers, hdr.text.isSome = true) :
    ∃ res, readRequest invalid cs = .ok res := by
  obtain ⟨⟨buf, stop, rest'⟩, hr⟩ := (headComes_iff r hs).mp hc
  obtain ⟨htx, -⟩ := readHead_raw r hs hr
  have hl : ∀ line ∈ headLines r, (fromUtf8 line).isSome = true := by
    refine forall_mem_cons.mpr ⟨by simp, fun line hm => ?_⟩
    obtain ⟨hdr, hh, rfl⟩ := mem_map.mp hm
    have ht := hfs hdr hh
    rw [RawHeader.text, Option.isSome_map] at ht
    rwa [fromUtf8_line, Option.isSome_map]
  obtain ⟨txt, hdc⟩ := Option.isSome_iff_exists.mp (isSome_fromUtf8_intercalate hl)
  have hp := (parseRequest_head r hdc (buf.drop stop)).2
  refine ⟨(⟨r.method, r.target, r.version, fields r, buf.drop stop⟩, rest'), ?_⟩
  rw [readRequest, hr]
  simp only [bind, Except.bind, htx, hdc, hp]
  rfl

end Hysteria.Proof
