import Hysteria.Proof.Client.HttpRequest

/-!
# Targets in absolute form

`parse_absolute_http_target` cuts a target at its first slash, so it takes a query
that comes right after the authority for a part of it. `parseAbsoluteHttpTarget_iff`:
it is right about all other targets, and about none of these.
-/

namespace Hysteria.Proof

open Framework Impl Spec List

variable {auth host port : Str} {c : Char}

/-! ## The path -/

theorem splitPath_of_not_mem (h : '/' ∉ auth) : splitPath auth = (auth, "/".toList) := by
  rw [splitPath, splitOnce_of_not_mem h]
  rfl

theorem splitPath_append (h : '/' ∉ auth) (path : Str) : splitPath (auth ++ '/' :: path) = (auth, '/' :: path) := by
  rw [splitPath, splitOnce_append h]
  rfl

/-- The code takes a query for a part of the authority. -/
theorem splitPath_query (h : '/' ∉ auth) (query : Str) :
    ∃ part, (splitPath (auth ++ '?' :: query)).1 = auth ++ '?' :: part := by
  rcases not_mem_or_append '/' query with hn | ⟨part, rest, hp, rfl⟩
  · have hm : '/' ∉ auth ++ '?' :: query := by simp [h, hn]
    exact ⟨query, by rw [splitPath_of_not_mem hm]⟩
  have hm : '/' ∉ auth ++ '?' :: part := by simp [h, hp]
  have heq : auth ++ '?' :: (part ++ '/' :: rest) = (auth ++ '?' :: part) ++ '/' :: rest := by simp
  exact ⟨part, by rw [heq, splitPath_append hm]⟩

/-! ## The address -/

theorem not_mem_digits {ds : Str} (h : Port ds) (hc : decimalDigit c = none) : c ∉ ds := by
  rintro hm
  rcases h with rfl | ⟨hd, -⟩
  · cases hm
  grind

theorem normalizeAuthority_cases {auth addr : Str} (h : normalizeAuthority auth 80 = .ok addr) :
    addr = auth ∨ addr = auth ++ ":80" := by
  unfold normalizeAuthority at h
  split at h
  · cases h
    exact .inl rfl
  split at h
  · cases h
    exact .inr rfl
  split at h
  · cases h
    exact .inl rfl
  split at h
  · cases h
    exact .inr rfl
  · cases h

/-- A socket address, or something with a port after it. -/
def EndsInPort (authority : Str) : Prop := (parseSocketAddr authority).isSome = true ∨
    ∃ host port, authority = host ++ ':' :: port ∧ host ≠ [] ∧ (parseU16 port).isSome = true

/-- The address that is dialled for an authority: with the port of `http`, if it has none. -/
def AddressOf (authority address : Str) : Prop :=
  EndsInPort authority ∧ address = authority ∨ ¬EndsInPort authority ∧ address = authority ++ ":80"

theorem rsplitOnce_any_iff : ((rsplitOnce ':' auth).any fun (host, port) => host ≠ [] ∧ (parseU16 port).isSome) = true ↔
      ∃ host port, auth = host ++ ':' :: port ∧ host ≠ [] ∧ (parseU16 port).isSome = true := by
  constructor
  · intro h
    rcases hs : rsplitOnce ':' auth with _ | ⟨host, port⟩
    · rw [hs] at h
      cases h
    · rw [hs] at h
      exact ⟨host, port, (rsplitOnce_eq_some hs).2, by simpa using h⟩
  · rintro ⟨host, port, rfl, hne, hp⟩
    obtain ⟨n, hn⟩ := Option.isSome_iff_exists.mp hp
    rw [rsplitOnce_port host hn]
    simp [hne, hp]

theorem normalizeAuthority_iff (hne : auth ≠ [])
    (hc : ¬ auth.any (fun c => c = '/' ∨ c = '\r' ∨ c = '\n') = true) :
    normalizeAuthority auth 80 = .ok host ↔ AddressOf auth host := by
  have hok : ∀ {a : Str}, (Except.ok a : Except Str Str) = .ok host ↔ host = a := by simp [eq_comm]
  have hlast : auth.getLast? = some ']' → ¬ ∃ host port, auth = host ++ ':' :: port ∧ host ≠ [] ∧
      (parseU16 port).isSome = true := by
    rintro hl ⟨name, port, rfl, -, hp⟩
    obtain ⟨n, hn⟩ := Option.isSome_iff_exists.mp hp
    have hm := mem_of_getLast? (l := ':' :: port) (by rwa [getLast?_append_of_ne_nil _ (cons_ne_nil _ _)] at hl)
    exact not_mem_of_parseU16 hn (by decide) (by decide) ((mem_cons.mp hm).resolve_left (by decide))
  unfold normalizeAuthority AddressOf EndsInPort
  split
  · rename_i hs
    simp [hs, hok]
  rename_i hs
  rw [or_iff_right hs]
  split
  · rename_i hb
    have hn := hlast hb.2
    rw [or_iff_right fun h => hn h.1, and_iff_right hn]
    exact hok
  split
  · rename_i hp
    rw [rsplitOnce_any_iff] at hp
    rw [or_iff_left fun h => h.1 hp, and_iff_right hp]
    exact hok
  · rename_i hp
    rw [rsplitOnce_any_iff] at hp
    rw [if_pos ⟨hne, hc⟩, or_iff_right fun h => hp h.1, and_iff_right hp]
    exact hok

theorem parseSocketAddr_host {host : Str} (h : Host host) : parseSocketAddr host = none := by
  rw [← Option.not_isSome_iff_eq_none, Option.isSome_iff_exists]
  rintro ⟨addr, ha⟩
  obtain ⟨ip, ds, rfl, hne, hd⟩ := parseSocketAddr_port ha
  rcases h.colon with ⟨-, hl⟩ | hc
  · have hm : ']' ∈ ds := by
      grind
    have := hd _ hm
    cases this
  · exact hc (by simp)

theorem normalizeAuthority_host {host : Str} (h : Host host) : normalizeAuthority host 80 = .ok (host ++ ":80") := by
  unfold normalizeAuthority
  rw [parseSocketAddr_host h, if_neg (by simp)]
  split
  · rfl
  rename_i hbr
  have hco := h.colon.resolve_left hbr
  have hcl : ¬ host.any (fun c => c = '/' ∨ c = '\r' ∨ c = '\n') = true := by
    rw [any_eq_true]
    rintro ⟨c, hc, hb⟩
    simp only [decide_eq_true_eq] at hb
    rcases hb with rfl | rfl | rfl
    · exact (h.part _ hc).1 rfl
    · exact not_mem_of_word h.word rfl hc
    · exact not_mem_of_word h.word rfl hc
  rw [rsplitOnce_of_not_mem hco, if_neg (by simp), if_pos ⟨h.ne_nil, hcl⟩]
  rfl

theorem normalizeAuthority_port {host port : Str} (hh : host ≠ []) (hp : (parseU16 port).isSome = true)
    (hne : port ≠ []) (hd : ∀ c ∈ port, (decimalDigit c).isSome = true) :
    normalizeAuthority (host ++ ':' :: port) 80 = .ok (host ++ ':' :: port) := by
  unfold normalizeAuthority
  have hc : ':' ∉ port := fun hm => by cases hd _ hm
  have hb : ¬((host ++ ':' :: port).head? = some '[' ∧ (host ++ ':' :: port).getLast? = some ']') := by
    rintro ⟨-, hl⟩
    rw [getLast?_append_of_ne_nil _ (cons_ne_nil _ _), getLast?_cons_of_ne_nil hne] at hl
    cases hd _ (mem_of_getLast? hl)
  by_cases hs : (parseSocketAddr (host ++ ':' :: port)).isSome = true
  · rw [if_pos hs]
  · rw [if_neg hs, if_neg hb, rsplitOnce_append hc, if_pos (by simp [hh, hp])]

theorem normalizeAuthority_authority (t : AbsoluteTarget) : normalizeAuthority t.authority 80 = .ok t.address := by
  unfold AbsoluteTarget.authority AbsoluteTarget.address
  rcases hp : t.port with _ | ds
  · rw [Option.elim_none, append_nil, normalizeAuthority_host t.host_valid]
    rfl
  obtain ⟨hne, hd⟩ := t.port_valid ds hp
  obtain ⟨ha, hpr⟩ := hd.resolve_left hne
  exact normalizeAuthority_port t.host_valid.ne_nil hpr hne ha

/-! ## The target -/

section Target

variable (t : AbsoluteTarget)

theorem not_mem_targetAuthority (hp : ∀ s, AuthorityPart s → c ∉ s) (hcl : c ≠ ':')
    (hc : decimalDigit c = none) : c ∉ t.authority := by
  unfold AbsoluteTarget.authority
  rw [mem_append, not_or]
  refine ⟨hp _ t.host_valid.part, ?_⟩
  rcases hpr : t.port with _ | ds
  · exact not_mem_nil
  · rw [Option.elim_some, mem_cons, not_or]
    exact ⟨hcl, not_mem_digits (t.port_valid ds hpr).2 hc⟩

theorem slash_not_mem_targetAuthority : '/' ∉ t.authority :=
  not_mem_targetAuthority t (fun _ hs hm => (hs _ hm).1 rfl) (by decide) (by decide)

theorem parseAbsoluteHttpTarget_text {path : Str}
    (hsp : splitPath (t.authority ++ (t.path ++ t.query)) = (auth, path)) (hne : auth ≠ []) :
    parseAbsoluteHttpTarget t.text = (normalizeAuthority auth 80).map (·, path) := by
  have hs : stripStart "http://" t.text = some (t.authority ++ (t.path ++ t.query)) := stripStart_append _ _
  rw [parseAbsoluteHttpTarget, hs]
  simp only [hsp, if_neg hne]

/-- With a path, or with nothing after the authority. -/
theorem splitPath_target (h : t.path ≠ [] ∨ t.query = []) :
    splitPath (t.authority ++ (t.path ++ t.query)) = (t.authority, t.originForm) := by
  have hs := slash_not_mem_targetAuthority t
  unfold AbsoluteTarget.originForm
  rcases hp : t.path with _ | ⟨c, path⟩
  · rw [hp] at h
    rw [h.resolve_left (absurd rfl), append_nil, append_nil, splitPath_of_not_mem hs]
    rfl
  · obtain rfl : c = '/' := t.path_valid c (by simp [hp])
    rw [cons_append, splitPath_append hs, if_neg (cons_ne_nil _ _), cons_append]

/-- The target is split as it was meant, unless a query comes right after the authority. -/
theorem parseAbsoluteHttpTarget_iff :
    parseAbsoluteHttpTarget t.text = .ok (t.address, t.originForm) ↔ t.path ≠ [] ∨ t.query = [] := by
  constructor
  · intro h
    by_contra hq
    rw [not_or, not_not] at hq
    obtain ⟨hpt, hne⟩ := hq
    obtain ⟨query, hq⟩ : ∃ query, t.query = '?' :: query := by
      rcases hq : t.query with _ | ⟨c, query⟩
      · exact absurd hq hne
      · obtain rfl : c = '?' := t.query_valid c (by simp [hq])
        exact ⟨query, rfl⟩
    obtain ⟨part, hp⟩ := splitPath_query (slash_not_mem_targetAuthority t) query
    rw [← nil_append ('?' :: query), ← hpt, ← hq] at hp
    rw [parseAbsoluteHttpTarget_text t (Prod.ext hp rfl) (by simp)] at h
    -- The question mark stays in the address.
    have hm : '?' ∉ t.address := by
      have ha := not_mem_targetAuthority t (c := '?') (fun _ hs hmm => (hs _ hmm).2.1 rfl) (by decide)
        (by decide)
      rcases normalizeAuthority_cases (normalizeAuthority_authority t) with heq | heq
      · rwa [heq]
      grind
    rcases hn : normalizeAuthority (t.authority ++ '?' :: part) 80 with err | addr
    · rw [hn] at h
      cases h
    rw [hn] at h
    obtain ⟨rfl, -⟩ : addr = t.address ∧ _ := Prod.mk.inj (Except.ok.inj h)
    rcases normalizeAuthority_cases hn with heq | heq
    · exact hm (by simp [heq])
    · exact hm (by simp [heq])
  · intro h
    rw [parseAbsoluteHttpTarget_text t (splitPath_target t h)
      (by simp [AbsoluteTarget.authority, t.host_valid.ne_nil]), normalizeAuthority_authority]
    rfl

end Target

/-- `http://a.test?to=/x`. -/
def exampleTarget : AbsoluteTarget where
  host := "a.test"
  port := none
  path := []
  query := "?to=/x"
  host_valid := ⟨by decide, by decide, by decide, by decide⟩
  port_valid := by simp
  path_valid := by simp
  query_valid := by simp

/-- The query becomes a part of the host, and a part of it the path. -/
theorem parseAbsoluteHttpTarget_query : exampleTarget.text = "http://a.test?to=/x".toList ∧
      parseAbsoluteHttpTarget exampleTarget.text = .ok ("a.test?to=:80".toList, "/x".toList) ∧
      (exampleTarget.address, exampleTarget.originForm) = ("a.test:80".toList, "/?to=/x".toList) := by
  decide +kernel

end Hysteria.Proof
