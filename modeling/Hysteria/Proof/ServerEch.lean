import Hysteria.Impl.ServerEch

/-!
# The grammar of ECH keys

A key is two byte strings after their lengths (`encodeKey`), a config a version and a byte
string after its length (`encodeConfig`). The loops read sequences of them.
-/

namespace Hysteria.Proof

open Framework Impl List

/-! ## The formats -/

/-- A byte string after its length. -/
def encodePrefixed (payload : List UInt8) : List UInt8 := beBytes 2 payload.length ++ payload

def encodeKey (key : ServerEchKey) : List UInt8 := encodePrefixed key.privateKey ++ encodePrefixed key.config

/-- A config of a version and contents. -/
def encodeConfig (config : List UInt8 × List UInt8) : List UInt8 := config.1 ++ encodePrefixed config.2

/-- One config after the other. -/
def ConfigSequence (body : List UInt8) : Prop :=
  ∃ configs : List (List UInt8 × List UInt8),
    (∀ config ∈ configs, config.1.length = 2 ∧ config.2.length ≤ 0xffff) ∧ body = configs.flatMap encodeConfig

/-! ## The readers -/

variable {bs payload : List UInt8}

theorem beBytes_two (h : bs.length = 2) : beBytes 2 (beNat bs) = bs := by
  rw [← h, beBytes_beNat]

theorem beNat_le (h : bs.length = 2) : beNat bs ≤ 0xffff := by
  have hl := @beNat_lt bs
  rw [h] at hl
  omega

/-- What is read after two bytes of length. -/
theorem readU16Prefixed_append (h : bs.length = 2) (rest : List UInt8) :
    readU16Prefixed (bs ++ rest) = match slice rest 0 (beNat bs) with
      | none => .error "invalid ECH keys: length prefix exceeds available data"
      | some payload => .ok (payload, rest.drop (beNat bs)) := by
  have hs := slice_append bs rest 0 (beNat bs)
  rw [Nat.add_zero] at hs
  rw [readU16Prefixed, slice_zero_eq_some_iff.mpr ⟨rest, rfl, h⟩]
  dsimp only
  rw [← h, hs]
  cases slice rest 0 (beNat bs) <;> simp [drop_append, drop_eq_nil_of_le]

theorem reads_prefixed :
    ReadsFormat (fun text payload => payload.length ≤ 0xffff ∧ text = encodePrefixed payload) readU16Prefixed := by
  intro input payload rest
  constructor
  · intro h
    rcases hb : slice input 0 2 with _ | bytes
    · rw [readU16Prefixed, hb] at h
      cases h
    obtain ⟨after, rfl, hl⟩ := slice_zero_eq_some_iff.mp hb
    rw [readU16Prefixed_append hl] at h
    split at h <;> cases h
    next hp =>
    obtain ⟨rest, rfl, hn⟩ := slice_zero_eq_some_iff.mp hp
    refine ⟨_, ⟨hn ▸ beNat_le hl, rfl⟩, ?_⟩
    rw [encodePrefixed, hn, beBytes_two hl, ← hn, drop_left, append_assoc]
  · rintro ⟨-, ⟨hle, rfl⟩, rfl⟩
    have hn : beNat (beBytes 2 payload.length) = payload.length := beNat_beBytes (by omega)
    rw [encodePrefixed, append_assoc, readU16Prefixed_append (length_beBytes _ _), hn,
      slice_zero_eq_some_iff.mpr ⟨rest, rfl, rfl⟩, drop_left]

theorem passConfig_append {version : List UInt8} (hv : version.length = 2) (h : bs.length = 2) (rest : List UInt8) :
    passConfig (version ++ (bs ++ rest)) = if beNat bs > rest.length then .error "malformed tls.ech config length"
      else .ok ((version, rest.take (beNat bs)), rest.drop (beNat bs)) := by
  obtain ⟨a, b, rfl⟩ := length_eq_two.mp hv
  obtain ⟨c, d, rfl⟩ := length_eq_two.mp h
  have hd : ([a, b] ++ ([c, d] ++ rest)).drop (4 + beNat [c, d]) = rest.drop (beNat [c, d]) := by
    rw [← drop_drop]
    rfl
  have hlt : 4 + beNat [c, d] > ([a, b] ++ ([c, d] ++ rest)).length ↔ beNat [c, d] > rest.length := by
    grind
  rw [passConfig, if_neg (by simp), ← hd]
  exact if_congr hlt rfl rfl

theorem reads_config : ReadsFormat (fun text config =>
    (config.1.length = 2 ∧ config.2.length ≤ 0xffff) ∧ text = encodeConfig config) passConfig := by
  intro input config rest
  constructor
  · intro h
    by_cases hs : input.length < 4
    · rw [passConfig, if_pos hs] at h
      cases h
    have h2 : (input.take 2).length = 2 := by rw [length_take]; omega
    have hn : ((input.drop 2).take 2).length = 2 := by rw [length_take, length_drop]; omega
    rw [← take_append_drop 2 input, ← take_append_drop 2 (input.drop 2)] at h ⊢
    generalize input.take 2 = version at *
    generalize (input.drop 2).take 2 = bytes at *
    generalize (input.drop 2).drop 2 = body at *
    rw [passConfig_append h2 hn] at h
    split at h <;> cases h
    next hl =>
    have hc : (body.take (beNat bytes)).length = beNat bytes := by rw [length_take]; omega
    refine ⟨_, ⟨⟨h2, by rw [hc]; exact beNat_le hn⟩, rfl⟩, ?_⟩
    simp only [encodeConfig, encodePrefixed, hc, beBytes_two hn, append_assoc, take_append_drop]
  · rintro ⟨-, ⟨⟨h2, hle⟩, rfl⟩, rfl⟩
    have hn : beNat (beBytes 2 config.2.length) = config.2.length := beNat_beBytes (by omega)
    rw [encodeConfig, encodePrefixed, append_assoc, append_assoc, passConfig_append h2 (length_beBytes _ _), hn,
      if_neg (by simp), take_left, drop_left]

/-! ## The loops -/

theorem encodeConfig_ne (config : List UInt8 × List UInt8) : encodeConfig config ≠ [] :=
  append_ne_nil_of_right_ne_nil _ nofun

/-- A key is read as the pair of its two parts. -/
theorem reads_key :
    ReadsFormat (fun text x => (x.1.length ≤ 0xffff ∧ x.2.length ≤ 0xffff) ∧ text = encodeKey ⟨x.1, x.2⟩)
      (readPair readU16Prefixed readU16Prefixed) := by
  intro input x rest
  rw [reads_prefixed.pair reads_prefixed input x rest]
  constructor
  · rintro ⟨_, ⟨_, _, rfl, ⟨h1, rfl⟩, h2, rfl⟩, h⟩
    exact ⟨_, ⟨⟨h1, h2⟩, rfl⟩, h⟩
  · rintro ⟨_, ⟨⟨h1, h2⟩, rfl⟩, h⟩
    exact ⟨_, ⟨_, _, rfl, ⟨h1, rfl⟩, h2, rfl⟩, h⟩

theorem foldlM_keys (xs : List (List UInt8 × List UInt8)) (keys : List ServerEchKey) :
    xs.foldlM (fun keys (privateKey, config) => .ok (keys ++ [{ privateKey, config }])) keys =
      (.ok (keys ++ xs.map fun x => ⟨x.1, x.2⟩) : Except Str _) := by
  induction xs generalizing keys with
  | nil => simp [pure, Except.pure]
  | cons x xs ih =>
    rw [foldlM_cons]
    refine (ih _).trans ?_
    simp

theorem parseKeys_iff {blob : List UInt8} {keys : List ServerEchKey} : parseKeys blob = .ok keys ↔
    (∀ key ∈ keys, key.privateKey.length ≤ 0xffff ∧ key.config.length ≤ 0xffff) ∧ blob = keys.flatMap encodeKey := by
  rw [parseKeys, eachRecord_ok_iff (encodes_ne nofun) reads_key (Nat.le_refl _)]
  simp only [sequence_encodes_iff, foldlM_keys, nil_append, Except.ok.injEq]
  constructor
  · grind [flatMap_map]
  · rintro ⟨hv, rfl⟩
    refine ⟨keys.map fun key => (key.privateKey, key.config), ⟨forall_mem_map.mpr hv, ?_⟩, ?_⟩
    · rw [flatMap_map]
    · rw [map_map]
      exact map_id _

theorem validateEchConfigList_iff {list : List UInt8} : validateEchConfigList list = .ok () ↔
    ∃ body, list = encodePrefixed body ∧ 1 ≤ body.length ∧ body.length ≤ 0xffff ∧ ConfigSequence body := by
  unfold validateEchConfigList
  constructor
  · intro h
    dsimp only at h
    split_ifs at h with h2 hl
    obtain ⟨configs, hs⟩ := (eachRecord_unit_iff (encodes_ne encodeConfig_ne) reads_config (by simp)).mp h
    have ht : (list.take 2).length = 2 := by rw [length_take]; omega
    have hn : beNat (list.take 2) = (list.drop 2).length := by rw [length_drop]; omega
    refine ⟨list.drop 2, ?_, by omega, hn ▸ beNat_le ht, configs, sequence_encodes_iff.mp hs⟩
    rw [encodePrefixed, ← hn, beBytes_two ht, take_append_drop]
  · rintro ⟨body, rfl, h1, hle, configs, hs⟩
    have hn : beNat (beBytes 2 body.length) = body.length := beNat_beBytes (by omega)
    have ht : (encodePrefixed body).take 2 = beBytes 2 body.length := rfl
    have hd : (encodePrefixed body).drop 2 = body := rfl
    have hl : (encodePrefixed body).length = 2 + body.length := by simp [encodePrefixed]
    simp only [ht, hd, hl, hn]
    rw [if_neg (by omega), if_neg (by omega), eachRecord_unit_iff (encodes_ne encodeConfig_ne) reads_config (by omega)]
    exact ⟨configs, sequence_encodes_iff.mpr hs⟩

/-- Key files are read as they are written, and the list of configs in them is checked. -/
theorem ech_keys_exact :
    (∀ blob keys, parseKeys blob = .ok keys ↔
      (∀ key ∈ keys, key.privateKey.length ≤ 0xffff ∧ key.config.length ≤ 0xffff) ∧
        blob = keys.flatMap encodeKey) ∧
    (∀ list, validateEchConfigList list = .ok () ↔
      ∃ body, list = encodePrefixed body ∧ 1 ≤ body.length ∧ body.length ≤ 0xffff ∧ ConfigSequence body) ∧
    ∀ blob material, loadBlob blob = .ok material ↔
      ∃ keys, parseKeys blob = .ok keys ∧ keys ≠ [] ∧ (∀ key ∈ keys, key.privateKey ≠ []) ∧
        1 ≤ (keys.flatMap (·.config)).length ∧ (keys.flatMap (·.config)).length ≤ 0xffff ∧
        ConfigSequence (keys.flatMap (·.config)) ∧ material = ⟨keys, encodePrefixed (keys.flatMap (·.config))⟩ := by
  refine ⟨fun blob keys => parseKeys_iff, fun list => validateEchConfigList_iff, fun blob material => ?_⟩
  rw [loadBlob, bind_eq_ok_iff]
  refine exists_congr fun keys => and_congr_right fun _ => ?_
  have hsum : (keys.map (·.config.length)).sum = (keys.flatMap (·.config)).length := length_flatMap.symm
  dsimp only
  split_ifs with h0 hp
  · exact iff_of_false nofun fun h => h.1 h0
  · grind
  · grind
  rw [hsum, bind_eq_ok_iff]
  simp only [mapError_eq_ok_iff]
  constructor
  · rintro ⟨u, hv, h⟩
    cases h
    obtain ⟨body, he, h1, hle, hs⟩ := validateEchConfigList_iff.mp hv
    have hb : keys.flatMap (·.config) = body := congrArg (drop 2) he
    grind
  · rintro ⟨-, -, h1, hle, hs, rfl⟩
    exact ⟨(), validateEchConfigList_iff.mpr ⟨_, rfl, h1, hle, hs⟩, rfl⟩

end Hysteria.Proof
