import Hysteria.Framework.StreamReader
import Hysteria.Impl.Transport.Http3Alps
import Hysteria.Proof.Protocol.Varint

/-!
# The grammar of ALPS

`inspect_iff`: what `inspect` accepts, as a grammar of frames, and what it returns. The
readers read formats (`reads_varint`, `reads_lengthPrefixed`), so each loop goes through
a sequence of records; what is left is what a list of settings and a list of frames do to
the state (`insertSettings_ok_iff`, `inspectFrames_ok_iff`). Nothing panics, as each slice
of the readers comes after a `get` (`varint_cons`, `lengthPrefixed_eq`).
-/

namespace Hysteria.Proof

open Framework Impl Alps List

variable {first : UInt8} {vals start : Option (Finmap fun _ : UInt64 => UInt64)}
  {map : Finmap fun _ : UInt64 => UInt64} {pay : List UInt8} {kind : UInt64} {s : Settings}
  {frs : List (UInt64 × List UInt8)}

/-! ## The grammar -/

/-- A byte string after its length. -/
def PrefixedText (text payload : List UInt8) : Prop :=
  ∃ a length, VarintText a length ∧ length.toNat = payload.length ∧ text = a ++ payload

/-- Frames of a type and a payload, settings of an identifier and a value, and pairs of strings. -/
abbrev Frames := Sequence (PairFormat VarintText PrefixedText)
abbrev SettingList := Sequence (PairFormat VarintText VarintText)
abbrev StringPairs := Sequence (PairFormat PrefixedText PrefixedText)

/-- The payload of a `SETTINGS` frame, and the map of its settings. -/
def SettingsPayload (payload : List UInt8) (values : Finmap fun _ : UInt64 => UInt64) : Prop :=
  ∃ settings, SettingList payload settings ∧ (settings.map Prod.fst).Nodup ∧
    (∀ setting ∈ settings, ¬(2 ≤ setting.1 ∧ setting.1 ≤ 5) ∧ (setting.1 = 8 ∨ setting.1 = 0x33 → setting.2 ≤ 1)) ∧
    values = settings.foldl (fun values setting => values.insert setting.1 setting.2) ∅

/-- There is at most one `SETTINGS` frame, and none if there already was one. -/
def SettingsFrame (start : Option (Finmap fun _ : UInt64 => UInt64)) (frames : List (UInt64 × List UInt8))
    (values : Option (Finmap fun _ : UInt64 => UInt64)) : Prop :=
  frames.filter (·.1 = 4) = [] ∧ values = start ∨ start = none ∧ ∃ payload map,
    frames.filter (·.1 = 4) = [(4, payload)] ∧ SettingsPayload payload map ∧ values = some map

/-- The frames may be there, and have this result. -/
structure Inspected (frames : List (UInt64 × List UInt8)) (result : Settings) : Prop where
  acceptCh : ∀ frame ∈ frames, frame.1 = 0x89 → ∃ pairs, StringPairs frame.2 pairs
  allowed : ∀ frame ∈ frames, frame.1 ∉ [0, 1, 2, 3, 5, 6, 7, 8, 9, 0xd, 0xf0700, 0xf0701]
  settings : SettingsFrame none frames result.values
  count : result.acceptChFrames = frames.countP (·.1 = 0x89)

/-! ## The readers -/

theorem varintText_ne {txt : List UInt8} {val : UInt64} (h : VarintText txt val) : txt ≠ [] := by
  obtain ⟨first, rest, rfl, -⟩ := h
  exact cons_ne_nil _ _

/-- What `varint` slices after its `get` is in range. -/
theorem varint_cons (first : UInt8) (bs : List UInt8) : varint (first :: bs) =
    (getOrError (slice (first :: bs) 0 (1 <<< (first >>> 6).toNat)) ("truncated ALPS varint" : Str)).map fun bytes =>
      ((bytes.drop 1).foldl (fun (value : UInt64) byte => value <<< 8 ||| byte.toUInt64) (first &&& 0x3f).toUInt64,
        (first :: bs).drop (1 <<< (first >>> 6).toNat)) := by
  rw [varint, head?_cons, getOrError_some]
  simp only [bind, Except.bind]
  rcases hs : slice (first :: bs) 0 (1 <<< (first >>> 6).toNat) with _ | bytes
  · rfl
  obtain ⟨-, hle, hl⟩ := length_slice hs
  have hp := one_shiftLeft_pos (first >>> 6).toNat
  rw [getOrError_some, slice_length hle]
  simp only [slice_length (show 1 ≤ bytes.length by omega), getOrPanic_some]
  rfl

theorem lengthPrefixed_eq (input : List UInt8) : lengthPrefixed input = (varint input >>= fun (length, rest) =>
      (getOrError (slice rest 0 length.toNat) ("truncated ALPS payload" : Str)).map fun bytes =>
        (bytes, rest.drop length.toNat)) := by
  rw [lengthPrefixed]
  rcases varint input with err | ⟨length, rest⟩
  · rfl
  simp only [bind, Except.bind]
  rcases hs : slice rest 0 length.toNat with _ | bytes
  · rfl
  · simp only [getOrError_some, slice_length (length_slice hs).2.1, getOrPanic_some]
    rfl

theorem map_getOrError_ne_panicked {α β : Type} (x : Option α) (err : Str) (f : α → β) :
    (getOrError x err).map f ≠ .error .panicked := by
  cases x <;> simp [getOrError, Except.map]

theorem varint_ne_panicked (input : List UInt8) : varint input ≠ .error .panicked := by
  rcases input with _ | ⟨first, bs⟩
  · simp [varint, getOrError, bind, Except.bind]
  · rw [varint_cons]
    exact map_getOrError_ne_panicked _ _ _

theorem lengthPrefixed_ne_panicked (input : List UInt8) : lengthPrefixed input ≠ .error .panicked := by
  rw [lengthPrefixed_eq]
  exact bind_ne_error (varint_ne_panicked input) fun _ _ => map_getOrError_ne_panicked _ _ _

theorem varint_toOption (s : List UInt8) : (varint s).toOption = (decodeVarint s).toOption := by
  rcases s with _ | ⟨first, bs⟩
  · rfl
  rw [varint_cons]
  simp only [decodeVarint, slice]
  have hp := one_shiftLeft_pos (first >>> 6).toNat
  generalize 1 <<< (first >>> 6).toNat = width at hp ⊢
  by_cases hsh : (first :: bs).length < width
  · rw [if_pos hsh, if_neg (by omega)]
    rfl
  obtain ⟨n, rfl⟩ : ∃ n, width = n + 1 := ⟨width - 1, by omega⟩
  rw [if_neg hsh, if_pos (by omega), drop_zero, Nat.sub_zero, take_succ_cons]
  rfl

theorem reads_varint : ReadsFormat VarintText varint := fun input val rest =>
  (StreamReader.ok_iff_of_toOption (varint_toOption input)).trans (reads_decodeVarint input val rest)

theorem reads_lengthPrefixed : ReadsFormat PrefixedText lengthPrefixed := by
  intro input pay rest
  rw [lengthPrefixed_eq]
  constructor
  · intro h
    obtain ⟨⟨len, input⟩, hl, hbs⟩ := bind_eq_ok h
    obtain ⟨txt, ht, rfl⟩ := (reads_varint _ _ _).mp hl
    dsimp only at hbs
    rcases hsl : slice input 0 len.toNat with _ | bytes
    · rw [hsl] at hbs
      cases hbs
    rw [hsl] at hbs
    cases hbs
    obtain ⟨after, rfl, hp⟩ := slice_zero_eq_some_iff.mp hsl
    refine ⟨txt ++ pay, ⟨txt, len, ht, hp.symm, rfl⟩, ?_⟩
    rw [← hp, drop_left, append_assoc]
  · rintro ⟨-, ⟨txt, len, ht, hl, rfl⟩, rfl⟩
    rw [append_assoc, (reads_varint _ _ _).mpr ⟨txt, ht, rfl⟩]
    simp only [bind, Except.bind]
    rw [slice_zero_eq_some_iff.mpr ⟨rest, rfl, hl.symm⟩, hl, drop_left]
    rfl

theorem pairFormat_ne {α β : Type} {first : List UInt8 → α → Prop} {second : List UInt8 → β → Prop}
    (h : ∀ txt x, first txt x → txt ≠ []) (txt : List UInt8) (x : α × β) (hx : PairFormat first second txt x) :
    txt ≠ [] := by
  obtain ⟨a, b, rfl, ha, -⟩ := hx
  exact fun hn => h a x.1 ha (append_eq_nil_iff.mp hn).1

theorem prefixedText_ne (txt pay : List UInt8) (h : PrefixedText txt pay) : txt ≠ [] := by
  obtain ⟨a, len, ha, -, rfl⟩ := h
  exact fun hn => varintText_ne ha (append_eq_nil_iff.mp hn).1

/-! ## The loops -/

theorem insertSetting_ok_iff {setting : UInt64 × UInt64} {vals : Finmap fun _ : UInt64 => UInt64} :
    insertSetting vals setting = .ok map ↔
      (¬(2 ≤ setting.1 ∧ setting.1 ≤ 5) ∧ (setting.1 = 8 ∨ setting.1 = 0x33 → setting.2 ≤ 1)) ∧ setting.1 ∉ vals ∧
        map = vals.insert setting.1 setting.2 := by
  unfold insertSetting
  dsimp only
  split_ifs with hr hb hm
  · simp [hr]
  · simp [hb.1, hb.2]
  · simp [hm]
  grind

/-- The loop over the settings of a frame, from any map. -/
theorem insertSettings_ok_iff {sets : List (UInt64 × UInt64)} {vals : Finmap fun _ : UInt64 => UInt64} :
    sets.foldlM insertSetting vals = .ok map ↔ (sets.map Prod.fst).Nodup ∧ (∀ setting ∈ sets, setting.1 ∉ vals) ∧
      (∀ setting ∈ sets, ¬(2 ≤ setting.1 ∧ setting.1 ≤ 5) ∧ (setting.1 = 8 ∨ setting.1 = 0x33 → setting.2 ≤ 1)) ∧
      map = sets.foldl (fun vals setting => vals.insert setting.1 setting.2) vals := by
  induction sets generalizing vals with
  | nil => simp [pure, Except.pure, eq_comm]
  | cons setting sets ih =>
    simp only [foldlM_cons, bind_eq_ok_iff, insertSetting_ok_iff, ih, map_cons, nodup_cons,
      forall_mem_cons, foldl_cons, mem_map, not_exists, not_and]
    have hi (x : UInt64) : x ∉ vals.insert setting.1 setting.2 ↔ x ≠ setting.1 ∧ x ∉ vals := by
      rw [Finmap.mem_insert, not_or]
    constructor
    · rintro ⟨-, ⟨hv, hnw, rfl⟩, hnd, hn, hs, hm⟩
      grind
    grind

theorem settingsLoop_ok_iff :
    eachRecord .panicked (readPair varint varint) insertSetting pay.length ∅ pay = .ok map ↔
      SettingsPayload pay map := by
  rw [eachRecord_ok_iff (pairFormat_ne fun _ _ => varintText_ne) (reads_varint.pair reads_varint) le_rfl]
  simp only [insertSettings_ok_iff, SettingsPayload, Finmap.notMem_empty, not_false_eq_true, implies_true, true_and]

theorem forbidden_iff : forbidden kind = true ↔ kind ∈ [0, 1, 2, 3, 5, 6, 7, 8, 9, 0xd, 0xf0700, 0xf0701] := by
  simp only [forbidden, Bool.or_eq_true, Bool.and_eq_true, decide_eq_true_eq, UInt64.le_iff_toNat_le, mem_cons,
    not_mem_nil, or_false, ← UInt64.toNat_inj, UInt64.reduceToNat]
  omega

/-- What a frame does to the result. -/
theorem inspectFrame_ok_iff {next : Settings} : inspectFrame s (kind, pay) = .ok next ↔
      kind = 4 ∧ s.values = none ∧ (∃ map, SettingsPayload pay map ∧ next = { s with values := some map }) ∨
      kind = 0x89 ∧ (∃ pairs, StringPairs pay pairs) ∧ next = { s with acceptChFrames := s.acceptChFrames + 1 } ∨
      kind ≠ 4 ∧ kind ≠ 0x89 ∧ kind ∉ [0, 1, 2, 3, 5, 6, 7, 8, 9, 0xd, 0xf0700, 0xf0701] ∧ next = s := by
  unfold inspectFrame
  dsimp only
  split_ifs with hs hsm ha hf
  · simp [hs, Option.isSome_iff_ne_none.mp hsm]
  · rw [Bool.not_eq_true, Option.isSome_eq_false_iff, Option.isNone_iff_eq_none] at hsm
    simp only [bind_eq_ok_iff, settingsLoop_ok_iff, hs, hsm]
    simp [pure, Except.pure, @eq_comm _ next]
  · simp only [bind_eq_ok_iff, ha]
    simp [pure, Except.pure, @eq_comm _ next,
      (eachRecord_unit_iff (pairFormat_ne prefixedText_ne) (reads_lengthPrefixed.pair reads_lengthPrefixed) le_rfl)]
  · simp [hs, ha, forbidden_iff.mp hf]
  · simp [hs, ha, mt forbidden_iff.mpr hf, @eq_comm _ next]

theorem settingsFrame_cons : SettingsFrame start ((4, pay) :: frs) vals ↔
      start = none ∧ ∃ map, SettingsPayload pay map ∧ SettingsFrame (some map) frs vals := by
  simp only [SettingsFrame, filter_cons, decide_true, if_true, reduceCtorEq, false_and, or_false, false_or,
    cons.injEq, Prod.mk.injEq, true_and]
  refine and_congr_right' ⟨?_, ?_⟩
  · grind
  grind

theorem settingsFrame_cons_of_ne {fr : UInt64 × List UInt8} (h : fr.1 ≠ 4) (frs : List (UInt64 × List UInt8)) :
    SettingsFrame start (fr :: frs) vals ↔ SettingsFrame start frs vals := by
  rw [SettingsFrame, filter_cons_of_neg (by simpa using h)]
  rfl

/-- What the frames do to the result, from any state of the loop. -/
theorem inspectFrames_ok_iff {res : Settings} : frs.foldlM inspectFrame s = .ok res ↔
      (∀ fr ∈ frs, fr.1 = 0x89 → ∃ pairs, StringPairs fr.2 pairs) ∧
      (∀ fr ∈ frs, fr.1 ∉ [0, 1, 2, 3, 5, 6, 7, 8, 9, 0xd, 0xf0700, 0xf0701]) ∧
      SettingsFrame s.values frs res.values ∧
      res.acceptChFrames = s.acceptChFrames + frs.countP (·.1 = 0x89) := by
  induction frs generalizing s with
  | nil =>
    obtain ⟨vals, cnt⟩ := s
    obtain ⟨vals', cnt'⟩ := res
    simp [pure, Except.pure, SettingsFrame, eq_comm]
  | cons fr frs ih =>
    obtain ⟨kind, pay⟩ := fr
    simp only [foldlM_cons, bind_eq_ok_iff, inspectFrame_ok_iff, ih, forall_mem_cons, countP_cons]
    by_cases hst : kind = 4
    · subst hst
      rw [settingsFrame_cons]
      constructor
      · rintro ⟨next, ⟨-, hn, map, hm, rfl⟩ | ⟨heq, -⟩ | ⟨hne, -⟩, ha, hal, hv, hc⟩
        · exact ⟨⟨nofun, ha⟩, ⟨by decide, hal⟩, ⟨hn, map, hm, hv⟩, hc⟩
        · cases heq
        · exact absurd rfl hne
      grind
    rw [settingsFrame_cons_of_ne hst]
    by_cases ha : kind = 0x89
    · subst ha
      constructor
      · rintro ⟨next, ⟨heq, -⟩ | ⟨-, hp, rfl⟩ | ⟨-, hne, -⟩, ha, hal, hv, hc⟩
        · cases heq
        · exact ⟨⟨fun _ => hp, ha⟩, ⟨by decide, hal⟩, hv, by grind⟩
        · exact absurd rfl hne
      grind
    · constructor
      · rintro ⟨next, ⟨heq, -⟩ | ⟨heq, -⟩ | ⟨-, -, hk, rfl⟩, hs, hal, hv, hc⟩
        · exact absurd heq hst
        · exact absurd heq ha
        grind
      grind

/-! ## Panics -/

theorem insertSetting_ne_panicked (vals : Finmap fun _ : UInt64 => UInt64) (setting : UInt64 × UInt64) :
    insertSetting vals setting ≠ .error .panicked := by
  unfold insertSetting
  dsimp only
  split_ifs <;> simp

theorem inspectFrame_ne_panicked (s : Settings) (fr : UInt64 × List UInt8) :
    inspectFrame s fr ≠ .error .panicked := by
  unfold inspectFrame
  dsimp only
  split_ifs
  · simp
  · refine bind_ne_error (eachRecord_ne_stuck (pairFormat_ne fun _ _ => varintText_ne) (reads_varint.pair reads_varint)
      (readPair_ne_error varint_ne_panicked varint_ne_panicked) insertSetting_ne_panicked le_rfl) ?_
    simp [pure, Except.pure]
  · refine bind_ne_error (eachRecord_ne_stuck (pairFormat_ne prefixedText_ne)
      (reads_lengthPrefixed.pair reads_lengthPrefixed)
      (readPair_ne_error lengthPrefixed_ne_panicked lengthPrefixed_ne_panicked) (by simp) le_rfl) ?_
    simp [pure, Except.pure]
  · simp
  · simp

/-- `inspect` accepts the grammar of frames, and returns the settings and the number of
`ACCEPT_CH` frames. No index and no slice is out of range. -/
theorem inspect_iff (input : List UInt8) : (16384 < input.length → ∃ error, inspect input = .error (.error error)) ∧
    (input.length ≤ 16384 → ∀ result, inspect input = .ok result ↔
      ∃ frames, Frames input frames ∧ Inspected frames result) ∧
    inspect input ≠ .error .panicked := by
  have hne := @pairFormat_ne _ _ VarintText PrefixedText fun _ _ => varintText_ne
  have hr := reads_varint.pair reads_lengthPrefixed
  refine ⟨fun hl => ⟨_, if_pos hl⟩, fun hsh result => ?_, ?_⟩
  · rw [inspect, if_neg (not_lt.mpr hsh), eachRecord_ok_iff hne hr le_rfl]
    refine exists_congr fun frames => and_congr_right' (inspectFrames_ok_iff.trans ?_)
    rw [Nat.zero_add]
    exact ⟨fun ⟨ha, hal, hs, hc⟩ => ⟨ha, hal, hs, hc⟩, fun h => ⟨h.acceptCh, h.allowed, h.settings, h.count⟩⟩
  · unfold inspect
    split_ifs
    · simp
    · exact eachRecord_ne_stuck hne hr (readPair_ne_error varint_ne_panicked lengthPrefixed_ne_panicked)
        inspectFrame_ne_panicked le_rfl

end Hysteria.Proof
