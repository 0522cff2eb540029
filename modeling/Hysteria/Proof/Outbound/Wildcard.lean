import Hysteria.Framework.Glob
import Hysteria.Impl.Outbound.Acl

/-!
# Wildcards

`wildcard_matches` goes through the value with one star to come back to. Its loop
decides `LiteralFirst` (`wildcardLoop_spec`): equality is tested before the star,
so a star of the pattern is spent on a star of the value. `StarMatches` is what the star
it would come back to can still give.
-/

namespace Hysteria.Proof

open Framework Impl List

variable {val pat : List UInt8} {vi pi retry : Nat} {star : Option Nat}

/-- The value from `vi` on matches the pattern from `pi` on. -/
def RestMatches (value pattern : List UInt8) (vi pi : Nat) : Prop := LiteralFirst 42 (pattern.drop pi) (value.drop vi)

/-- The last star matches if it takes more of the value than up to `retry`. -/
def StarMatches (value pattern : List UInt8) (star : Option Nat) (retry : Nat) : Prop :=
  ∃ s ∈ star, ∃ y, y <:+ (value.drop retry).tail ∧ LiteralFirst 42 (pattern.drop (s + 1)) y

/-- What stands in the pattern after the last star, up to `pi`, stands in the value from `retry` to `vi`. -/
def SinceStar (value pattern : List UInt8) (vi pi : Nat) (star : Option Nat) (retry : Nat) : Prop :=
  ∀ s ∈ star, ∃ w, pattern.drop (s + 1) = w ++ pattern.drop pi ∧ value.drop retry = w ++ value.drop vi

theorem SinceStar.overtaken (hb : SinceStar val pat vi pi star retry)
    (hl : StarMatches val pat star retry) : ∃ z, z <:+ val.drop vi ∧ LiteralFirst 42 (pat.drop pi) z := by
  obtain ⟨s, hs, y, hy, hm⟩ := hl
  obtain ⟨w, hw, hv⟩ := hb s hs
  rw [hw] at hm
  exact LiteralFirst.overtaken ((hy.trans (tail_suffix _)).trans (hv ▸ suffix_refl _)) hm

theorem SinceStar.step {c : UInt8} (hb : SinceStar val pat vi pi star retry)
    (hp : pat.drop pi = c :: pat.drop (pi + 1)) (hv : val.drop vi = c :: val.drop (vi + 1)) :
    SinceStar val pat (vi + 1) (pi + 1) star retry := by
  intro s hs
  obtain ⟨w, hw, hr⟩ := hb s hs
  exact ⟨w ++ [c], by rw [hw, hp]; simp, by rw [hr, hv]; simp⟩

/-- A star that has taken nothing yet is anywhere from here on. -/
theorem rest_or_star_iff (s r : Nat) : RestMatches val pat r (s + 1) ∨ StarMatches val pat (some s) r ↔
      ∃ y, y <:+ val.drop r ∧ LiteralFirst 42 (pat.drop (s + 1)) y := by
  constructor
  · rintro (h | ⟨_, ⟨⟩, y, hy, hm⟩)
    · exact ⟨_, suffix_refl _, h⟩
    · exact ⟨y, hy.trans (tail_suffix _), hm⟩
  rintro ⟨y, hy, hm⟩
  rcases hr : val.drop r with _ | ⟨c, rest⟩
  · rw [hr, suffix_nil] at hy
    exact .inl (by rw [RestMatches, hr, ← hy]; exact hm)
  rw [hr] at hy
  rcases suffix_cons_iff.mp hy with rfl | hy
  · exact .inl (by rw [RestMatches, hr]; exact hm)
  · exact .inr ⟨s, rfl, y, by rw [hr]; exact hy, hm⟩

theorem not_restMatches (hv : vi < val.length) (hm : ¬ pat[pi]? = val[vi]?) (hs : ¬ pat[pi]? = some 42) :
    ¬ RestMatches val pat vi pi := by
  rw [RestMatches, List.drop_eq_getElem_cons hv]
  rcases hp : pat[pi]? with _ | d
  · rw [List.drop_eq_nil_of_le (List.getElem?_eq_none_iff.mp hp), LiteralFirst.nil_left_iff]
    exact List.cons_ne_nil _ _
  obtain ⟨hpi, rfl⟩ := List.getElem?_eq_some_iff.mp hp
  rw [List.drop_eq_getElem_cons hpi]
  refine LiteralFirst.not_cons (fun h => hs (by rw [hp, h])) (fun h => hm ?_)
  grind

/-- The induction is the loop's own. In each case the two alternatives of the next
state are compared with those of this one; only passing a star needs `overtaken`. -/
theorem wildcardLoop_spec (h : retry ≤ vi) (hpi : pi ≤ pat.length) (hst : ∀ s ∈ star, s < pat.length)
    (hb : SinceStar val pat vi pi star retry) : ∃ matched, wildcardLoop val pat vi pi star retry h = some matched ∧
      (matched = true ↔ RestMatches val pat vi pi ∨ StarMatches val pat star retry) := by
  fun_induction wildcardLoop val pat vi pi star retry h with
  | case1 vi pi star retry h hv hm ih =>
    have hlt : pi < pat.length := by
      grind
    have hdv := List.drop_eq_getElem_cons hv
    have hdp := List.drop_eq_getElem_cons hlt
    rw [List.getElem?_eq_getElem hv, List.getElem?_eq_getElem hlt, Option.some.injEq] at hm
    rw [hm] at hdp
    obtain ⟨matched, he, hi⟩ := ih hlt hst (hb.step hdp hdv)
    refine ⟨matched, he, ?_⟩
    rw [hi, RestMatches, RestMatches, hdp, hdv, LiteralFirst.cons_same_iff]
  | case2 vi pi star retry h hv hm hs ih =>
    have hlt : pi < pat.length := (List.getElem?_eq_some_iff.mp hs).1
    have hdp := List.drop_eq_getElem_cons hlt
    rw [List.getElem?_eq_getElem hlt, Option.some.injEq] at hs
    rw [hs] at hdp
    have hne : (val.drop vi).head? ≠ some 42 := by
      grind [List.head?_drop]
    obtain ⟨matched, he, hi⟩ := ih hlt (by simpa using hlt) (fun s hs => ⟨[], by cases hs; simp⟩)
    refine ⟨matched, he, ?_⟩
    rw [hi, rest_or_star_iff, ← LiteralFirst.cons_star_iff hne, ← hdp]
    refine ⟨.inl, ?_⟩
    rintro (hh | hl)
    · exact hh
    obtain ⟨z, hz, hm⟩ := hb.overtaken hl
    rw [hdp] at hm ⊢
    exact .of_suffix hne hz hm
  | case3 vi pi retry h hv hm hs s ih =>
    have hno := not_restMatches hv hm hs
    obtain ⟨matched, he, hi⟩ := ih (hst s rfl) hst (fun s hs => ⟨[], by cases hs; simp⟩)
    refine ⟨matched, he, ?_⟩
    rw [hi, rest_or_star_iff]
    simp only [hno, false_or, StarMatches, Option.mem_def, Option.some.injEq, exists_eq_left', List.tail_drop]
  | case4 vi pi retry h hv hm hs =>
    simp [not_restMatches hv hm hs, StarMatches]
  | case5 vi pi star retry h hv =>
    have hn : val.drop vi = [] := List.drop_eq_nil_of_le (by omega)
    have he : RestMatches val pat vi pi ↔ ∀ c ∈ pat.drop pi, c = 42 := by
      rw [RestMatches, hn, LiteralFirst.nil_right_iff]
    refine ⟨(pat.drop pi).all (· = 42), by rw [slice_length hpi, Option.map_some], ?_⟩
    rw [List.all_eq_true]
    simp only [decide_eq_true_eq]
    rw [← he]
    refine ⟨.inl, ?_⟩
    rintro (hh | hl)
    · exact hh
    obtain ⟨z, hz, hm⟩ := hb.overtaken hl
    rw [hn, List.suffix_nil] at hz
    rw [RestMatches, hn, ← hz]
    exact hm

theorem wildcardLoop_start (val pat : List UInt8) :
    ∃ matched, wildcardLoop val pat 0 0 none 0 (Nat.le_refl 0) = some matched ∧
      (matched = true ↔ LiteralFirst 42 pat val) := by
  have hst : SinceStar val pat 0 0 none 0 := fun _ hs => by cases hs
  obtain ⟨matched, he, hi⟩ := wildcardLoop_spec (Nat.le_refl 0) (Nat.zero_le pat.length) (by simp) hst
  refine ⟨matched, he, ?_⟩
  simpa [RestMatches, StarMatches] using hi

/-- `wildcard_matches` always returns, and it never matches too much. It is right
exactly if the pattern either does not match, or does so with each of its stars that
meets a star of the value kept as this one; so wherever one of the two has no star. -/
theorem wildcard_decides_literalFirst (value pattern : List UInt8) :
    ∃ matched, wildcardLoop value pattern 0 0 none 0 (Nat.le_refl 0) = some matched ∧
      (matched = true ↔ LiteralFirst 42 pattern value) ∧
      (matched = true → Glob 42 pattern value) ∧
      (42 ∉ value ∨ 42 ∉ pattern → (matched = true ↔ Glob 42 pattern value)) ∧
      ((matched = true ↔ Glob 42 pattern value) ↔ (Glob 42 pattern value → LiteralFirst 42 pattern value)) ∧
      ∀ host text : Str, utf8 host = value → utf8 text = pattern → wildcardMatches host text = matched := by
  obtain ⟨matched, he, hi⟩ := wildcardLoop_start value pattern
  have hg : matched = true → Glob 42 pattern value := fun h => (hi.mp h).glob
  refine ⟨matched, he, hi, hg, ?_, ?_, ?_⟩
  · intro h
    rw [hi, literalFirst_iff_glob h]
  · exact ⟨fun h hp => hi.mp (h.mpr hp), fun h => ⟨hg, fun hp => hi.mpr (h hp)⟩⟩
  · rintro host text rfl rfl
    rw [wildcardMatches, wildcardChecked, he, Option.getD_some]

/-- A star alone says every value, but it is spent on the star that the value begins with. -/
theorem wildcard_spent_on_star :
    Glob 42 (utf8 "*".toList) (utf8 "*a".toList) ∧ wildcardMatches "*a".toList "*".toList = false := by
  have hv : utf8 "*a" = [42, 97] := by decide
  have hp : utf8 "*" = [42] := by decide
  refine ⟨by rw [hv, hp]; exact .star [42, 97] .nil, ?_⟩
  obtain ⟨matched, he, hi⟩ := wildcardLoop_start [42, 97] [42]
  rw [LiteralFirst.cons_same_iff, LiteralFirst.nil_left_iff] at hi
  rw [wildcardMatches, wildcardChecked, hv, hp, he, Option.getD_some, Bool.eq_false_iff, Ne, hi]
  exact cons_ne_nil _ _

end Hysteria.Proof
