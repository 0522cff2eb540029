import Hysteria.Impl.Protocol.Auth

/-!
# Who can log in

An authentication string is cut at its first colon, and of the names that differ in
case only one is kept. So the configured users can log in, with their passwords and
nothing else, exactly if no name has a colon in it and names that differ in case only
have the same password (`userpass_exact_iff`).
-/

namespace Hysteria.Proof

open Framework Impl List

variable {userpass : List (Str × Str)} {auth username pw id : Str}

/-- A name is looked up among the configured ones, up to case. -/
theorem lookup_userpassUsers (userpass : List (Str × Str)) (username : Str) :
    ((userpassUsers userpass).lookup username = none ∧ ∀ user ∈ userpass, toAsciiLowercase user.1 ≠ username) ∨
      ∃ user ∈ userpass, toAsciiLowercase user.1 = username ∧
        (userpassUsers userpass).lookup username = some user.2 := by
  induction userpass using reverseRecOn with
  | nil => exact .inl ⟨rfl, by simp⟩
  | append_singleton rest user ih =>
    have hi : userpassUsers (rest ++ [user]) = (userpassUsers rest).insert (toAsciiLowercase user.1) user.2 := by
      rw [userpassUsers, foldl_append]
      rfl
    rw [hi]
    by_cases hn : toAsciiLowercase user.1 = username
    · simp_all
    rw [AList.lookup_insert_ne (Ne.symm hn)]
    rcases ih with ⟨hnn, ho⟩ | ⟨found, hm, hf⟩
    · grind
    grind

theorem colon_mem_toAsciiLowercase : ':' ∈ toAsciiLowercase username ↔ ':' ∈ username := by
  simp [toAsciiLowercase, toLower_eq_iff (show ':'.toNat < 65 by decide)]

theorem userpassAuthenticate_eq_some : userpassAuthenticate userpass auth = some id ↔
    ∃ username pw, ':' ∉ username ∧ auth = username ++ ':' :: pw ∧ id = toAsciiLowercase username ∧
      (userpassUsers userpass).lookup id = some pw := by
  constructor
  · intro h
    obtain ⟨⟨username, pw⟩, hs, hf⟩ := Option.bind_eq_some_iff.mp h
    obtain ⟨hc, rfl⟩ := splitOnce_eq_some hs
    grind
  · rintro ⟨username, pw, hc, rfl, rfl, hl⟩
    rw [userpassAuthenticate, splitOnce_append hc]
    exact if_pos hl

/-- The users that are configured can log in, up to the case of their names, and nobody else can, exactly if
no name has a colon and names that differ in case only have one password. -/
theorem userpass_exact_iff (userpass : List (Str × Str)) :
    (∀ auth id, userpassAuthenticate userpass auth = some id ↔ ∃ username password, (username, password) ∈ userpass ∧
      id = toAsciiLowercase username ∧
        ∃ typed, toAsciiLowercase typed = toAsciiLowercase username ∧ auth = typed ++ ':' :: password) ↔
      (∀ username password, (username, password) ∈ userpass → ':' ∉ username) ∧
        ∀ username password username' password', (username, password) ∈ userpass →
          (username', password') ∈ userpass → toAsciiLowercase username = toAsciiLowercase username' →
          password = password' := by
  constructor
  · intro h
    have hlg : ∀ username password, (username, password) ∈ userpass → ':' ∉ username ∧
        (userpassUsers userpass).lookup (toAsciiLowercase username) = some password := by
      intro username password hm
      obtain ⟨typed, rest, hc, ha, hid, hl⟩ := userpassAuthenticate_eq_some.mp
        ((h (username ++ ':' :: password) _).mpr ⟨username, password, hm, rfl, username, rfl, rfl⟩)
      grind [colon_mem_toAsciiLowercase, append_cons_inj]
    refine ⟨fun username password hm => (hlg username password hm).1, ?_⟩
    grind
  · rintro ⟨hc, ho⟩ auth id
    rw [userpassAuthenticate_eq_some]
    constructor
    · rintro ⟨typed, password, -, rfl, rfl, hl⟩
      obtain ⟨hn, -⟩ | ⟨user, hm, hnm, hf⟩ := lookup_userpassUsers userpass (toAsciiLowercase typed)
      · cases hn.symm.trans hl
      · obtain rfl := Option.some.inj (hf.symm.trans hl)
        exact ⟨user.1, user.2, hm, hnm.symm, typed, hnm.symm, rfl⟩
    · rintro ⟨username, password, hm, rfl, typed, ht, rfl⟩
      have hn : ':' ∉ typed := by
        grind [colon_mem_toAsciiLowercase]
      refine ⟨typed, password, hn, rfl, ht.symm, ?_⟩
      obtain ⟨-, hno⟩ | ⟨user, hmem', hnm, hf⟩ := lookup_userpassUsers userpass (toAsciiLowercase username)
      · exact absurd rfl (hno _ hm)
      · rw [hf, ho _ _ _ _ hmem' hm hnm]

/-- A user whose name has a colon cannot log in, nor can one of two whose names differ in case. -/
theorem userpass_colonName : userpassAuthenticate [("a:b".toList, "p".toList)] "a:b:p".toList = none ∧
    userpassAuthenticate [("Bob".toList, "p".toList), ("bob".toList, "q".toList)] "Bob:p".toList = none := by
  decide

end Hysteria.Proof
