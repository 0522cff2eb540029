import Hysteria.Impl.Outbound.Acl

/-!
# The two CIDR tests

Both functions named `cidr_contains` compare the first bits of the addresses
(`and_mask_eq_iff`). The one of the ACL has no guard of its own: `compile_matcher`
makes no network longer than its addresses, so the subtraction for its mask does not overflow.
-/

namespace Hysteria.Proof

open Framework Impl

variable {w : Nat} {length : UInt8} {network candidate : IpAddr}

/-- The bits of an address. -/
def addressBits : IpAddr → Nat
  | .v4 _ => 32
  | .v6 _ => 128

/-- The addresses are of one family, and their first `n` bits are the same. -/
def AgreeBits (n : Nat) : IpAddr → IpAddr → Prop
  | .v4 a, .v4 b => ∀ i < n, a.getMsbD i = b.getMsbD i
  | .v6 a, .v6 b => ∀ i < n, a.getMsbD i = b.getMsbD i
  | _, _ => False

/-- The mask has the bits of the network. A shift by all bits is none for `checked_shl`, and leaves no bit. -/
theorem checkedMask_eq (hl : length.toNat ≤ w) :
    ∃ mask, checkedMask w length = some mask ∧ ∀ i, mask.getMsbD i = decide (i < length.toNat) := by
  rw [checkedMask, if_pos hl]
  refine ⟨_, rfl, fun i => ?_⟩
  split
  · simp [BitVec.getMsbD_shiftLeft]
    omega
  · simp
    omega

theorem and_mask_eq_iff {n : Nat} {mask : BitVec w} (hm : ∀ i, mask.getMsbD i = decide (i < n)) (a b : BitVec w) :
    a &&& mask = b &&& mask ↔ ∀ i < n, a.getMsbD i = b.getMsbD i := by
  refine ⟨fun h i hi => ?_, fun h => BitVec.eq_of_getMsbD_eq fun i _ => ?_⟩
  · have hb := congrArg (·.getMsbD i) h
    simpa [hm, hi] using hb
  · by_cases hi : i < n
    · simp [h i hi]
    · simp [hm, hi]

theorem compileMatcher_cidr {lib : Libraries} {val : Str} {line : Nat} {geo : Option GeoDatabases}
    (h : compileMatcher lib val line geo = .ok (.cidr network length)) : length.toNat ≤ addressBits network := by
  have hg : ∀ {α : Type} {x : Except Str α} {f : α → HostMatcher}, (∀ a, f a ≠ .cidr network length) →
      x.map f ≠ .ok (.cidr network length) := by
    rintro α (_ | a) f hf heq
    · cases heq
    · exact hf a (Except.ok.inj heq)
  simp only [compileMatcher] at h
  split at h
  · cases h
  repeat' split at h
  all_goals try cases h
  · exact absurd h (hg nofun)
  · exact absurd h (hg nofun)
  · next hv _ hb =>
    rcases network with bits | bits
    · exact UInt8.not_lt.mp hb
    · cases hv
  · next hv _ hb =>
    rcases network with bits | bits
    · exact absurd rfl hv
    · exact UInt8.not_lt.mp hb

/-- On the lengths that its callers pass, each test panics nowhere and compares the first bits
of two addresses of one family. No address is in a longer network of the GeoIP data. -/
theorem cidr_tests_exact (network candidate : IpAddr) (length : UInt8) :
    (∀ lib value line geo, compileMatcher lib value line geo = .ok (.cidr network length) →
      length.toNat ≤ addressBits network) ∧
    (length.toNat ≤ addressBits network →
      cidrContainsChecked network length candidate = some (cidrContains network length candidate) ∧
      cidrContains network length candidate = geoCidrContains network length candidate ∧
      (cidrContains network length candidate = true ↔ AgreeBits length.toNat network candidate)) ∧
    geoCidrContainsChecked network length candidate = some (geoCidrContains network length candidate) ∧
    (addressBits network < length.toNat → geoCidrContains network length candidate = false) := by
  refine ⟨fun _ _ _ _ => compileMatcher_cidr, ?_⟩
  have h32 : length ≤ 32 ↔ length.toNat ≤ 32 := UInt8.le_iff_toNat_le
  have h128 : length ≤ 128 ↔ length.toNat ≤ 128 := UInt8.le_iff_toNat_le
  rcases network with a | a <;> rcases candidate with b | b
  · by_cases hl : length.toNat ≤ 32
    · obtain ⟨mask, hc, hm⟩ := checkedMask_eq hl
      simp [addressBits, cidrContainsChecked, geoCidrContainsChecked, cidrContains, geoCidrContains, hc, h32, hl,
        and_mask_eq_iff hm, AgreeBits]
    · simp [addressBits, geoCidrContainsChecked, geoCidrContains, h32, hl]
  · exact ⟨fun _ => ⟨rfl, rfl, by simp [cidrContains, cidrContainsChecked, AgreeBits]⟩, rfl, fun _ => rfl⟩
  · exact ⟨fun _ => ⟨rfl, rfl, by simp [cidrContains, cidrContainsChecked, AgreeBits]⟩, rfl, fun _ => rfl⟩
  · by_cases hl : length.toNat ≤ 128
    · obtain ⟨mask, hc, hm⟩ := checkedMask_eq hl
      simp [addressBits, cidrContainsChecked, geoCidrContainsChecked, cidrContains, geoCidrContains, hc, h128, hl,
        and_mask_eq_iff hm, AgreeBits]
    · simp [addressBits, geoCidrContainsChecked, geoCidrContains, h128, hl]

end Hysteria.Proof
