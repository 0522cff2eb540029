import Hysteria.Proof.Outbound.DialledAddress
import Hysteria.Proof.Outbound.Socks5

/-!
# IPv6 literals in request addresses

The host of `[a]:p` keeps its brackets, and `[a]` is not the text of an IP
address. So the branches for IPv6 addresses are never taken on it: the
resolvers other than the system's ask their DNS server for the name `[a]`, and
a SOCKS5 proxy is given a domain.

`ipv6_literal_paths` says what becomes of the literal on each path, for every
address and port.
-/

namespace Hysteria.Proof

open Framework Impl Spec List

variable {ω : Type} {lib : Libraries} {out : Outside} {a : BitVec 128} {p : UInt16}

/-- The host `[a]`. -/
def bracketed (a : BitVec 128) : Str := '[' :: displayV6 a ++ "]"

/-- The request address `[a]:p`. -/
def literal (a : BitVec 128) (p : UInt16) : Str := bracketed a ++ ':' :: showNat p.toNat

/-- `Authority::host` keeps the brackets. -/
def KeepsBrackets (lib : Libraries) (a : BitVec 128) (p : UInt16) : Prop :=
  lib.authority (literal a p) = .ok (bracketed a, some p)

/-- `lookup_host` reads a socket address without asking anyone. -/
def ReadsLiteral (outside : Outside) (a : BitVec 128) (p : UInt16) : Prop :=
  ∀ n, outside.lookupHost n (literal a p) = .ok [⟨.v6 a, p, 0⟩]

/-- All rules are for an IP address or a network. -/
def IpRules (acl : AclOutbound ω) : Prop :=
  ∀ rule ∈ acl.rules, (∃ ip, rule.matcher = .ip ip) ∨ ∃ network length, rule.matcher = .cidr network length

/-- The resolver gives exactly `a`, and no DNS server is asked. -/
def ResolvesLiteral (outside : Outside) (a : BitVec 128) (p : UInt16) (r : Resolver) (w : World) : Prop :=
  r.resolve outside (bracketed a) p w = ({ ipv6 := some (.v6 a) }, if r = .system then w.ask else w)

/-- The literal goes through as the address `a`. -/
structure LiteralSurvives (lib : Libraries) (outside : Outside) (a : BitVec 128) (p : UInt16) : Prop where
  resolved : ∀ r w, ResolvesLiteral outside a p r w
  matched : ∀ (ω : Type) (acl : AclOutbound ω) protocol w, IpRules acl →
    (acl.select lib outside (literal a p) protocol w).1 =
      .ok (acl.pick (literal a p) (normalizedHost lib (bracketed a)) [.v6 a] p protocol)
  encoded : encodeAddress lib (literal a p) = .ok (4 :: beBytes 16 a.toNat ++ beBytes 2 p.toNat)
  decoded : ∀ bytes, encodeAddress lib (literal a p) = .ok bytes →
    decodeAddress bytes 0 = .ok (formatAuthority (displayV6 a) p, bytes.length)

/-! ## The text -/

theorem formatAuthority_bracketed (a : BitVec 128) (p : UInt16) : formatAuthority (bracketed a) p = literal a p := by
  simp [formatAuthority, bracketed, literal]

theorem parseIpAddr_bracketed (a : BitVec 128) : parseIpAddr (bracketed a) = none := parseIpAddr_bracket _

theorem length_bracketed_le (a : BitVec 128) : (utf8 (bracketed a)).length < 2 ^ 8 := by
  have hutf8 := length_utf8_le (bracketed a)
  have hl := length_displayV6_le a
  grind [length_append, length_cons, bracketed]

theorem parseHostPort_literal (h : KeepsBrackets lib a p) : parseHostPort lib (literal a p) = .ok (bracketed a, p) := by
  rw [parseHostPort, h]

/-! ## Resolving -/

theorem resolve_system (h : ReadsLiteral out a p) (w : World) :
    Resolver.system.resolve out (bracketed a) p w = ({ ipv6 := some (.v6 a) }, w.ask) := by
  simp [Resolver.resolve, parseIpAddr_bracketed, formatAuthority_bracketed, h w.asked, Resolved.ofAddresses,
    IpAddr.isIpv4]

/-- A resolver that is not the system's looks the name up in the DNS. -/
theorem resolve_dns {r : Resolver} (hr : r ≠ .system) (w : World) : r.resolve out (bracketed a) p w =
      ({ ipv4 := (r.lookup out (bracketed a) 1 w).1.toOption.join
         ipv6 := (r.lookup out (bracketed a) 28 (r.lookup out (bracketed a) 1 w).2).1.toOption.join },
        (r.lookup out (bracketed a) 28 (r.lookup out (bracketed a) 1 w).2).2) := by
  cases r with
  | system => exact absurd rfl hr
  | _ => rfl

theorem lookupLoop_asks (r : Resolver) (qtype : UInt16) {ip : IpAddr} (rounds : Nat) (host : Str) (w : World)
    (h : (r.lookupLoop out qtype rounds host w).1.toOption.join = some ip) :
    w.asked < (r.lookupLoop out qtype rounds host w).2.asked := by
  rcases rounds with _ | rounds
  · simp [Resolver.lookupLoop, Except.toOption] at h
  unfold Resolver.lookupLoop at h ⊢
  simp only at h ⊢
  split at h
  case h_1 => simp [Except.toOption] at h
  case h_2 =>
    split at h
    case h_1 => simp [Except.toOption] at h
    case h_2 =>
      split at h
      case h_1 => simp [Except.toOption] at h
      case h_2 =>
        split
        · exact Nat.lt_succ_self _
        · exact Nat.lt_succ_self _
        · exact (lookupLoop_quiet out r qtype rounds _ (World.ask { w with nextId := w.nextId + 1 })).2

theorem resolvesLiteral_iff (h : ReadsLiteral out a p) (r : Resolver) (w : World) :
    ResolvesLiteral out a p r w ↔ r = .system := by
  constructor
  · intro hrs
    by_contra hr
    rw [ResolvesLiteral, resolve_dns hr, if_neg hr, Prod.mk.injEq, Resolved.mk.injEq] at hrs
    obtain ⟨⟨-, hip⟩, hw⟩ := hrs
    have hf := (lookupLoop_quiet out r 1 16 (bracketed a) w).2
    have hsn := lookupLoop_asks r 28 16 (bracketed a) _ hip
    grind [Resolver.lookup]
  · rintro rfl
    exact resolve_system h w

/-! ## Matching -/

theorem select_literal (h : KeepsBrackets lib a p) (acl : AclOutbound ω) (proto : AclProtocol) (w : World) :
    (acl.select lib out (literal a p) proto w).1 = .ok (acl.pick (literal a p) (normalizedHost lib (bracketed a))
        (acl.resolver.resolve out (bracketed a) p w).1.ips p proto) := by
  rw [AclOutbound.select, parseHostPort_literal h]

/-- The DNS server answers nothing. -/
def NoAnswers (outside : Outside) : Prop := ∀ n r query, ∃ error, outside.exchange n r query = .error error

theorem lookupLoop_noAnswers (h : NoAnswers out) (r : Resolver) (qtype : UInt16) (rounds : Nat) (host : Str)
    (w : World) : (r.lookupLoop out qtype rounds host w).1.toOption = none := by
  rcases rounds with _ | rounds
  · rfl
  unfold Resolver.lookupLoop
  simp only
  split
  · rfl
  rename_i query _
  obtain ⟨err, he⟩ := h w.asked r query
  simp [he, Except.toOption]

/-- Without an address no rule for addresses applies. -/
theorem pick_noAddress {acl : AclOutbound ω} (h : IpRules acl) (addr host : Str) (port : UInt16)
    (proto : AclProtocol) : acl.pick addr host [] port proto = (acl.default, addr) := by
  have hn : acl.rules.find? (·.accepts host [] port proto) = none := by
    rw [find?_eq_none]
    intro rule hr
    rcases h rule hr with ⟨ip, hm⟩ | ⟨network, len, hm⟩
    · simp [AclRule.accepts, hm, HostMatcher.matches]
    · simp [AclRule.accepts, hm, HostMatcher.matches]
  rw [AclOutbound.pick, hn]

/-! ## Encoding for a SOCKS5 proxy -/

theorem encodeAddress_literal (h : KeepsBrackets lib a p) : encodeAddress lib (literal a p) =
      .ok (3 :: UInt8.ofNat (utf8 (bracketed a)).length :: utf8 (bracketed a) ++ beBytes 2 p.toNat) := by
  have hl : u8Len (utf8 (bracketed a)).length = .ok (UInt8.ofNat (utf8 (bracketed a)).length) := by
    rw [u8Len, u8TryFrom, if_pos (length_bracketed_le a)]
  simp only [encodeAddress, parseHostPort_literal h, Except.mapError, parseIpAddr_bracketed, bind, Except.bind, hl,
    pure, Except.pure]

theorem decodeAddress_literal (a : BitVec 128) (p : UInt16) :
    decodeAddress (3 :: UInt8.ofNat (utf8 (bracketed a)).length :: utf8 (bracketed a) ++ beBytes 2 p.toNat) 0 =
      .ok (literal a p, (utf8 (bracketed a)).length + 4) := by
  have hl := (UInt8.toNat_ofNat_of_lt' (length_bracketed_le a)).symm
  refine (decodeAddress_iff []).2 ⟨bracketed a, p, _, ⟨_, beBytes 2 p.toNat, [], ?_, .domain hl (fromUtf8_utf8 _),
    length_beBytes 2 _, (ofNat_beNat_port p).symm, rfl⟩, ?_⟩
  · simp
  · simp [formatAuthority_bracketed]

/-! ## All paths -/

/-- What becomes of `[a]:p`. The resolver finds `a` exactly if it is the
system's; then the ACL takes the literal as `a`. With another resolver, and a
DNS server that does not know the name `[a]`, every rule for addresses is passed
over. The SOCKS5 proxy always gets the domain `[a]`, which is read back as the
literal. So the literal never goes through as the address on all paths. -/
theorem ipv6_literal_paths (lib : Libraries) (outside : Outside) (a : BitVec 128) (p : UInt16)
    (hlib : KeepsBrackets lib a p) (hlookup : ReadsLiteral outside a p) :
    (∀ r w, ResolvesLiteral outside a p r w ↔ r = .system) ∧
    (∀ (ω : Type) (acl : AclOutbound ω) protocol w, acl.resolver = .system →
      (acl.select lib outside (literal a p) protocol w).1 =
        .ok (acl.pick (literal a p) (normalizedHost lib (bracketed a)) [.v6 a] p protocol)) ∧
    (∀ (ω : Type) (acl : AclOutbound ω) protocol w, acl.resolver ≠ .system → IpRules acl → NoAnswers outside →
      (acl.select lib outside (literal a p) protocol w).1 = .ok (acl.default, literal a p)) ∧
    (∃ bytes, encodeAddress lib (literal a p) = .ok bytes ∧
      bytes = 3 :: UInt8.ofNat (utf8 (bracketed a)).length :: utf8 (bracketed a) ++ beBytes 2 p.toNat ∧
      decodeAddress bytes 0 = .ok (literal a p, bytes.length)) ∧
    ¬LiteralSurvives lib outside a p := by
  refine ⟨resolvesLiteral_iff hlookup, ?_, ?_, ⟨_, encodeAddress_literal hlib, rfl, ?_⟩, ?_⟩
  · intro ω acl protocol w hr
    rw [select_literal hlib, hr, resolve_system hlookup]
    rfl
  · intro ω acl protocol w hr hrs hno
    rw [select_literal hlib, resolve_dns hr]
    simp only [Resolver.lookup, lookupLoop_noAnswers hno, Option.join_none, Resolved.ips, Option.toList_none,
      append_nil, pick_noAddress hrs]
  · rw [decodeAddress_literal]
    simp
  intro h
  have he := h.encoded
  rw [encodeAddress_literal hlib] at he
  simp at he

def loopbackOutside : Outside :=
  { silentOutside with lookupHost := fun _ _ => .ok [{ ip := .v6 1, port := 443 }] }

theorem keepsBrackets_loopback : KeepsBrackets plainLibraries 1 443 := by
  have hp : parseU16 (showNat (443 : UInt16).toNat) = some 443 := by decide +kernel
  have hs : rsplitOnce ':' (literal 1 443) = some (bracketed 1, showNat (443 : UInt16).toNat) := by decide +kernel
  rfl

theorem ipv6_literal_paths_loopback : ¬LiteralSurvives plainLibraries loopbackOutside 1 443 :=
  (ipv6_literal_paths plainLibraries loopbackOutside 1 443 keepsBrackets_loopback fun _ => rfl).2.2.2.2

/-- The address `::1` is rejected. -/
def loopbackAcl : AclOutbound Bool where
  rules := [⟨false, .ip (.v6 1), .both, 0, 0, none⟩]
  default := true
  resolver := .udp "192.0.2.53:53"

/-- `[::1]:443`, by a DNS server over UDP: two questions and no address, so the rule for `::1` is
passed over; and the SOCKS5 proxy is to look up the domain `[::1]`. -/
theorem ipv6_literal_lost :
    Resolver.resolve loopbackOutside loopbackAcl.resolver (bracketed 1) 443 {} = ({}, { asked := 2, nextId := 3 }) ∧
    (loopbackAcl.select plainLibraries loopbackOutside "[::1]:443".toList .tcp {}).1.toOption =
      some (true, "[::1]:443".toList) ∧
    (encodeAddress plainLibraries "[::1]:443".toList).toOption =
      some [3, 5, 0x5b, 0x3a, 0x3a, 0x31, 0x5d, 1, 187] := by
  decide +kernel

end Hysteria.Proof
