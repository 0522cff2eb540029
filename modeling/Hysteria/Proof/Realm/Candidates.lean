import Mathlib.Data.List.Lex
import Mathlib.Data.List.Pairwise
import Hysteria.Impl.Realm.Punch

/-!
# The addresses that are tried

`candidates_spec`: `candidate_punch_addresses` gives the usable addresses of the peer
(`usablePeers`) and those guessed from the ports of a host (`Guessed`), in ascending
order, whatever the order of the hash map is. The hosts are expanded in the set that
decides which ports are missing, but none looks at the addresses of another
(`foldl_expandHost`).
-/

namespace Hysteria.Proof

open Framework Impl List

variable {x : SocketAddr} {other usable : List SocketAddr}

/-! ## What is to be tried -/

/-- An address as `SocketAddr` has it: an IPv4 address has no scope. -/
def NoScope (address : SocketAddr) : Prop := address.ip.isIpv4 = true → address.scopeId = 0

def familyAllowed (locals : List SocketAddr) : AddrFamily → IpAddr → Bool
  | .ipv4, ip => ip.isIpv4
  | .ipv6, ip => !ip.isIpv4
  | .any, ip => locals = [] ∨ ∃ address ∈ locals, address.ip.isIpv4 = ip.isIpv4

/-- The addresses of the peer with a port and an allowed family. -/
def usablePeers (locals peers : List SocketAddr) (family : AddrFamily) : List SocketAddr :=
  peers.filter fun address => address.port ≠ 0 ∧ familyAllowed locals family address.ip

def hostPorts (usable : List SocketAddr) (ip : IpAddr) : List Nat := (usable.filter (·.ip = ip)).map (·.port.toNat)

/-- There are two ports, and after each but the largest there is one at most four away. -/
def Predictable (ports : List Nat) : Prop :=
  (∃ p ∈ ports, ∃ q ∈ ports, p < q) ∧ ∀ p ∈ ports, (∀ q ∈ ports, q ≤ p) ∨ ∃ q ∈ ports, p < q ∧ q ≤ p + 4

/-- The ports that are not there, from the smallest one to four after the largest. -/
def missingPorts (ports : List Nat) : List Nat :=
  (List.range 65536).filter fun q => q ∉ ports ∧ (∃ p ∈ ports, p ≤ q) ∧ ∃ p ∈ ports, q ≤ p + 4

/-- An address that is guessed from the ports of its host. -/
structure Guessed (ports : List Nat) (address : SocketAddr) : Prop where
  scopeId : address.scopeId = 0
  predictable : Predictable ports
  first : address.port.toNat ∈ (missingPorts ports).take 32

/-- An address to be tried. -/
def Candidate (usable : List SocketAddr) (address : SocketAddr) : Prop :=
  address ∈ usable ∨ address.ip.isIpv4 = true ∧ Guessed (hostPorts usable address.ip) address

/-! ## Ascending sets -/

/-- A `BTreeSet` as the list of its elements. -/
structure Ascending (candidates : List SocketAddr) : Prop where
  sorted : candidates.Pairwise (addressKey · < addressKey ·)
  scope : ∀ address ∈ candidates, NoScope address

variable {addr : SocketAddr} {cands : List SocketAddr}

theorem addressKey_inj {a b : SocketAddr} (ha : NoScope a) (hb : NoScope b) (h : addressKey a = addressKey b) :
    a = b := by
  obtain ⟨ip, port, scopeId⟩ := a
  obtain ⟨ip', port', scopeId'⟩ := b
  cases ip with
  | v4 bits =>
    cases ip' with
    | v4 bits' =>
      simp_all [NoScope, IpAddr.isIpv4, addressKey, BitVec.toNat_inj, UInt16.toNat_inj]
    | v6 bits' => simp [addressKey] at h
  | v6 bits =>
    cases ip' with
    | v4 bits' => simp [addressKey] at h
    | v6 bits' => simp_all [addressKey, BitVec.toNat_inj, UInt16.toNat_inj, UInt32.toNat_inj]

@[simp] theorem mem_btreeInsert : x ∈ btreeInsert addr cands ↔ x = addr ∨ x ∈ cands := by
  fun_induction btreeInsert addr cands <;> simp_all
  grind

theorem Ascending.insert (h : Ascending cands) (ha : NoScope addr) : Ascending (btreeInsert addr cands) := by
  obtain ⟨hsr, hs⟩ := h
  refine ⟨?_, by simpa using ⟨ha, hs⟩⟩
  induction cands with
  | nil => simp [btreeInsert]
  | cons first rest ih =>
    obtain ⟨hf, hr⟩ := pairwise_cons.mp hsr
    unfold btreeInsert
    split_ifs with heq hlt
    · exact hsr
    · grind
    · refine pairwise_cons.mpr ⟨?_, ih hr fun x hx => hs x (mem_cons_of_mem _ hx)⟩
      intro x hx
      obtain rfl | hx := mem_btreeInsert.mp hx
      · grind [lt_of_le_of_ne, addressKey_inj, mem_cons_self]
      · exact hf x hx

theorem Ascending.ext (h : Ascending cands) (h' : Ascending other)
    (hm : ∀ x, x ∈ cands ↔ x ∈ other) : cands = other := by
  have : Std.Irrefl fun a b : SocketAddr => addressKey a < addressKey b := ⟨fun a => lt_irrefl _⟩
  have : Std.Antisymm fun a b : SocketAddr => addressKey a < addressKey b := ⟨fun a b h h' => absurd h' h.not_gt⟩
  exact h.sorted.eq_of_mem_iff h'.sorted hm

/-! ## The ports of a host -/

variable {ports : List Nat}

/-- The gaps between the ports, one after the other. -/
theorem gaps_iff (h : ports.Pairwise (· < ·)) : ((ports.zip ports.tail).all fun (a, b) => b - a ≤ symmetricPortGap) ↔
    ∀ p ∈ ports, (∀ q ∈ ports, q ≤ p) ∨ ∃ q ∈ ports, p < q ∧ q ≤ p + 4 := by
  induction ports with
  | nil => simp
  | cons a rest ih =>
    obtain ⟨ha, hr⟩ := pairwise_cons.mp h
    rcases rest with _ | ⟨b, rest⟩
    · simp
    have hab := ha b mem_cons_self
    have hb : ∀ q ∈ b :: rest, b ≤ q := by
      simpa using fun q hq => ((pairwise_cons.mp hr).1 q hq).le
    rw [tail_cons, zip_cons_cons, all_cons, Bool.and_eq_true, decide_eq_true_eq]
    refine (and_congr_right' (ih hr)).trans ⟨fun ⟨hg, hal⟩ p hp => ?_, fun hal => ⟨?_, fun p hp => ?_⟩⟩
    · obtain rfl | hp := mem_cons.mp hp
      · exact .inr ⟨b, by simp, hab, Nat.sub_le_iff_le_add'.mp hg⟩
      have hap := ha p hp
      exact (hal p hp).imp (fun hm => forall_mem_cons.mpr ⟨hap.le, hm⟩)
        fun ⟨q, hq, hn⟩ => ⟨q, mem_cons_of_mem _ hq, hn⟩
    · obtain hm | ⟨q, hq, hlt, hle⟩ := hal a mem_cons_self
      · exact absurd (hm b (by simp)) hab.not_ge
      obtain rfl | hq := mem_cons.mp hq
      · exact absurd hlt (lt_irrefl q)
      · exact Nat.sub_le_iff_le_add'.mpr ((hb q hq).trans hle)
    · have hap := ha p hp
      obtain hm | ⟨q, hq, hlt, hle⟩ := hal p (mem_cons_of_mem _ hp)
      · grind
      grind

theorem predictablePorts_iff (h : ports.Pairwise (· < ·)) : predictablePorts ports = true ↔ Predictable ports := by
  rw [predictablePorts, Bool.and_eq_true, gaps_iff h, Predictable, decide_eq_true_eq]
  refine and_congr_left fun _ => ?_
  match ports, h with
  | [], _ => simp
  | [a], _ => simp
  | a :: b :: rest, h =>
    grind

/-- The ports that the loop goes through, without those that are there. -/
theorem filter_range' (h : ports.Pairwise (· < ·)) (hne : ports ≠ []) :
    (range' (ports.headD 0) (min (ports.getLastD 0 + symmetricExtraPorts) 65535 + 1 - ports.headD 0)).filter
      (· ∉ ports) = missingPorts ports := by
  have hs {l : List Nat} {f : Nat → Bool} (hl : l.Pairwise (· < ·)) : (l.filter f).Pairwise (· < ·) := hl.filter _
  obtain ⟨first, rest, rfl⟩ := exists_cons_of_ne_nil hne
  have hf (q : Nat) : (∃ p ∈ first :: rest, p ≤ q) ↔ first ≤ q := by
    refine ⟨fun ⟨p, hp, hle⟩ => ?_, fun hle => ⟨first, mem_cons_self, hle⟩⟩
    obtain rfl | hp := mem_cons.mp hp
    · exact hle
    · exact ((pairwise_cons.mp h).1 p hp).le.trans hle
  have hls (q : Nat) : (∃ p ∈ first :: rest, q ≤ p + 4) ↔ q ≤ (first :: rest).getLastD 0 + 4 := by
    have hm : (first :: rest).getLastD 0 ∈ first :: rest := by
      grind
    refine ⟨fun ⟨p, hp, hle⟩ => ?_, fun hle => ⟨_, hm, hle⟩⟩
    have hmx : p ≤ (first :: rest).getLastD 0 := by
      rw [getLastD_eq_getLast?, getLast?_eq_some_getLast hne]
      exact (h.imp Nat.le_of_lt).rel_getLast hp
    omega
  refine (hs (pairwise_lt_range' ..)).eq_of_mem_iff (hs pairwise_lt_range) fun q => ?_
  simp only [missingPorts, mem_filter, mem_range'_1, mem_range, hf, hls, decide_eq_true_eq,
    symmetricExtraPorts, headD_cons]
  grind

theorem eq_address_iff {ip : IpAddr} {p : Nat} (hp : p < 65536) :
    x = { ip, port := UInt16.ofNat p } ↔ x.ip = ip ∧ x.scopeId = 0 ∧ x.port.toNat = p := by
  have hpr : (UInt16.ofNat p).toNat = p := Nat.mod_eq_of_lt hp
  rw [SocketAddr.mk.injEq, ← UInt16.toNat_inj, hpr]
  tauto

/-- The loop over the ports of a host adds the first that are not there. -/
theorem insertPorts_spec {ip : IpAddr} (h : Ascending cands) (hpr : ports.Nodup) (hlt : ∀ p ∈ ports, p < 65536)
    {added : Nat} (ha : added < 32) :
    Ascending (insertPorts ip added ports cands) ∧
      ∀ x, x ∈ insertPorts ip added ports cands ↔ x ∈ cands ∨ x.ip = ip ∧ x.scopeId = 0 ∧
        x.port.toNat ∈ (ports.filter fun p => { ip, port := UInt16.ofNat p } ∉ cands).take (32 - added) := by
  induction ports generalizing added cands with
  | nil => simp [insertPorts, h]
  | cons p ports ih =>
    obtain ⟨hp, hpr⟩ := nodup_cons.mp hpr
    obtain ⟨hpl, hlt⟩ := forall_mem_cons.mp hlt
    have heq (x : SocketAddr) := @eq_address_iff x ip p hpl
    by_cases hm : ({ ip, port := UInt16.ofNat p } : SocketAddr) ∈ cands
    · grind [insertPorts]
    have hi : Ascending (btreeInsert { ip, port := UInt16.ofNat p } cands) := h.insert fun _ => rfl
    rw [insertPorts, if_neg hm, symmetricMaxPortsPerHost, filter_cons_of_pos (by simpa using hm),
      show 32 - added = 32 - (added + 1) + 1 by omega, take_succ_cons]
    by_cases hl : added + 1 = 32
    · simp_all [mem_btreeInsert, or_comm]
    rw [if_neg hl]
    obtain ⟨ho, hs⟩ := ih hi hpr hlt (show added + 1 < 32 by omega)
    refine ⟨ho, fun x => ?_⟩
    have hf : (ports.filter fun q => { ip, port := UInt16.ofNat q } ∉
        btreeInsert { ip, port := UInt16.ofNat p } cands) =
        ports.filter fun q => { ip, port := UInt16.ofNat q } ∉ cands := by
      refine filter_congr fun q hq => ?_
      have hne : (UInt16.ofNat q).toNat ≠ p := by
        rw [show (UInt16.ofNat q).toNat = q from Nat.mod_eq_of_lt (hlt q hq)]
        rintro rfl
        exact hp hq
      simp_all
    rw [hs, hf, mem_btreeInsert, heq, mem_cons]
    tauto

/-! ## The hosts -/

theorem guessed_congr {other : List Nat} (h : ∀ q, q ∈ ports ↔ q ∈ other) :
    Guessed ports addr ↔ Guessed other addr := by
  have hp : Predictable ports ↔ Predictable other := by simp only [Predictable, h]
  have hm : missingPorts ports = missingPorts other := by simp only [missingPorts, h]
  exact ⟨fun hx => ⟨hx.scopeId, hp.mp hx.predictable, hm ▸ hx.first⟩,
    fun hx => ⟨hx.scopeId, hp.mpr hx.predictable, hm.symm ▸ hx.first⟩⟩

variable {host : IpAddr × List Nat} {hosts : List (IpAddr × List Nat)}

/-- The ports of the host are those that the candidates have for it. -/
def HostOf (candidates : List SocketAddr) (host : IpAddr × List Nat) : Prop :=
  ∀ q, q ∈ host.2 ↔ q < 65536 ∧ { ip := host.1, port := UInt16.ofNat q } ∈ candidates

theorem expandHost_spec (h : Ascending cands) (hh : HostOf cands host) : Ascending (expandHost cands host) ∧
      ∀ x, x ∈ expandHost cands host ↔ x ∈ cands ∨ x.ip = host.1 ∧ Guessed host.2 x := by
  have hm (q : Nat) : q ∈ (host.2.insertionSort (· ≤ ·)).dedup ↔ q ∈ host.2 := by
    rw [mem_dedup, mem_insertionSort]
  have hs : (host.2.insertionSort (· ≤ ·)).dedup.Pairwise (· < ·) := by
    have hle := (pairwise_insertionSort (· ≤ ·) host.2).sublist (dedup_sublist _)
    exact (hle.and (nodup_dedup _)).imp fun hab => lt_of_le_of_ne hab.1 hab.2
  unfold expandHost
  extract_lets ports first last
  have hg (x : SocketAddr) : Guessed ports x ↔ Guessed host.2 x := guessed_congr hm
  simp only [← hg]
  split
  · rename_i hp
    have hne : ports ≠ [] := fun hn => by
      rw [hn] at hp
      cases hp
    have hr : ∀ q ∈ range' first (last + 1 - first), q < 65536 := by
      grind
    have hf : ((range' first (last + 1 - first)).filter fun p =>
        { ip := host.1, port := UInt16.ofNat p } ∉ cands) = missingPorts ports := by
      rw [← filter_range' hs hne]
      refine filter_congr fun q hq => ?_
      simp only [hm, hh q, hr q hq, true_and]
    obtain ⟨ho, hsp⟩ := @insertPorts_spec cands _ host.1 h (nodup_range' ..) hr 0 (by decide)
    refine ⟨ho, fun x => ?_⟩
    rw [hsp, hf]
    exact or_congr_right (and_congr_right' ⟨fun hx => ⟨hx.1, (predictablePorts_iff hs).mp hp, hx.2⟩,
      fun hx => ⟨hx.scopeId, hx.first⟩⟩)
  · rename_i hp
    have hnt (x : SocketAddr) : ¬Guessed ports x := fun hx =>
      hp ((predictablePorts_iff hs).mpr hx.predictable)
    grind

/-- The hosts do not meet: each is expanded as if it were the only one. -/
theorem foldl_expandHost (h : Ascending cands) (hn : (hosts.map Prod.fst).Nodup)
    (hh : ∀ host ∈ hosts, HostOf cands host) :
    Ascending (hosts.foldl expandHost cands) ∧ ∀ x, x ∈ hosts.foldl expandHost cands ↔
        x ∈ cands ∨ ∃ host ∈ hosts, x.ip = host.1 ∧ Guessed host.2 x := by
  induction hosts generalizing cands with
  | nil => simpa using h
  | cons host hosts ih =>
    obtain ⟨hhs, hh⟩ := forall_mem_cons.mp hh
    obtain ⟨hnw, hn⟩ := nodup_cons.mp hn
    obtain ⟨hor, hs⟩ := expandHost_spec h hhs
    have hlocals' : ∀ other ∈ hosts, HostOf (expandHost cands host) other := by
      intro other ho q
      have hne : other.1 ≠ host.1 := fun heq => hnw (heq ▸ mem_map_of_mem ho)
      rw [hh other ho q, hs]
      grind
    obtain ⟨hord', hspec'⟩ := ih hor hn hlocals'
    refine ⟨hord', fun x => ?_⟩
    grind

/-! ## All candidates -/

variable {locals peers : List SocketAddr} {fam : AddrFamily}

theorem allows_new (locals : List SocketAddr) (fam : AddrFamily) (ip : IpAddr) :
    (PunchFamilies.new locals fam).allows ip = familyAllowed locals fam ip := by
  cases fam with
  | ipv4 => cases ip <;> rfl
  | ipv6 => cases ip <;> rfl
  | any =>
    rw [Bool.eq_iff_iff]
    rcases locals with _ | ⟨first, rest⟩
    · cases ip <;> simp [PunchFamilies.new, PunchFamilies.allows, familyAllowed]
    · cases hip : ip.isIpv4 <;> cases hf : first.ip.isIpv4 <;>
        simp [PunchFamilies.new, PunchFamilies.allows, familyAllowed, hip, hf]

/-- The set that the loop over the hosts starts with. -/
def peerCandidates (locals peers : List SocketAddr) (family : AddrFamily) : List SocketAddr :=
  (usablePeers locals peers family).foldr btreeInsert []

/-- The hash map of the ports by host, in one of its orders. -/
def portsByIp (candidates : List SocketAddr) : List (IpAddr × List Nat) :=
  ((candidates.filter (·.ip.isIpv4)).map (·.ip)).dedup.map fun ip =>
    (ip, ((candidates.filter (·.ip.isIpv4)).filter (·.ip = ip)).map (·.port.toNat))

theorem candidatePunchAddresses_eq : candidatePunchAddresses locals peers fam =
    (portsByIp (peerCandidates locals peers fam)).foldl expandHost
      (peerCandidates locals peers fam) := by
  unfold candidatePunchAddresses
  simp only [allows_new]
  rfl

theorem mem_foldr_btreeInsert : x ∈ usable.foldr btreeInsert [] ↔ x ∈ usable := by
  induction usable with
  | nil => rfl
  | cons addr usable ih => simp_all

theorem ascending_foldr (h : ∀ addr ∈ usable, NoScope addr) : Ascending (usable.foldr btreeInsert []) := by
  induction usable with
  | nil => exact ⟨.nil, by simp⟩
  | cons addr usable ih =>
    obtain ⟨ha, h⟩ := forall_mem_cons.mp h
    exact (ih h).insert ha

theorem mem_hostPorts {ip : IpAddr} {q : Nat} :
    q ∈ hostPorts usable ip ↔ ∃ addr ∈ usable, addr.ip = ip ∧ addr.port.toNat = q := by
  simp [hostPorts, and_assoc]

theorem of_mem_portsByIp (h : host ∈ portsByIp cands) :
    host.1.isIpv4 = true ∧ ∀ q, q ∈ host.2 ↔ q ∈ hostPorts cands host.1 := by
  obtain ⟨ip, hip, rfl⟩ := mem_map.mp h
  obtain ⟨addr, ha, rfl⟩ := mem_map.mp (mem_dedup.mp hip)
  have hv4 := (mem_filter.mp ha).2
  refine ⟨hv4, fun q => ?_⟩
  rw [mem_hostPorts]
  grind

theorem exists_mem_portsByIp (h : addr ∈ cands) (hv4 : addr.ip.isIpv4 = true) :
    ∃ host ∈ portsByIp cands, host.1 = addr.ip :=
  ⟨_, mem_map_of_mem (mem_dedup.mpr (mem_map_of_mem (mem_filter.mpr ⟨h, hv4⟩))), rfl⟩

theorem hostOf_portsByIp (h : Ascending cands) (hh : host ∈ portsByIp cands) : HostOf cands host := by
  obtain ⟨hv4, hp⟩ := of_mem_portsByIp hh
  intro q
  rw [hp, mem_hostPorts]
  constructor
  · rintro ⟨x, hx, hip, rfl⟩
    refine ⟨x.port.toNat_lt, ?_⟩
    rwa [← eq_address_iff x.port.toNat_lt |>.mpr ⟨hip, h.scope x hx (hip ▸ hv4), rfl⟩]
  · rintro ⟨hq, hx⟩
    exact ⟨_, hx, rfl, Nat.mod_eq_of_lt hq⟩

/-- Whatever order the hosts come in. -/
theorem foldl_portsByIp (hs : ∀ addr ∈ peers, NoScope addr)
    (hhs : hosts.Perm (portsByIp (peerCandidates locals peers fam))) :
    Ascending (hosts.foldl expandHost (peerCandidates locals peers fam)) ∧
      ∀ x, x ∈ hosts.foldl expandHost (peerCandidates locals peers fam) ↔
        Candidate (usablePeers locals peers fam) x := by
  set usable := usablePeers locals peers fam
  set base := peerCandidates locals peers fam
  have hb (x : SocketAddr) : x ∈ base ↔ x ∈ usable := mem_foldr_btreeInsert
  have ho : Ascending base := ascending_foldr fun x hx => hs x (mem_filter.mp hx).1
  have hpr {host : IpAddr × List Nat} (hh : host ∈ hosts) (q : Nat) :
      q ∈ host.2 ↔ q ∈ hostPorts usable host.1 := by
    grind [of_mem_portsByIp, mem_hostPorts]
  have hn : (hosts.map Prod.fst).Nodup := by
    rw [(hhs.map Prod.fst).nodup_iff, portsByIp, map_map]
    exact (map_id _).symm ▸ nodup_dedup _
  obtain ⟨hr, hsp⟩ := foldl_expandHost ho hn fun host hh =>
    hostOf_portsByIp ho (hhs.mem_iff.mp hh)
  refine ⟨hr, fun x => ?_⟩
  rw [hsp, hb]
  refine or_congr_right ⟨fun ⟨host, hh, hip, hx⟩ => ?_, fun ⟨hv4, hx⟩ => ?_⟩
  · grind [of_mem_portsByIp, guessed_congr]
  obtain ⟨p, hp, -⟩ := hx.predictable.1
  obtain ⟨addr, ha, hip, -⟩ := mem_hostPorts.mp hp
  obtain ⟨host, hh, hht⟩ := exists_mem_portsByIp ((hb addr).mpr ha) (hip ▸ hv4)
  grind [guessed_congr]

theorem Candidate.congr (hm : ∀ x, x ∈ usable ↔ x ∈ other) : Candidate usable addr ↔ Candidate other addr := by
  refine or_congr (hm addr) (and_congr_right' (guessed_congr fun q => ?_))
  simp only [mem_hostPorts, hm]

/-- No port is guessed below those of the peer. -/
theorem Candidate.port_ne (h : Candidate usable addr) (hu : ∀ x ∈ usable, x.port ≠ 0) : addr.port ≠ 0 := by
  obtain h | ⟨-, h⟩ := h
  · exact hu addr h
  obtain ⟨-, ⟨p, hp, hle⟩, -⟩ := of_decide_eq_true (mem_filter.mp (mem_of_mem_take h.first)).2
  obtain ⟨x, hx, -, rfl⟩ := mem_hostPorts.mp hp
  intro heq
  rw [heq] at hle
  exact hu x hx (UInt16.toNat_inj.mp (Nat.le_zero.mp hle))

/-- The candidates are what they should be, and nothing but the sets of addresses decides it. -/
theorem candidates_spec (locals peers : List SocketAddr) (family : AddrFamily)
    (hscope : ∀ address ∈ peers, NoScope address) :
    (candidatePunchAddresses locals peers family).Pairwise (addressKey · < addressKey ·) ∧
    (∀ x, x ∈ candidatePunchAddresses locals peers family ↔ Candidate (usablePeers locals peers family) x) ∧
    (∀ x ∈ candidatePunchAddresses locals peers family, x.port ≠ 0) ∧
    (∀ hosts : List (IpAddr × List Nat), hosts.Perm (portsByIp (peerCandidates locals peers family)) →
      hosts.foldl expandHost (peerCandidates locals peers family) = candidatePunchAddresses locals peers family) ∧
    ∀ locals' peers', (∀ x, x ∈ locals' ↔ x ∈ locals) → (∀ x, x ∈ peers' ↔ x ∈ peers) →
      candidatePunchAddresses locals' peers' family = candidatePunchAddresses locals peers family := by
  have hs (locals : List SocketAddr) {peers : List SocketAddr} (hscope : ∀ address ∈ peers, NoScope address) :=
    @foldl_portsByIp _ locals peers family hscope (.refl _)
  simp only [← candidatePunchAddresses_eq] at hs
  obtain ⟨ho, hm⟩ := hs locals hscope
  have hu : ∀ x ∈ usablePeers locals peers family, x.port ≠ 0 := fun x hx =>
    (of_decide_eq_true (mem_filter.mp hx).2).1
  refine ⟨ho.sorted, hm, fun x hx => ((hm x).mp hx).port_ne hu, fun hosts hh => ?_, fun locals' peers' hl hp => ?_⟩
  · obtain ⟨hord', hmem'⟩ := foldl_portsByIp hscope hh
    exact hord'.ext ho fun x => (hmem' x).trans (hm x).symm
  obtain ⟨hord', hmem'⟩ := hs locals' fun x hx => hscope x ((hp x).mp hx)
  have hf (ip : IpAddr) : familyAllowed locals' family ip = familyAllowed locals family ip := by
    cases family <;> simp only [familyAllowed, eq_nil_iff_forall_not_mem, hl]
  have hsm (x : SocketAddr) : x ∈ usablePeers locals' peers' family ↔ x ∈ usablePeers locals peers family := by
    simp only [usablePeers, mem_filter, hp, hf]
  exact hord'.ext ho fun x => (hmem' x).trans ((Candidate.congr hsm).trans (hm x).symm)

/-- Two near ports of a host; the four after them are tried as well. -/
theorem candidates_spec_two_ports :
    candidatePunchAddresses [] [⟨.v4 1, 2002, 0⟩, ⟨.v6 1, 443, 2⟩, ⟨.v4 1, 2000, 0⟩, ⟨.v4 1, 2002, 0⟩] .any =
        candidatePunchAddresses [] [⟨.v6 1, 443, 2⟩, ⟨.v4 1, 2000, 0⟩, ⟨.v4 1, 2002, 0⟩] .any ∧
      ⟨.v4 1, 2006, 0⟩ ∈ candidatePunchAddresses [] [⟨.v6 1, 443, 2⟩, ⟨.v4 1, 2000, 0⟩, ⟨.v4 1, 2002, 0⟩] .any := by
  refine ⟨(candidates_spec [] _ .any ?_).2.2.2.2 _ _ (by simp) (by simp [or_comm]), by decide +kernel⟩
  simp [NoScope, IpAddr.isIpv4]

end Hysteria.Proof
