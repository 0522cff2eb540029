import Hysteria.Proof.Tun.AllOrNothing
import Hysteria.Spec.Routing

/-!
# What TUN exclusions keep of the routing

After an installation the table holds the routes it had, a copy of a route for
every exclusion and the routes through the device (`mem_after`). Where no route
longer than an exclusion covers an address, all the routes that cover the address
cover the exclusion as a whole (`forwards_iff_whole`), so that the table had one
answer for all such addresses. The copy gives that answer or another one:
`exclusions_kept_iff`.
-/

namespace Hysteria.Proof

open Framework Impl Spec List

variable {rt : Route}

/-! ## The new routes -/

section Routes

variable (plat : Platform) (base : Route) (p : IpPrefix) (ti : UInt32) (table : Option UInt8)
  (ip : IpAddr)

@[simp] theorem copyRoute_contains : (copyRoute plat base p).contains ip = covers p ip := by
  cases plat <;> rfl

@[simp] theorem copyRoute_prefixLength : (copyRoute plat base p).prefixLength = p.2 := by
  cases plat <;> rfl

@[simp] theorem hop_copyRoute : hop (copyRoute plat base p) = hop base := by
  cases plat <;> rfl

@[simp] theorem tunRoute_contains : (tunRoute plat ti table p).contains ip = covers p ip := by
  cases plat <;> rfl

@[simp] theorem tunRoute_prefixLength : (tunRoute plat ti table p).prefixLength = p.2 := by
  cases plat <;> rfl

@[simp] theorem hop_tunRoute : hop (tunRoute plat ti table p) = ⟨none, some ti, none⟩ := by
  cases plat <;> rfl

end Routes

/-! ## The table after an installation -/

section After

variable {plat : Platform} {txts : RouteTexts} {faults : RouteFaults} {ti : UInt32}
  {cfg : TunRouteConfig} {parsed : ParsedTunRoutes} {ipv4Address : BitVec 32 × UInt8}
  {ipv6Address : BitVec 128 × UInt8} {kernel after : Kernel} {rts : RouteSet}

/-- The copy for an exclusion. -/
def exclusionRoute (platform : Platform) (original : List Route) (tunIndex : UInt32) (e : IpPrefix) : Option Route :=
  (baseRoute original tunIndex e.1).map fun base => copyRoute platform base e

theorem foldl_routes (added : List Route) (kernel : Kernel) :
    (added.foldl (fun kernel rt => { kernel with routes := kernel.routes ++ [rt] }) kernel).routes =
      kernel.routes ++ added := by
  induction added generalizing kernel with
  | nil => simp
  | cons rt added ih => simp [ih]

theorem addRoutes_ok {table : Option UInt8} {orig : List Route} {added : UndoLog Kernel Route}
    (h : addRoutes plat faults ti orig table parsed ⟨kernel, []⟩ = (.ok (), added)) :
    ∃ copies, parsed.excluded.map (exclusionRoute plat orig ti) = copies.map some ∧
      added.state.routes = kernel.routes ++ copies ++ parsed.included.map (tunRoute plat ti table) := by
  rw [addRoutes] at h
  split at h
  next => cases h
  next excluded he =>
    obtain ⟨copies, hc, rfl⟩ := UndoLog.runEach_forall₂ he fun _ _ _ _ _ ha =>
      ⟨(addExclusion_ok ha).1, (addRoute_ok (addExclusion_ok ha).2).1⟩
    obtain ⟨through, ht, rfl⟩ := UndoLog.runEach_forall₂ h fun _ _ _ _ _ ha =>
      ⟨(addInclusion_ok ha).1, (addRoute_ok (addInclusion_ok ha).2).1⟩
    have hs : List.Forall₂ (· = ·) (parsed.excluded.map (exclusionRoute plat orig ti))
        (copies.map some) := by
      rw [forall₂_map_left_iff, forall₂_map_right_iff]
      refine hc.imp ?_
      rintro e rt ⟨base, hb, hrt⟩
      simp [exclusionRoute, hb, hrt]
    have hm := forall₂_map_left_iff.mpr (ht.imp fun _ _ h => h.symm)
    rw [forall₂_eq_eq_eq] at hs hm
    grind [foldl_routes]

/-- The routes after an installation: those before, the copies and those through the device. -/
theorem install_routes (hp : cfg.parsed txts = .ok parsed) (hs : cfg.strict = false)
    (h : RouteSet.install plat txts faults ti cfg ipv4Address ipv6Address kernel = (.ok rts, after)) :
    ∃ copies, parsed.excluded.map (exclusionRoute plat kernel.routes ti) = copies.map some ∧
      after.routes = kernel.routes ++ copies ++ parsed.included.map (tunRoute plat ti none) := by
  obtain ⟨parsed', table, added, hparsed', ht, hr, hpl, -⟩ := routeSet_install_ok h
  cases hp.symm.trans hparsed'
  have hn : table = none := by
    cases plat <;> simp [strictTable, hs] at ht <;> exact ht.symm
  subst hn
  have ha : after = added.state := by
    cases plat <;> simp [installPolicy, hs] at hpl <;> exact hpl.2.symm
  rw [ha]
  exact addRoutes_ok hr

end After

/-! ## Addresses that only short routes cover -/

section Whole

variable {table : List Route} {e : IpPrefix} {ip : IpAddr} {h : Hop}

theorem longestRoute_iff : LongestRoute table ip rt ↔ rt ∈ table ∧ rt.contains ip ∧
    ∀ other ∈ table, other.contains ip → other.prefixLength ≤ rt.prefixLength := by
  simp only [LongestRoute, Longest, UInt8.le_iff_toNat_le]

theorem covers_self (e : IpPrefix) : covers e e.1 := IpAddr.samePrefix_refl _ _

theorem contains_eq_of_covers (hc : covers e ip)
    (hle : rt.prefixLength.toNat ≤ e.2.toNat) : rt.contains ip = rt.contains e.1 := by
  have hs := IpAddr.samePrefix_of_le hle hc
  exact Bool.eq_iff_iff.mpr
    ⟨fun h => IpAddr.samePrefix_trans h (IpAddr.samePrefix_symm hs), fun h => IpAddr.samePrefix_trans h hs⟩

/-- Addresses that no route longer than a prefix covers all have the routes of the whole prefix. -/
theorem forwards_iff_whole (hc : covers e ip) (hsh : ∀ rt ∈ table, rt.contains ip → rt.prefixLength ≤ e.2) :
    Forwards table ip h ↔ ForwardsWhole table e h := by
  have hl (rt : Route) : LongestRoute table ip rt ↔
      LongestRoute (table.filter fun rt => rt.prefixLength.toNat ≤ e.2.toNat) e.1 rt :=
    longest_iff_of_le (fun _ hle => contains_eq_of_covers hc hle)
      fun rt hm hcn => UInt8.le_iff_toNat_le.mp (hsh rt hm hcn)
  simp only [ForwardsWhole, Forwards, hl]

end Whole

/-! ## Exclusions -/

section Kept

variable {plat : Platform} {ti : UInt32} {excluded included : List IpPrefix}
  {before copies after : List Route}

theorem mem_copies (hc : excluded.map (exclusionRoute plat before ti) = copies.map some) :
    rt ∈ copies ↔ ∃ e ∈ excluded, ∃ base, baseRoute before ti e.1 = some base ∧
      copyRoute plat base e = rt := by
  have hm : some rt ∈ copies.map some ↔ rt ∈ copies := by simp
  rw [← hm, ← hc]
  simp only [mem_map, exclusionRoute, Option.map_eq_some_iff]

theorem exists_copy (hc : excluded.map (exclusionRoute plat before ti) = copies.map some)
    {e : IpPrefix} (he : e ∈ excluded) : ∃ base, baseRoute before ti e.1 = some base ∧
      copyRoute plat base e ∈ copies := by
  have hm := hc ▸ mem_map_of_mem he
  obtain ⟨rt, hrt, heq⟩ := mem_map.mp hm
  obtain ⟨base, hb, rfl⟩ := Option.map_eq_some_iff.mp heq.symm
  exact ⟨base, hb, hrt⟩

/-- Two prefixes of one length that share an address cover each other. -/
theorem covers_of_common {p q : IpPrefix} {ip : IpAddr} (hl : q.2 = p.2) (hp : covers p ip)
    (hq : covers q ip) : covers p q.1 := by
  rw [covers, hl] at hq
  exact IpAddr.samePrefix_trans hp (IpAddr.samePrefix_symm hq)

/-- A route as long as the exclusion is chosen for the addresses left to it, so that
keeping their forwarding means to lead where the exclusion as a whole was sent. -/
theorem forwardsWhole_of_keeps {e : IpPrefix} {ip : IpAddr} (hs : before ⊆ after) (hc : covers e ip)
    (hsh : ∀ rt ∈ after, rt.contains ip → rt.prefixLength ≤ e.2) (hk : KeepsForwarding before after ip)
    (hrt : rt ∈ after) (hl : rt.prefixLength = e.2) (hcn : rt.contains e.1) : ForwardsWhole before e (hop rt) := by
  have hip : rt.contains ip := by rwa [contains_eq_of_covers hc (by rw [hl])]
  have hln : LongestRoute after ip rt := longestRoute_iff.mpr ⟨hrt, hip, fun other ho hcn => hl ▸ hsh other ho hcn⟩
  exact (forwards_iff_whole hc fun r hr => hsh r (hs hr)).mp (hk.2 _ ⟨rt, hln, rfl⟩)

theorem mem_after (ha : after = before ++ copies ++ included.map (tunRoute plat ti none)) : rt ∈ after ↔
      rt ∈ before ∨ rt ∈ copies ∨ ∃ q ∈ included, tunRoute plat ti none q = rt := by
  simp [ha]

/-- No longer route covers an address afterwards if none did before and no configured prefix does. -/
theorem noneLonger_iff (hcs : excluded.map (exclusionRoute plat before ti) = copies.map some)
    (ha : after = before ++ copies ++ included.map (tunRoute plat ti none)) {len : UInt8} {ip : IpAddr} :
    NoneLonger before (excluded ++ included) len ip ↔ ∀ rt ∈ after, rt.contains ip → rt.prefixLength ≤ len := by
  constructor
  · rintro ⟨hb, hp⟩ rt hrt hcn
    rcases (mem_after ha).mp hrt with hrt | hrt | ⟨q, hq, rfl⟩
    · exact hb rt hrt hcn
    · obtain ⟨e, he, base, -, rfl⟩ := (mem_copies hcs).mp hrt
      rw [copyRoute_contains] at hcn
      rw [copyRoute_prefixLength]
      exact hp e (mem_append_left _ he) hcn
    · rw [tunRoute_contains] at hcn
      rw [tunRoute_prefixLength]
      exact hp q (mem_append_right _ hq) hcn
  · intro hle
    refine ⟨fun rt hrt => hle rt ((mem_after ha).mpr (.inl hrt)), fun p hp hcv => ?_⟩
    rcases mem_append.mp hp with he | hq
    · obtain ⟨base, -, hcy⟩ := exists_copy hcs he
      have hl := hle _ ((mem_after ha).mpr (.inr (.inl hcy)))
      rw [copyRoute_contains, copyRoute_prefixLength] at hl
      exact hl hcv
    · have hl := hle _ ((mem_after ha).mpr (.inr (.inr ⟨p, hq, rfl⟩)))
      rw [tunRoute_contains, tunRoute_prefixLength] at hl
      exact hl hcv

theorem copiesWhole_of_kept (hcp : excluded.map (exclusionRoute plat before ti) = copies.map some)
    (ha : after = before ++ copies ++ included.map (tunRoute plat ti none)) {e : IpPrefix}
    (hkp : ExclusionKept before after included e) (hlf : Unshadowed before (excluded ++ included) e) :
    CopiesWhole ti before excluded included e := by
  obtain ⟨ip, hc, hn⟩ := hlf
  have hk : KeepsForwarding before after ip := hkp ip hc fun q hq hcq => hn.2 q (mem_append_right _ hq) hcq
  have hsh := (noneLonger_iff hcp ha).mp hn
  have hs : before ⊆ after := fun rt hrt => (mem_after ha).mpr (.inl hrt)
  have hwh (rt : Route) (hrt : rt ∈ after) (hl : rt.prefixLength = e.2)
      (hcn : rt.contains e.1) : ForwardsWhole before e (hop rt) :=
    forwardsWhole_of_keeps hs hc hsh hk hrt hl hcn
  constructor
  · intro e' he' hl hcov' base hb
    have hcy := (mem_copies hcp).mpr ⟨e', he', base, hb, rfl⟩
    have hw := hwh _ ((mem_after ha).mpr (.inr (.inl hcy))) (by simpa using hl)
      (by simpa using covers_of_common hl.symm (covers_self e') hcov')
    rwa [hop_copyRoute] at hw
  · intro q hq hl hcov'
    have hw := hwh _ ((mem_after ha).mpr (.inr (.inr ⟨q, hq, rfl⟩))) (by simpa using hl)
      (by simpa using covers_of_common hl.symm (covers_self q) hcov')
    rwa [hop_tunRoute] at hw

theorem kept_of_copiesWhole (hcs : excluded.map (exclusionRoute plat before ti) = copies.map some)
    (ha : after = before ++ copies ++ included.map (tunRoute plat ti none))
    (hwh : ∀ e ∈ excluded, Unshadowed before (excluded ++ included) e →
      CopiesWhole ti before excluded included e)
    {e : IpPrefix} (he : e ∈ excluded) : ExclusionKept before after included e := by
  intro ip hcv hi
  have hs : before ⊆ after := fun rt hrt => (mem_after ha).mpr (.inl hrt)
  obtain ⟨base, hbs, hcp⟩ := exists_copy hcs he
  have hcp := (mem_after ha).mpr (.inr (.inl hcp))
  have hc : (copyRoute plat base e).contains ip := by simpa using hcv
  constructor
  · obtain ⟨rt, hl⟩ := exists_longest hcp hc
    exact ⟨_, rt, hl, rfl⟩
  rintro _ ⟨rt, hl, rfl⟩
  obtain ⟨hrt, hcn, hm⟩ := longestRoute_iff.mp hl
  rcases (mem_after ha).mp hrt with hb | hco | ⟨q, hq, rfl⟩
  · exact ⟨rt, hl.of_subset hs hb, rfl⟩
  · -- the copy for some exclusion, which no route longer than it covers the address with
    obtain ⟨e', he', base', hbase', rfl⟩ := (mem_copies hcs).mp hco
    rw [copyRoute_contains] at hcn
    rw [copyRoute_prefixLength] at hm
    have hun : Unshadowed before (excluded ++ included) e' := ⟨ip, hcn, (noneLonger_iff hcs ha).mpr hm⟩
    rw [hop_copyRoute, forwards_iff_whole hcn fun rt hrt => hm rt (hs hrt)]
    exact (hwh e' he' hun).1 e' he' rfl (covers_self e') base' hbase'
  · -- a route through the device, no longer than the exclusion and no shorter than its copy
    rw [tunRoute_contains] at hcn
    rw [tunRoute_prefixLength] at hm
    have hge : e.2 ≤ q.2 := by simpa using hm _ hcp hc
    have hln : q.2 = e.2 := UInt8.le_antisymm (hi q hq hcn) hge
    rw [hln] at hm
    have hun : Unshadowed before (excluded ++ included) e := ⟨ip, hcv, (noneLonger_iff hcs ha).mpr hm⟩
    rw [hop_tunRoute, forwards_iff_whole hcv fun rt hrt => hm rt (hs hrt)]
    exact (hwh e he hun).2 q hq hln (covers_of_common hln hcv hcn)

end Kept

/-- In non-strict mode the exclusions keep the routing of their addresses exactly if,
for every exclusion that has an address left to it, the route it is copied from leads
where the table sent the exclusion as a whole, and so does the device if the exclusion
is also routed through it. -/
theorem exclusions_kept_iff {platform : Platform} {texts : RouteTexts} {faults : RouteFaults} {tunIndex : UInt32}
    {config : TunRouteConfig} {parsed : ParsedTunRoutes} {ipv4Address : BitVec 32 × UInt8}
    {ipv6Address : BitVec 128 × UInt8} {kernel after : Kernel} {routes : RouteSet}
    (hparsed : config.parsed texts = .ok parsed) (hstrict : config.strict = false)
    (h : RouteSet.install platform texts faults tunIndex config ipv4Address ipv6Address kernel =
      (.ok routes, after)) :
    (∀ e ∈ parsed.excluded, ExclusionKept kernel.routes after.routes parsed.included e) ↔
      ∀ e ∈ parsed.excluded, Unshadowed kernel.routes (parsed.excluded ++ parsed.included) e →
        CopiesWhole tunIndex kernel.routes parsed.excluded parsed.included e := by
  obtain ⟨copies, hc, ha⟩ := install_routes hparsed hstrict h
  constructor
  · intro hkp e he hun
    exact copiesWhole_of_kept hc ha (hkp e he) hun
  · intro hwh e he
    exact kept_of_copiesWhole hc ha hwh he

section Example

/-- Texts that the inputs below do not reach. -/
def plainTexts : RouteTexts := ⟨id, id, id⟩

/-- A system that refuses nothing new. -/
def noFaults : RouteFaults :=
  { openManager := none, list := none, add := fun _ => none, present := [],
    policy := { list := none, add := fun _ => none, present := [] }, filters := none }

/-- `0.0.0.0/0 via 192.168.0.1`, through interface 2. -/
def defaultRoute : Route :=
  { destination := .v4 0, prefixLength := 0, gateway := some (.v4 0xc0a80001), ifIndex := some 2, table := 254 }

/-- `10.0.0.0/24 via 192.168.0.2`, through interface 3. -/
def narrowRoute : Route :=
  { destination := .v4 0x0a000000, prefixLength := 24, gateway := some (.v4 0xc0a80002), ifIndex := some 3,
    table := 254 }

/-- Everything through the device, in halves as it is written beside a default route, but `10.0.0.0/8`. -/
def excludeTen : TunRouteConfig :=
  { ipv4 := ["0.0.0.0/1", "128.0.0.0/1"], ipv6 := ["::/1", "8000::/1"], ipv4Exclude := ["10.0.0.0/8"] }

def parsedTen : ParsedTunRoutes :=
  { ipv4 := [(.v4 0, 1), (.v4 0x80000000, 1)], ipv6 := [(.v6 0, 1), (.v6 (0x8000 <<< 112), 1)],
    ipv4Exclude := [(.v4 0x0a000000, 8)], ipv6Exclude := [] }

/-- The network `10.0.0.0/24` has a route of its own, and the whole of `10.0.0.0/8`
then follows it: `10.5.5.5` used to go through the gateway of the default route. -/
theorem exclusion_follows_narrow_route : let kernel : Kernel := ⟨[defaultRoute, narrowRoute], [], []⟩
    let result := RouteSet.install .linux plainTexts noFaults 9 excludeTen (0x64646465, 30) (0, 126) kernel
    excludeTen.parsed plainTexts = .ok parsedTen ∧ (∃ rts, result.1 = .ok rts) ∧
      ¬ ∀ e ∈ parsedTen.excluded, ExclusionKept kernel.routes result.2.routes parsedTen.included e := by
  refine ⟨rfl, ⟨_, rfl⟩, fun hkp => ?_⟩
  have hk := hkp (.v4 0x0a000000, 8) (by decide) (.v4 0x0a050505) (by decide) (by decide)
  have hf := hk.2 (hop narrowRoute) (by decide)
  exact absurd hf (by decide)

/-- With the default route only, the exclusion is kept. -/
theorem exclusions_kept_with_default_route :
    let added := copyRoute .linux defaultRoute (.v4 0x0a000000, 8) :: parsedTen.included.map (tunRoute .linux 9 none)
    RouteSet.install .linux plainTexts noFaults 9 excludeTen (0x64646465, 30) (0, 126)
        ⟨[defaultRoute], [], []⟩ = (.ok ⟨added, none⟩, ⟨defaultRoute :: added, [], []⟩) ∧
      ∀ e ∈ parsedTen.excluded, ExclusionKept [defaultRoute] (defaultRoute :: added) parsedTen.included e := by
  intro added
  have hp : excludeTen.parsed plainTexts = .ok parsedTen := rfl
  have hi : RouteSet.install .linux plainTexts noFaults 9 excludeTen (0x64646465, 30) (0, 126)
      ⟨[defaultRoute], [], []⟩ = (.ok ⟨added, none⟩, ⟨defaultRoute :: added, [], []⟩) := rfl
  refine ⟨hi, (exclusions_kept_iff hp rfl hi).mpr ?_⟩
  intro e he _
  obtain rfl : e = (.v4 0x0a000000, 8) := by simpa [parsedTen, ParsedTunRoutes.excluded] using he
  constructor
  · intro e' he' _ _ base hb
    obtain rfl : e' = (.v4 0x0a000000, 8) := by simpa [parsedTen, ParsedTunRoutes.excluded] using he'
    have hd : baseRoute [defaultRoute] 9 (.v4 0x0a000000) = some defaultRoute := rfl
    cases hd.symm.trans hb
    decide
  · decide

end Example

end Hysteria.Proof
