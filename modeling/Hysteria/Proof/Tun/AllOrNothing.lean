import Hysteria.Impl.Tun.Routes

/-!
# Routes and rules are installed all or nothing

Every addition is undone by the deletion of the same entry (`deleteRule_of_addRule`,
`addRoute_ok`), so that the loops keep what dropping the entries recorded so far
leads back to (`UndoLog.restored_runEach`). The policy is dropped before the
routes and does not touch them.
-/

namespace Hysteria.Proof

open Framework Impl

/-! ## Policy rules -/

theorem deleteRule_of_addRule {faults : RuleFaults} {cnt : Nat} {rule added : RuleMessage}
    {rules rules' : List RuleMessage} (h : addRule faults cnt rule rules = .ok (added, rules')) :
    deleteRule added rules' = rules := by
  rw [addRule] at h
  rcases ha : tableAdd (faults.add cnt) faults.present rule rules with err | tbl
  · rw [ha] at h; cases h
  rw [ha] at h
  cases h
  exact (tableAdd_ok ha).2

/-- Whatever the loop over the rules comes to, dropping what it installed leads back. -/
theorem drop_addRules (faults : RuleFaults) (added rules : List RuleMessage) :
    PolicyRules.drop ⟨(UndoLog.runEach (addRule faults) added ⟨rules, []⟩).2.log⟩
      (UndoLog.runEach (addRule faults) added ⟨rules, []⟩).2.state = rules :=
  UndoLog.restored_runEach (fun _ _ _ _ _ h => deleteRule_of_addRule h) added ⟨rules, []⟩

section Policy

variable {faults : RuleFaults} {tbl : UInt8} {v4 : BitVec 32 × UInt8}
  {v6 : BitVec 128 × UInt8} {rules after : List RuleMessage}

theorem policyRules_install_error {err : Str}
    (h : PolicyRules.install faults tbl v4 v6 rules = (.error err, after)) : after = rules := by
  rw [PolicyRules.install] at h
  split at h
  · cases h; rfl
  split at h
  · cases h; rfl
  next priority _ =>
    have hd := drop_addRules faults (strictRules tbl priority v4 v6) rules
    grind

theorem policyRules_install_ok {policy : PolicyRules}
    (h : PolicyRules.install faults tbl v4 v6 rules = (.ok policy, after)) : policy.drop after = rules := by
  rw [PolicyRules.install] at h
  split at h
  · cases h
  split at h
  · cases h
  next priority _ =>
    have hd := drop_addRules faults (strictRules tbl priority v4 v6) rules
    grind

end Policy

/-! ## Routes -/

theorem addRoute_ok {faults : RouteFaults} {cnt : Nat} {rt : Route} {kernel kernel' : Kernel}
    (h : addRoute faults cnt rt kernel = .ok kernel') :
    kernel' = { kernel with routes := kernel.routes ++ [rt] } ∧ deleteRoute rt kernel' = kernel := by
  rw [addRoute] at h
  rcases ha : tableAdd (faults.add cnt) faults.present rt kernel.routes with err | rts
  · rw [ha] at h; cases h
  rw [ha] at h
  cases h
  obtain ⟨rfl, he⟩ := tableAdd_ok ha
  exact ⟨rfl, by rw [deleteRoute, he]⟩

section Loops

variable {plat : Platform} {faults : RouteFaults} {ti : UInt32} {cnt : Nat} {p : IpPrefix}
  {kernel kernel' : Kernel} {rt : Route}

theorem addExclusion_ok {orig : List Route} (h : addExclusion plat faults ti orig cnt p kernel = .ok (rt, kernel')) :
    (∃ base, baseRoute orig ti p.1 = some base ∧ rt = copyRoute plat base p) ∧
      addRoute faults cnt rt kernel = .ok kernel' := by
  rw [addExclusion] at h
  split at h
  · cases h
  grind

theorem addInclusion_ok {strictTable : Option UInt8}
    (h : addInclusion plat faults ti strictTable cnt p kernel = .ok (rt, kernel')) :
    rt = tunRoute plat ti strictTable p ∧ addRoute faults cnt rt kernel = .ok kernel' := by
  rw [addInclusion] at h
  grind

end Loops

/-- Whatever the loops over the prefixes come to, dropping what they installed leads back. -/
theorem restored_addRoutes (plat : Platform) (faults : RouteFaults) (ti : UInt32)
    (orig : List Route) (strictTable : Option UInt8) (parsed : ParsedTunRoutes) (rts : UndoLog Kernel Route) :
    (addRoutes plat faults ti orig strictTable parsed rts).2.restored deleteRoute =
      rts.restored deleteRoute := by
  have he : (rts.runEach (addExclusion plat faults ti orig) parsed.excluded).2.restored
      deleteRoute = rts.restored deleteRoute :=
    UndoLog.restored_runEach (fun _ _ _ _ _ h => (addRoute_ok (addExclusion_ok h).2).2) _ _
  rw [addRoutes]
  split
  next hr => rwa [hr] at he
  next excluded hr =>
    rw [hr] at he
    rw [← he]
    exact UndoLog.restored_runEach (fun _ _ _ _ _ h => (addRoute_ok (addInclusion_ok h).2).2) _ _

/-! ## The policy of the platform -/

section InstallPolicy

variable {plat : Platform} {faults : RouteFaults} {ti : UInt32} {strict : Bool}
  {tbl : Option UInt8} {v4 : BitVec 32 × UInt8} {v6 : BitVec 128 × UInt8}
  {kernel after : Kernel}

theorem installPolicy_error {err : Str} (h : installPolicy plat faults ti strict tbl v4 v6 kernel =
      (.error err, after)) : after = kernel := by
  cases plat with
  | macos => cases h
  | windows =>
    simp only [installPolicy] at h
    split at h
    · grind
    · cases h
  | linux =>
    simp only [installPolicy] at h
    split at h
    · cases h
    split at h
    next hrs =>
      cases h
      rw [policyRules_install_error hrs]
    next => cases h

theorem installPolicy_ok {policy : Option Policy} (h : installPolicy plat faults ti strict tbl v4 v6 kernel =
      (.ok policy, after)) : (policy.elim after fun policy => policy.drop after) = kernel := by
  cases plat with
  | macos => cases h; rfl
  | windows =>
    simp only [installPolicy] at h
    split at h
    · split at h
      · cases h
      · cases h
        simp [Policy.drop]
    · cases h; rfl
  | linux =>
    simp only [installPolicy] at h
    split at h
    · cases h; rfl
    split at h
    next => cases h
    next hrs =>
      cases h
      simp [Policy.drop, policyRules_install_ok hrs]

end InstallPolicy

/-! ## The route set -/

section Install

variable {plat : Platform} {txts : RouteTexts} {faults : RouteFaults} {ti : UInt32}
  {cfg : TunRouteConfig} {v4 : BitVec 32 × UInt8} {v6 : BitVec 128 × UInt8}
  {kernel after : Kernel}

theorem routeSet_install_error {err : Str} (h : RouteSet.install plat txts faults ti cfg v4 v6 kernel =
      (.error err, after)) : after = kernel := by
  simp only [RouteSet.install] at h
  split at h
  · cases h; rfl
  next parsed _ =>
  split at h
  · cases h; rfl
  split at h
  · cases h; rfl
  split at h
  · cases h; rfl
  next tbl _ =>
  have hrs := restored_addRoutes plat faults ti kernel.routes tbl parsed ⟨kernel, []⟩
  split at h
  next hr =>
    cases h
    rwa [hr] at hrs
  next rts hr =>
  rw [hr] at hrs
  split at h
  next hp =>
    cases h
    rwa [installPolicy_error hp]
  next => cases h

/-- What an installation did that came to its end. -/
theorem routeSet_install_ok {rts : RouteSet}
    (h : RouteSet.install plat txts faults ti cfg v4 v6 kernel = (.ok rts, after)) :
    ∃ parsed tbl added, cfg.parsed txts = .ok parsed ∧ strictTable plat cfg.strict kernel.routes = .ok tbl ∧
      addRoutes plat faults ti kernel.routes tbl parsed ⟨kernel, []⟩ = (.ok (), added) ∧
      installPolicy plat faults ti cfg.strict tbl v4 v6 added.state =
        (.ok rts.policy, after) ∧ rts.installed = added.log := by
  simp only [RouteSet.install] at h
  split at h
  · cases h
  next parsed hp =>
  split at h
  · cases h
  split at h
  · cases h
  grind

theorem drop_of_install {rts : RouteSet} (h : RouteSet.install plat txts faults ti cfg v4 v6 kernel =
      (.ok rts, after)) : rts.drop after = kernel := by
  obtain ⟨parsed, tbl, added, -, -, hrn, hp, hl⟩ := routeSet_install_ok h
  have hr := restored_addRoutes plat faults ti kernel.routes tbl parsed ⟨kernel, []⟩
  rw [hrn] at hr
  rw [RouteSet.drop, installPolicy_ok hp, hl]
  exact hr

end Install

/-- A failed installation, of the routes or of the policy rules alone, leaves the
system as it was; dropping what a successful one returns leads back to it. -/
theorem installation_all_or_nothing : (∀ platform texts faults tunIndex config ipv4Address ipv6Address kernel after,
      (∀ error, RouteSet.install platform texts faults tunIndex config ipv4Address ipv6Address kernel =
        (.error error, after) → after = kernel) ∧
      ∀ routes, RouteSet.install platform texts faults tunIndex config ipv4Address ipv6Address kernel =
        (.ok routes, after) → routes.drop after = kernel) ∧
    ∀ faults table ipv4Address ipv6Address rules after,
      (∀ error, PolicyRules.install faults table ipv4Address ipv6Address rules = (.error error, after) →
        after = rules) ∧
      ∀ policy, PolicyRules.install faults table ipv4Address ipv6Address rules = (.ok policy, after) →
        policy.drop after = rules := by
  constructor
  · grind [routeSet_install_error, drop_of_install]
  grind [policyRules_install_error, policyRules_install_ok]

/-- The third rule is refused: the two before it are removed again. -/
example : let faults : RuleFaults :=
      { list := none, add := fun n => if n = 2 then some "refused" else none, present := [] }
    PolicyRules.install faults 202 (0, 30) (0, 126) [nopRule .inet 9000] =
      (.error "refused", [nopRule .inet 9000]) := by
  decide

end Hysteria.Proof
