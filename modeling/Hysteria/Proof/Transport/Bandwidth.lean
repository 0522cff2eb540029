import Mathlib.Data.Bool.AllAny
import Hysteria.Impl.Transport.Bandwidth

/-!
# The negotiated bandwidth

A bandwidth is read back from its header (`authRequest_request`,
`authResponse_response`), so that both sides decide on the values of the other
(`bandwidth_negotiated`).
-/

namespace Hysteria.Proof

open Framework Impl List

variable {φ : Type} {a a' : AdaptiveCongestion φ}

variable (client : ClientHandshake) (cfg : ServerHandshake) (pad : Str)

/-! ## Headers -/

theorem headerText_utf8 {s : Str} (h : ∀ c ∈ s, 32 ≤ c.toNat ∧ c.toNat < 127) : headerText (utf8 s) = some s := by
  have hbs := utf8_ascii fun c hc => Nat.lt_succ_of_lt (h c hc).2
  have hby (c : Char) (hc : c ∈ s) : (UInt8.ofNat c.toNat).toNat = c.toNat := by
    grind [UInt8.toNat_ofNat']
  rw [headerText, hbs, if_pos, map_map]
  · congr 1
    refine (map_congr_left fun c hc => ?_).trans (map_id s)
    rw [Function.comp_apply, hby c hc, Char.ofNat_toNat]
    rfl
  rw [all_eq_true]
  intro b hb
  obtain ⟨c, hc, rfl⟩ := mem_map.mp hb
  have := h c hc
  simp only [Bool.or_eq_true, Bool.and_eq_true, decide_eq_true_eq, UInt8.le_iff_toNat_le, UInt8.lt_iff_toNat_lt,
    hby c hc]
  exact .inl this

theorem visible_showNat (n : Nat) : ∀ c ∈ showNat n, 32 ≤ c.toNat ∧ c.toNat < 127 := by
  intro c hc
  obtain ⟨d, hd, rfl⟩ := mem_toDigits (by decide) n hc
  exact (by decide : ∀ d < 10, 32 ≤ (Nat.digitChar d).toNat ∧ (Nat.digitChar d).toNat < 127) d hd

/-! ## The values of the other side -/

/-- A bandwidth that the client declares is read back. -/
theorem fromHeaderValues_rx (auth : Option Str) (rx : UInt64) :
    (AuthRequest.fromHeaderValues auth (some (showNat rx.toNat))).rx = rx := by
  have hd := decimalDigits_digit (decimalDigits_showNat rx.toNat)
  have hs : stripStart "+" (showNat rx.toNat) = none := by
    rcases hsh : showNat rx.toNat with _ | ⟨c, cs⟩
    · rfl
    have hc : c ≠ '+' := by
      rintro rfl
      cases hd '+' (hsh ▸ mem_cons_self)
    simp [stripStart, isPrefixOf, hc.symm]
  simp only [AuthRequest.fromHeaderValues, Option.bind_some, hs, Option.getD_none, parseU64_showNat,
    Option.getD_some]

theorem authRequest_request : (client.request pad).authRequest.rx = client.maxRx := by
  have hrx : HeaderMap.get (client.request pad).headers headerCcRx = some (utf8 (showNat client.maxRx.toNat)) := by
    rfl
  rw [HttpRequest.authRequest, hrx, Option.bind_some, headerText_utf8 (visible_showNat _), fromHeaderValues_rx]

theorem showNat_ne_auto (n : Nat) : showNat n ≠ "auto" := by
  intro h
  have hd := decimalDigits_digit (decimalDigits_showNat n) 'a' (h ▸ mem_cons_self)
  cases hd

theorem authResponse_response :
    (cfg.response pad).authResponse =
      { udpEnabled := cfg.udpEnabled
        rx := if cfg.rxAuto then 0 else cfg.maxRx
        rxAuto := cfg.rxAuto } := by
  have hu : HeaderMap.get (cfg.response pad).headers headerUdpEnabled =
      some (utf8 (if cfg.udpEnabled then "true".toList else "false".toList)) := by
    rfl
  have hrx : HeaderMap.get (cfg.response pad).headers headerCcRx =
      some (utf8 (if cfg.rxAuto then "auto".toList else showNat cfg.maxRx.toNat)) := by
    rfl
  have hb : (headerText (utf8 (if cfg.udpEnabled then "true".toList else "false".toList))).bind parseGoBool =
      some cfg.udpEnabled := by
    cases cfg.udpEnabled <;> decide
  have ht : headerText (utf8 (if cfg.rxAuto then "auto".toList else showNat cfg.maxRx.toNat)) =
      some (if cfg.rxAuto then "auto".toList else showNat cfg.maxRx.toNat) := by
    refine headerText_utf8 ?_
    split
    · exact all_iff_forall_prop.mp (by decide)
    · exact visible_showNat _
  rw [HttpResponse.authResponse, hu, hrx, AuthResponse.fromHeaderValues, Option.bind_some, Option.bind_some, hb,
    ht]
  cases cfg.rxAuto with
  | true => rfl
  | false =>
    simp only [Bool.false_eq_true, if_false, Option.getD_some, showNat_ne_auto, parseU64_showNat, decide_false]

/-! ## What each side decides -/

theorem actualTx_response :
    client.actualTx (cfg.response pad).authResponse =
      if cfg.rxAuto then 0
      else if cfg.maxRx = 0 ∨ cfg.maxRx > client.maxTx then client.maxTx else cfg.maxRx := by
  rw [authResponse_response, ClientHandshake.actualTx]
  cases cfg.rxAuto <;> rfl

theorem ite_eq_min (cap val : UInt64) : (if val > cap then cap else val) = min cap val := by
  rw [Std.min_eq_if]
  by_cases hlt : cap < val
  · grind
  grind

/-- The client's rate: at most its own maximum, and the server's where that has one. -/
theorem actualTx_le :
    client.actualTx (cfg.response pad).authResponse ≤ client.maxTx ∧
      (cfg.maxRx ≠ 0 → cfg.rxAuto = false →
        client.actualTx (cfg.response pad).authResponse = min client.maxTx cfg.maxRx) := by
  rw [actualTx_response]
  cases cfg.rxAuto with
  | true => simp
  | false =>
    simp only [Bool.false_eq_true, if_false]
    by_cases hz : cfg.maxRx = 0
    · grind
    · simp only [hz, false_or, ite_eq_min]
      exact ⟨Std.min_le_left, fun _ _ => trivial⟩

/-- The smaller one of a rate and a limit, where 0 is no limit. -/
def limited (limit rate : UInt64) : UInt64 := if limit = 0 then rate else min limit rate

theorem peerRx_eq (req : AuthRequest) : cfg.peerRx req = limited cfg.maxTx req.rx := by
  unfold ServerHandshake.peerRx limited
  by_cases hz : cfg.maxTx = 0
  · rw [if_pos hz, if_neg (by simp [hz])]
  · simp only [UInt64.pos_iff_ne_zero.mpr hz, hz, true_and, if_false, ite_eq_min]

theorem limited_le (limit rate : UInt64) : limited limit rate ≤ rate ∧ (limit ≠ 0 → limited limit rate ≤ limit) := by
  unfold limited
  split
  · exact ⟨UInt64.le_refl _, fun hne => absurd ‹_› hne⟩
  · exact ⟨Std.min_le_right, fun _ => Std.min_le_left⟩

theorem limited_pos_iff {limit rate : UInt64} : limited limit rate > 0 ↔ rate ≠ 0 := by
  unfold limited
  rw [gt_iff_lt, UInt64.pos_iff_ne_zero, Std.min_eq_if]
  split
  · rfl
  split
  · grind
  · rfl

theorem setBrutalBandwidth_of_pos {rate : UInt64} (h : rate > 0) (a : AdaptiveCongestion φ) :
    ∃ a', a.setBrutalBandwidth rate = .ok a' ∧ a'.brutalBandwidth = some rate := by
  have hne : rate ≠ 0 := by
    rintro rfl
    exact absurd h (by decide)
  unfold AdaptiveCongestion.setBrutalBandwidth BrutalControl.setBandwidth
  rw [if_neg hne]
  exact ⟨_, rfl, rfl⟩

theorem finish_client (a : AdaptiveCongestion φ) :
    ∃ info a', client.finish (cfg.response pad) a = .ok (info, a') ∧
      info.actualTx = client.actualTx (cfg.response pad).authResponse ∧
      (info.actualTx > 0 → a'.brutalBandwidth = some info.actualTx) := by
  unfold ClientHandshake.finish
  simp only
  rw [if_neg (by simp [ServerHandshake.response])]
  split
  · rename_i hp
    obtain ⟨a', hs, hbw⟩ := setBrutalBandwidth_of_pos hp a
    rw [hs]
    exact ⟨_, a', rfl, rfl, fun _ => hbw⟩
  · rename_i hp
    exact ⟨_, a, rfl, rfl, fun h => absurd h hp⟩

/-- The server has Brutal send at the rate for the client, or leaves it alone. -/
theorem finish_server (req : HttpRequest) (a : AdaptiveCongestion φ) :
    ∃ peerRx a', cfg.finish req a = .ok (peerRx, a') ∧ peerRx = cfg.peerRx req.authRequest ∧
      a'.brutalBandwidth = if !cfg.rxAuto && peerRx > 0 then some peerRx else a.brutalBandwidth := by
  unfold ServerHandshake.finish
  simp only
  split
  · rename_i hr
    obtain ⟨a', hs, hbw⟩ := setBrutalBandwidth_of_pos
      (of_decide_eq_true (Bool.and_eq_true_iff.mp hr).2) a
    simp_all
  · rename_i hr
    exact ⟨_, a, rfl, rfl, by rw [if_neg hr]⟩

/-- Neither side sends faster than both allow, and Brutal is used at the highest rate that both allow. -/
theorem bandwidth_negotiated (client : ClientHandshake) (config : ServerHandshake) (padding padding' : Str)
    (a : AdaptiveCongestion φ) (fallback : φ) (disableLossCompensation : Bool) (now : Nat) (mtu : UInt16) :
    ∃ info clientSide peerRx serverSide,
      client.finish (config.response padding') a = .ok (info, clientSide) ∧
      config.finish (client.request padding) (.build fallback disableLossCompensation now mtu) =
        .ok (peerRx, serverSide) ∧
      (info.actualTx ≤ client.maxTx ∧
        (config.maxRx ≠ 0 → config.rxAuto = false → info.actualTx ≤ config.maxRx) ∧
        (config.rxAuto = true → info.actualTx = 0) ∧
        (client.maxTx ≠ 0 → config.maxRx ≠ 0 → config.rxAuto = false →
          info.actualTx = min client.maxTx config.maxRx)) ∧
      (∀ rate, serverSide.brutalBandwidth = some rate → rate ≤ client.maxRx ∧ (config.maxTx ≠ 0 → rate ≤ config.maxTx) ∧
        (client.maxRx ≠ 0 → config.maxTx ≠ 0 → rate = min config.maxTx client.maxRx)) ∧
      (config.rxAuto = true ∨ client.maxRx = 0 → serverSide.brutalBandwidth = none) ∧
      (info.actualTx > 0 → clientSide.brutalBandwidth = some info.actualTx) ∧
      (config.rxAuto = false → client.maxRx ≠ 0 →
        serverSide.brutalBandwidth = some (limited config.maxTx client.maxRx)) := by
  obtain ⟨info, clientSide, hcl, htx, hbr⟩ := finish_client client config padding' a
  obtain ⟨peerRx, serverSide, hsr, hp, hr⟩ := finish_server config (client.request padding)
    (AdaptiveCongestion.build fallback disableLossCompensation now mtu)
  obtain ⟨hmx, hmn⟩ := actualTx_le client config padding'
  rw [← htx] at hmx hmn
  obtain rfl : peerRx = limited config.maxTx client.maxRx := by rw [hp, peerRx_eq, authRequest_request]
  obtain ⟨hle, hlm⟩ := limited_le config.maxTx client.maxRx
  refine ⟨info, clientSide, _, serverSide, hcl, hsr, ⟨hmx, ?_, ?_, fun _ => hmn⟩, ?_, ?_, hbr, ?_⟩
  · intro hne ha
    rw [hmn hne ha]
    exact Std.min_le_right
  · intro ha
    rw [htx, actualTx_response, if_pos ha]
  · intro rate hs
    rw [hs] at hr
    split at hr
    · cases hr
      exact ⟨hle, hlm, fun _ hne => if_neg hne⟩
    · cases hr
  · intro hn
    rw [hr, if_neg]
    · rfl
    · simp only [limited_pos_iff]
      rcases hn with ha | hz
      · simp [ha]
      · simp [hz]
  · intro ha hne
    rw [hr, if_pos (by simp [ha, limited_pos_iff.mpr hne])]

end Hysteria.Proof
