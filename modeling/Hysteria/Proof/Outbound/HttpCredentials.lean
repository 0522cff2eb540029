import Hysteria.Proof.Outbound.HttpConnect

/-!
# The credentials of the CONNECT outbound

`url.username()` and `url.password()` are percent-encoded, and the outbound sends them
as they are. The proxy gets the name and the password themselves exactly when nothing
in them is escaped (`sent_credentials_iff`).
-/

namespace Hysteria.Proof

open Framework Impl List

/-- The text that percent-encoded userinfo stands for, as UTF-8. -/
def percentDecode : Str → List UInt8
  | [] => []
  | '%' :: a :: b :: rest =>
    match hexDigit a, hexDigit b with
    | some high, some low => UInt8.ofNat (16 * high + low) :: percentDecode rest
    | _, _ => 37 :: percentDecode (a :: b :: rest)
  | c :: rest => String.utf8EncodeChar c ++ percentDecode rest

/-- An escape takes more than the byte it stands for. -/
theorem length_percentDecode_le (s : Str) : (percentDecode s).length ≤ (utf8 s).length := by
  have hp : '%'.utf8Size = 1 := rfl
  fun_induction percentDecode s <;> simp_all [String.length_utf8EncodeChar] <;> omega

/-- The request for `target` that authenticates with `credentials`. -/
def authorizedRequest (target : Str) (credentials : List UInt8) : Str :=
  "CONNECT " ++ target ++ " HTTP/1.1\r\nHost: " ++ target ++ "\r\nProxy-Connection: Keep-Alive\r\n" ++
    ("Proxy-Authorization: Basic " ++ base64Encode credentials ++ "\r\n") ++ "\r\n"

theorem authorizedRequest_inj {tgt : Str} {a b : List UInt8} :
    authorizedRequest tgt a = authorizedRequest tgt b ↔ a = b := by
  unfold authorizedRequest
  simp only [append_cancel_left_eq, append_cancel_right_eq, base64Encode_inj]

theorem request_new {url : ProxyUrl} {ob : HttpConnectOutbound} (h : HttpConnectOutbound.new url = .ok ob)
    (hne : url.username ≠ []) (tgt : Str) :
    ob.request tgt = authorizedRequest tgt (utf8 (url.username ++ ':' :: url.password.getD [])) := by
  unfold HttpConnectOutbound.new at h
  split at h
  · split at h
    · cases h
      unfold HttpConnectOutbound.request authorizedRequest
      simp only [if_neg hne]
    · cases h
  · cases h

/-- The proxy is sent the name and the password exactly when neither is escaped in the URL. -/
theorem sent_credentials_iff {url : ProxyUrl} {outbound : HttpConnectOutbound} {peer : ProxyPeer}
    {username password target : Str} (hname : username ≠ []) (husername : percentDecode url.username = utf8 username)
    (hpassword : percentDecode (url.password.getD []) = utf8 password)
    (hnew : HttpConnectOutbound.new url = .ok outbound) (hsent : (outbound.connect peer target).2 ≠ []) :
    (outbound.connect peer target).2 = utf8 (authorizedRequest target (utf8 (username ++ ':' :: password))) ↔
      url.username = username ∧ url.password.getD [] = password := by
  have hne : url.username ≠ [] := by
    intro hn
    rw [hn, eq_comm, percentDecode, utf8_eq_nil] at husername
    exact hname husername
  obtain ⟨hw, hnw⟩ := connect_written outbound peer target
  have hr : (outbound.connect peer target).2 = utf8 (outbound.request target) := hw (not_imp_comm.mp hnw hsent)
  rw [hr, request_new hnew hne, utf8_inj, authorizedRequest_inj, utf8_inj]
  refine ⟨fun h => ?_, fun ⟨hu, hp⟩ => by rw [hu, hp]⟩
  -- Neither part is shorter than what it stands for, so the colons are at one place.
  have hbs := congrArg utf8 h
  have hu := length_percentDecode_le url.username
  have hp := length_percentDecode_le (url.password.getD [])
  rw [husername] at hu
  rw [hpassword] at hp
  rw [utf8_append, utf8_append, utf8_cons, utf8_cons] at hbs
  have hl := congrArg length hbs
  simp only [length_append] at hl
  obtain ⟨hf, hs⟩ := append_inj hbs (by omega)
  exact ⟨utf8_inj.mp hf, utf8_inj.mp (append_cancel_left hs)⟩

theorem sent_credentials_plain : (exampleOutbound.connect examplePeerProxy "a.test:80").2 =
    utf8 (authorizedRequest "a.test:80" (utf8 ("alice" ++ ':' :: "secret"))) :=
  (sent_credentials_iff (by decide) (by decide) (by decide) exampleOutbound_new (by decide)).mpr ⟨rfl, rfl⟩

/-- The password is `p@ss`, and the proxy is sent `p%40ss`. -/
theorem sent_credentials_escaped : percentDecode "p%40ss" = utf8 "p@ss" ∧ ∃ outbound,
    HttpConnectOutbound.new { exampleUrl with password := some "p%40ss" } = .ok outbound ∧
    (outbound.connect examplePeerProxy "a.test:80").2 = utf8 (authorizedRequest "a.test:80" (utf8 "alice:p%40ss")) ∧
    (outbound.connect examplePeerProxy "a.test:80").2 ≠ utf8 (authorizedRequest "a.test:80" (utf8 "alice:p@ss")) :=
  ⟨by decide, _, rfl, by decide +kernel, by decide +kernel⟩

end Hysteria.Proof
