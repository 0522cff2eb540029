import Mathlib.Data.List.Nodup
import Hysteria.Framework.Transition
import Hysteria.Proof.Acme.HostForm
import Hysteria.Proof.Acme.TxtRecords

/-!
# Namecheap's hosts

One `update` of a zone leaves it alone or sets the hosts it has read, with the challenge
or without it (`Changes`, `update_sets`). In every run of `create` and `remove`, a zone
has the hosts it had at first and then the challenges that were added and not removed
(`namecheap_hosts_kept`): a handle says "created" if and only if its `create` has added
the challenge, which is then in the zone once, behind its first hosts.
-/

namespace Hysteria.Proof

open Framework Impl Spec Relation List
open Framework.Dialogue
open Function (update)

variable {flds : HostForm} {add : Bool} {challenge : Str × Str}

/-! ## The two calls -/

section
variable (provider : NamecheapProvider) (hosts : List HostRecord) (email : Option Str) (sld tld cmd : Str)

theorem plain_callFields : ∀ ent ∈ provider.callFields sld tld cmd, Plain ent.1 := by
  simp only [NamecheapProvider.callFields, forall_mem_cons]
  exact ⟨rfl, rfl, rfl, rfl, rfl, rfl, rfl, nofun⟩

/-- The field between the two. -/
def emailFields : HostForm := (email.map fun email => ("EmailType".toList, email)).toList

theorem plain_rest : ∀ ent ∈ emailFields email ++ provider.callFields sld tld cmd, Plain ent.1 := by
  intro ent hent
  obtain hent | hent := mem_append.1 hent
  · rcases email with _ | email
    · cases hent
    · cases mem_singleton.1 hent
      rfl
  grind [plain_callFields]

theorem form_command : formField (fieldsFrom hosts 1 ++ (emailFields email ++ provider.callFields sld tld cmd))
    "Command".toList = some cmd := by
  rw [formField_plain (rfl : Plain "Command".toList)]
  cases email <;> rfl

theorem form_zone : formZone (fieldsFrom hosts 1 ++ (emailFields email ++ provider.callFields sld tld cmd)) =
    some (sld ++ '.' :: tld) := by
  unfold formZone
  rw [formField_plain (rfl : Plain "SLD".toList), formField_plain (rfl : Plain "TLD".toList)]
  cases email <;> rfl

end

section
variable {parseXml : List UInt8 → Option Element} {provider : NamecheapProvider} {zone : Str}

theorem runs_call {σ : Type} {serves : σ → (req : SolverRequest) → req.Answer → σ → Prop} {s t : σ} {cmd : Str}
    {res : Except Str Element} (h : Runs serves s (provider.call parseXml zone cmd flds) res t) :
    (∃ err, res = .error err) ∧ t = s ∨ ∃ sld tld ans, zone = sld ++ '.' :: tld ∧
      serves s (.http (provider.request (flds ++ provider.callFields sld tld cmd))) ans t ∧
      res = NamecheapProvider.commandResponse parseXml ans := by
  unfold NamecheapProvider.call at h
  split at h
  · obtain ⟨rfl, rfl⟩ := runs_fail.1 h
    exact .inl ⟨⟨_, rfl⟩, rfl⟩
  rename_i sld tld hz
  obtain ⟨ans, s₁, hs, hr⟩ := runs_ask.1 h
  obtain ⟨rfl, rfl⟩ := runs_ofExcept.1 hr
  exact .inr ⟨sld, tld, ans, (splitOnce_eq_some hz).2, hs, rfl⟩

variable {s t : NamecheapServer}

theorem runs_getHosts {res : Except Str Element}
    (h : Runs (NamecheapServer.Serves parseXml) s (provider.call parseXml zone NamecheapProvider.getHosts [])
      res t) :
    t = s ∧ ∀ resp list, res = .ok resp → NamecheapProvider.hostList resp = .ok list →
      list.hosts.map .ofElement = s.zones zone := by
  obtain ⟨⟨err, rfl⟩, rfl⟩ | ⟨sld, tld, ans, rfl, hsr, rfl⟩ := runs_call h
  · exact ⟨rfl, nofun⟩
  have hc := form_command provider [] none sld tld NamecheapProvider.getHosts
  obtain ⟨hk, hs⟩ := hsr
  refine ⟨hk, fun resp list hr hl => ?_⟩
  exact hs resp list _ hr hl (form_zone provider [] none sld tld NamecheapProvider.getHosts)

/-- A call of `setHosts` that is to give the zone these hosts. -/
def Sets (s : NamecheapServer) (zone : Str) (hosts : List HostRecord) (written : Bool) (t : NamecheapServer) : Prop :=
  ∃ form, t = s.write form written ∧ formZone form = some zone ∧ readHosts form = hosts ∧ Numbered form

theorem runs_setHosts {hosts : List Element} {email : Option Str} {res : Except Str Element}
    (hfs : hostFields hosts = .ok flds) (h : Runs (NamecheapServer.Serves parseXml) s
      (provider.call parseXml zone NamecheapProvider.setHosts (flds ++ emailFields email)) res t) :
    (∃ err, res = .error err) ∧ t = s ∨ ∃ wr, Sets s zone (hosts.map .ofElement) wr t ∧
      ∀ resp, res = .ok resp → NamecheapProvider.isSuccess resp = true → wr = true := by
  obtain ⟨hc, rfl⟩ := hostFields_ok hfs
  have ha := forall_mem_map.2 hc
  obtain h | ⟨sld, tld, ans, rfl, hs, rfl⟩ := runs_call h
  · exact .inl h
  rw [append_assoc] at hs
  have hcm := form_command provider (hosts.map .ofElement) email sld tld NamecheapProvider.setHosts
  have ho : ¬ some NamecheapProvider.setHosts = some NamecheapProvider.getHosts := by decide
  change NamecheapServer.Answers parseXml s _ ans t at hs
  unfold NamecheapServer.Answers at hs
  rw [hcm, if_neg ho, if_pos rfl] at hs
  obtain ⟨wr, hw, hsc⟩ := hs
  have hp := plain_rest provider email sld tld NamecheapProvider.setHosts
  have hst : Sets s (sld ++ '.' :: tld) (hosts.map .ofElement) wr t :=
    ⟨_, hw, form_zone provider _ email sld tld _, readHosts_form hp ha, numbered_form hp ha⟩
  exact .inr ⟨wr, hst, hsc⟩

/-! ## One operation -/

/-- The hosts are complete and the zone is to have them; the call ends well only if it does. -/
def Rewritten {β : Type} (s : NamecheapServer) (zone : Str) (hosts : List HostRecord) (written : Bool)
    (result : Except Str β) (good : β) (t : NamecheapServer) : Prop :=
  (∀ host ∈ hosts, host.Complete) ∧ Sets s zone hosts written t ∧
    (result = .ok good ∧ written = true ∨ ∃ error, result = .error error)

theorem runs_write {list : Element} {hosts : List Element} {res : Except Str Bool}
    (h : Runs (NamecheapServer.Serves parseXml) s (provider.write parseXml zone add list hosts) res t) :
    (∃ err, res = .error err) ∧ t = s ∨
      ∃ wr, Rewritten s zone (hosts.map .ofElement) wr res add t := by
  obtain ⟨flds, s₁, hfs, hst⟩ | ⟨err, rfl, hfs⟩ := runs_bind.1 h
  · obtain ⟨hok, rfl⟩ := runs_ofExcept.1 hfs
    have hc := forall_mem_map.2 (hostFields_ok hok.symm).1
    obtain ⟨resp, s₂, hcl, he⟩ | ⟨err, rfl, hcl⟩ := runs_bind.1 hst
    · obtain ⟨⟨err, ⟨⟩⟩, -⟩ | ⟨wr, hs, hsc⟩ := runs_setHosts hok.symm hcl
      split at he
      · rename_i hg
        obtain ⟨rfl, rfl⟩ := runs_done.1 he
        exact .inr ⟨wr, hc, hs, .inl ⟨rfl, hsc resp rfl hg⟩⟩
      · obtain ⟨rfl, rfl⟩ := runs_fail.1 he
        exact .inr ⟨wr, hc, hs, .inr ⟨_, rfl⟩⟩
    · obtain h | ⟨wr, hs, -⟩ := runs_setHosts hok.symm hcl
      · exact .inl ⟨⟨err, rfl⟩, h.2⟩
      · exact .inr ⟨wr, hc, hs, .inr ⟨err, rfl⟩⟩
  · exact .inl ⟨⟨err, rfl⟩, (runs_ofExcept.1 hfs).2⟩

/-- What `update` makes of the hosts of a zone. -/
inductive Updates (challenge : Str × Str) (hosts : List HostRecord) : (add : Bool) → List HostRecord → Prop
  | add (fresh : ∀ host ∈ hosts, host.has challenge = false) :
      Updates challenge hosts true (hosts ++ [.ofChallenge challenge])
  | remove : Updates challenge hosts false (hosts.eraseP (·.has challenge))

theorem ofElement_challengeHost (name val : Str) :
    HostRecord.ofElement (NamecheapProvider.challengeHost name val) = .ofChallenge (name, val) := by
  ext field : 2
  cases field <;> rfl

/-- What an operation comes to: it fails or finds the challenge as it should be, and leaves the zone
alone; or it is to rewrite the zone. -/
def Changes {β : Type} (s : NamecheapServer) (zone : Str) (challenge : Str × Str) (add : Bool) (result : Except Str β)
    (same good : β) (t : NamecheapServer) : Prop :=
  t = s ∧ ((∃ error, result = .error error) ∨ result = .ok same ∧ s.has zone challenge = add) ∨
    ∃ hosts written, Updates challenge (s.zones zone) add hosts ∧ Rewritten s zone hosts written result good t

theorem Changes.map {β γ : Type} {res : Except Str β} {same good : β} (f : β → γ)
    (h : Changes s zone challenge add res same good t) :
    Changes s zone challenge add (res.map f) (f same) (f good) t := by
  obtain ⟨rfl, ⟨err, rfl⟩ | ⟨rfl, hhas⟩⟩ | ⟨hosts, wr, hu, hc, hs, hok⟩ := h
  · exact .inl ⟨rfl, .inl ⟨err, rfl⟩⟩
  · exact .inl ⟨rfl, .inr ⟨rfl, hhas⟩⟩
  · refine .inr ⟨hosts, wr, hu, hc, hs, ?_⟩
    obtain ⟨rfl, hwr⟩ | ⟨err, rfl⟩ := hok
    · exact .inl ⟨rfl, hwr⟩
    · exact .inr ⟨err, rfl⟩

theorem update_sets {name val : Str} {res : Except Str Bool}
    (h : Runs (NamecheapServer.Serves parseXml) s (provider.update parseXml zone name val add) res t) :
    Changes s zone (name, val) add res false add t := by
  unfold Changes NamecheapServer.has
  obtain ⟨resp, s₁, hg, hr⟩ | ⟨err, rfl, hg⟩ := runs_bind.1 h
  · obtain ⟨rfl, hs⟩ := runs_getHosts hg
    obtain ⟨list, s₂, hl, hu⟩ | ⟨err, rfl, hl⟩ := runs_bind.1 hr
    · obtain ⟨hok, rfl⟩ := runs_ofExcept.1 hl
      rw [← hs resp list rfl hok.symm]
      cases add with
      | true =>
        rw [if_pos rfl] at hu
        split at hu
        · rename_i hex
          obtain ⟨rfl, rfl⟩ := runs_done.1 hu
          rw [findIdx?_isSome] at hex
          exact .inl ⟨rfl, .inr ⟨rfl, by rwa [any_map]⟩⟩
        rename_i hn
        rw [Option.not_isSome_iff_eq_none, findIdx?_eq_none_iff] at hn
        obtain ⟨⟨err, rfl⟩, rfl⟩ | ⟨wr, hwr⟩ := runs_write hu
        · exact .inl ⟨rfl, .inl ⟨err, rfl⟩⟩
        · rw [map_append, map_singleton, ofElement_challengeHost] at hwr
          exact .inr ⟨_, wr, .add (forall_mem_map.2 hn), hwr⟩
      | false =>
        rw [if_neg (by decide)] at hu
        split at hu
        · rename_i hn
          obtain ⟨rfl, rfl⟩ := runs_done.1 hu
          rw [findIdx?_eq_none_iff] at hn
          refine .inl ⟨rfl, .inr ⟨rfl, ?_⟩⟩
          rw [any_map, any_eq_false]
          exact fun host hh => Bool.not_eq_true _ ▸ hn host hh
        rename_i idx hi
        obtain ⟨⟨err, rfl⟩, rfl⟩ | ⟨wr, hwr⟩ := runs_write hu
        · exact .inl ⟨rfl, .inl ⟨err, rfl⟩⟩
        have hf : list.hosts.eraseP (NamecheapProvider.isRecord name val) = list.hosts.eraseIdx idx := by
          rw [eraseP_eq_eraseIdx, hi]
        have he : (list.hosts.map HostRecord.ofElement).eraseP (·.has (name, val)) =
            (list.hosts.eraseIdx idx).map HostRecord.ofElement :=
          eraseP_map.trans (congrArg (map HostRecord.ofElement) hf)
        rw [← he] at hwr
        exact .inr ⟨_, wr, .remove, hwr⟩
    · exact .inl ⟨(runs_ofExcept.1 hl).2, .inl ⟨err, rfl⟩⟩
  · exact .inl ⟨(runs_getHosts hg).1, .inl ⟨err, rfl⟩⟩

variable {lib : DnsLibraries}

/-- A handle says "created" if the challenge was written, and there is one already if not. -/
theorem create_sets {fqdn name val : Str} {res : Except Str RecordHandle}
    (h : Runs (NamecheapServer.Serves lib.parseXml) s (DnsSolver.create lib (.namecheap provider) fqdn zone name val)
      res t) :
    Changes s zone (name, val) true res ⟨zone, name, []⟩ ⟨zone, name, "created"⟩ t := by
  obtain ⟨id, hid, rfl⟩ := runs_bind_done h (⟨zone, name, ·⟩) fun _ => rfl
  obtain ⟨added, ha, rfl⟩ := runs_bind_done hid (if · then "created".toList else []) (by rintro (_ | _) <;> rfl)
  exact ((update_sets ha).map _).map _

/-- `remove` does something for such a handle only. -/
theorem remove_sets {handle : RecordHandle} {val : Str} {res : Except Str Unit}
    (h : Runs (NamecheapServer.Serves lib.parseXml) s (DnsSolver.remove lib (.namecheap provider) handle val)
      res t) :
    handle.id = "created" ∧ Changes s handle.zone (handle.name, val) false res () () t ∨
      handle.id ≠ "created" ∧ res = .ok () ∧ t = s := by
  change Runs _ s (DnsSolver.removeNamecheap lib provider handle val) res t at h
  unfold DnsSolver.removeNamecheap at h
  split at h
  · rename_i hcr
    obtain ⟨removed, hr, rfl⟩ := runs_bind_done h (fun _ => ()) fun _ => rfl
    exact .inl ⟨hcr, (update_sets hr).map _⟩
  · rename_i hcr
    exact .inr ⟨hcr, runs_done.1 h⟩

end

/-! ## Runs -/

section
variable {zones : Str → List HostRecord} {s t : NamecheapServer} {added : Str → List (Str × Str)}

theorem wrote_self (s : NamecheapServer) : s.wrote s = false := by
  rw [NamecheapServer.wrote, drop_length]
  rfl

theorem wrote_write (s : NamecheapServer) (form : HostForm) (wr : Bool) : s.wrote (s.write form wr) = wr := by
  rw [NamecheapServer.wrote, NamecheapServer.write, drop_left]
  exact Bool.or_false wr

/-- A write that is meant is one that takes effect, if the operation succeeds. -/
theorem changed_rewritten {β : Type} {zone : Str} {hosts : List HostRecord} {wr : Bool} {res : Except Str β} {good : β}
    (h : Rewritten s zone hosts wr res good t) : s.changed res true t = wr := by
  obtain ⟨-, ⟨form, rfl, -⟩, ⟨rfl, rfl⟩ | ⟨err, rfl⟩⟩ := h
  · rfl
  · exact wrote_write s form wr

theorem ofChallenge_has (challenge other : Str × Str) :
    (HostRecord.ofChallenge challenge).has other = decide (challenge = other) := by
  obtain ⟨name, val⟩ := challenge
  grind [HostRecord.has, HostRecord.ofChallenge]

/-- The zones have their first hosts and then the challenges, which are not among the
first hosts; and only zones with complete hosts have ever been written. -/
structure ZonesKept (zones : Str → List HostRecord) (s : NamecheapServer) (added : Str → List (Str × Str)) :
    Prop where
  hosts : ∀ zone, s.zones zone = zones zone ++ (added zone).map .ofChallenge
  nodup : ∀ zone, (added zone).Nodup
  fresh : ∀ zone, ∀ challenge ∈ added zone, ∀ host ∈ zones zone, host.has challenge = false
  complete : ∀ zone, added zone ≠ [] → ∀ host ∈ zones zone, host.Complete
  calls : ∀ call ∈ s.calls, Numbered call.1 ∧ ∃ zone, formZone call.1 = some zone ∧ ∀ host ∈ zones zone, host.Complete

/-- A call that is to give a zone its first hosts and other challenges. -/
theorem kept_sets (hk : ZonesKept zones s added) {zone : Str} {chals : List (Str × Str)} {wr : Bool}
    (hs : Sets s zone (zones zone ++ chals.map .ofChallenge) wr t) (hcm : ∀ host ∈ zones zone, host.Complete)
    (hnd : chals.Nodup) (hf : ∀ challenge ∈ chals, ∀ host ∈ zones zone, host.has challenge = false) :
    ZonesKept zones t (if wr then update added zone chals else added) := by
  obtain ⟨form, rfl, hz, hh, hn⟩ := hs
  have hc : ∀ call ∈ s.calls ++ [(form, wr)],
      Numbered call.1 ∧ ∃ zone, formZone call.1 = some zone ∧ ∀ host ∈ zones zone, host.Complete := by
    intro call hcall
    obtain hcall | hcall := mem_append.1 hcall
    · exact hk.calls call hcall
    · rw [mem_singleton.1 hcall]
      exact ⟨hn, zone, hz, hcm⟩
  cases wr with
  | false => exact { hk with calls := hc }
  | true =>
    have hwr : (s.write form true).zones = update s.zones zone (readHosts form) := by
      simp [NamecheapServer.write, hz]
    have hu : ∀ {P : Str → List (Str × Str) → Prop}, P zone chals → (∀ other, P other (added other)) →
        ∀ other, P other (update added zone chals other) := by
      intro P hz hothers other
      by_cases ho : other = zone
      · subst ho
        rwa [Function.update_self]
      · rw [Function.update_of_ne ho]
        exact hothers other
    refine ⟨?_, hu (P := fun _ chals => chals.Nodup) hnd hk.nodup,
      hu (P := fun zone chals => ∀ c ∈ chals, ∀ host ∈ zones zone, host.has c = false) hf hk.fresh,
      hu (P := fun zone chals => chals ≠ [] → ∀ host ∈ zones zone, host.Complete)
        (fun _ => hcm) hk.complete, hc⟩
    intro other
    rw [if_pos rfl, hwr, hh]
    by_cases ho : other = zone
    · subst ho
      rw [Function.update_self, Function.update_self]
    · rw [Function.update_of_ne ho, Function.update_of_ne ho, hk.hosts]

/-- A handle has added its challenge if it says "created". Then it is there once, and the
challenge is in the zone. -/
structure HandlesHeld (handles : List HeldHandle) (added : Str → List (Str × Str)) : Prop where
  created : ∀ held ∈ handles, held.handle.id = "created" ↔ held.own = true
  challenge : ∀ held ∈ handles, held.own = true → (held.handle.name, held.value) ∈ added held.handle.zone
  once : (handles.filter (·.own)).Nodup

variable {lib : DnsLibraries} {provider : NamecheapProvider} {w : NamecheapWorld}

theorem has_of_mem_added (hk : ZonesKept zones s added) {zone : Str} (hm : challenge ∈ added zone) :
    s.has zone challenge = true := by
  refine any_eq_true.2 ⟨.ofChallenge challenge, ?_, ?_⟩
  · rw [hk.hosts]
    exact mem_append_right _ (mem_map_of_mem hm)
  · rw [ofChallenge_has, decide_eq_true rfl]

section
variable {fqdn zone name val : Str} {res : Except Str RecordHandle}
  (h : Runs (NamecheapServer.Serves lib.parseXml) s (DnsSolver.create lib (.namecheap provider) fqdn zone name val)
    res t)

include h in
/-- What a `create` comes to: the zone is to have the challenge, of which there was none, or is left as it is. -/
theorem create_changes : t = s ∧ s.changed res (!s.has zone (name, val)) t = false ∧
        (∀ handle, res = .ok handle → handle.id ≠ "created" ∧ s.has zone (name, val) = true) ∨
      s.has zone (name, val) = false ∧ (∀ host ∈ s.zones zone, host.Complete) ∧
        Sets s zone (s.zones zone ++ [.ofChallenge (name, val)]) (s.changed res (!s.has zone (name, val)) t) t ∧
        ∀ handle, res = .ok handle → handle = ⟨zone, name, "created"⟩ := by
  obtain ⟨rfl, ⟨err, rfl⟩ | ⟨rfl, hhas⟩⟩ | ⟨hosts, wr, ⟨hf⟩, hrw⟩ := create_sets h
  · exact .inl ⟨rfl, wrote_self _, nofun⟩
  · refine .inl ⟨rfl, by rw [hhas]; rfl, fun handle heq => ?_⟩
    cases heq
    exact ⟨cons_ne_nil _ _ ∘ Eq.symm, hhas⟩
  · have hhas : s.has zone (name, val) = false := by
      rw [NamecheapServer.has, any_eq_false]
      exact fun host hh => by rw [hf host hh]; decide
    refine .inr ⟨hhas, fun host hh => hrw.1 host (mem_append_left _ hh), ?_, fun handle heq => ?_⟩
    · rw [hhas, Bool.not_false, changed_rewritten hrw]
      exact hrw.2.1
    · obtain ⟨hg, -⟩ | ⟨err, hg⟩ := hrw.2.2
      · exact Except.ok.inj (heq.symm.trans hg)
      · cases heq.symm.trans hg

include h in
theorem kept_create (hk : ZonesKept zones s added) :
    ZonesKept zones t (if s.changed res (!s.has zone (name, val)) t then
      update added zone (added zone ++ [(name, val)]) else added) := by
  obtain ⟨rfl, hch, -⟩ | ⟨hhas, hc, hs, -⟩ := create_changes h
  · rwa [hch]
  have hfs : ∀ host ∈ zones zone, host ∈ s.zones zone := fun host hh => by
    rw [hk.hosts]
    exact mem_append_left _ hh
  have hhs : s.zones zone ++ [.ofChallenge (name, val)] =
      zones zone ++ (added zone ++ [(name, val)]).map .ofChallenge := by
    rw [hk.hosts, map_append, append_assoc]
    rfl
  have hnew : (name, val) ∉ added zone := fun hm => Bool.noConfusion (hhas.symm.trans (has_of_mem_added hk hm))
  refine kept_sets hk (hhs ▸ hs) (fun host hh => hc host (hfs host hh)) ?_ fun challenge hm host hh => ?_
  · rw [← concat_eq_append]
    exact List.Nodup.concat hnew (hk.nodup zone)
  · obtain hm | hm := mem_append.1 hm
    · exact hk.fresh zone challenge hm host hh
    · rw [mem_singleton.1 hm]
      exact Bool.eq_false_iff.2 (any_eq_false.1 hhas host (hfs host hh))

include h in
theorem held_create {handles : List HeldHandle} (hk : ZonesKept zones s added) (hh : HandlesHeld handles added) :
    HandlesHeld ((res.toOption.map (⟨·, val, !s.has zone (name, val)⟩)).toList ++ handles)
      (if s.changed res (!s.has zone (name, val)) t then
        update added zone (added zone ++ [(name, val)]) else added) := by
  -- what was added stays
  have hg : ∀ {other : Str} {challenge : Str × Str}, challenge ∈ added other →
      challenge ∈ (if s.changed res (!s.has zone (name, val)) t then
        update added zone (added zone ++ [(name, val)]) else added) other := by
    intro other challenge hm
    split
    · by_cases ho : other = zone
      · subst ho
        rw [Function.update_self]
        exact mem_append_left _ hm
      · rwa [Function.update_of_ne ho]
    · exact hm
  have hold := fun held hmem hown => hg (hh.challenge held hmem hown)
  rcases res with err | handle
  · exact ⟨hh.created, hold, hh.once⟩
  obtain ⟨-, -, ho⟩ | ⟨hhas, -, -, ho⟩ := create_changes h
  · obtain ⟨hid, hhas⟩ := ho handle rfl
    rw [hhas] at hold ⊢
    refine ⟨?_, ?_, hh.once⟩
    · refine forall_mem_cons.2 ⟨iff_of_false hid nofun, hh.created⟩
    · exact forall_mem_cons.2 ⟨nofun, hold⟩
  · obtain rfl := ho handle rfl
    rw [hhas] at hold ⊢
    refine ⟨forall_mem_cons.2 ⟨iff_of_true rfl rfl, hh.created⟩, forall_mem_cons.2 ⟨fun _ => ?_, hold⟩, ?_⟩
    · change (name, val) ∈ update added zone (added zone ++ [(name, val)]) zone
      rw [Function.update_self]
      exact mem_append_right _ mem_cons_self
    · refine nodup_cons.2 ⟨fun hmem => ?_, hh.once⟩
      obtain ⟨hhl, hown⟩ := mem_filter.1 hmem
      exact Bool.noConfusion (hhas.symm.trans (has_of_mem_added hk (hh.challenge _ hhl hown)))

end

section
variable {held : HeldHandle} {res : Except Str Unit} {handles : List HeldHandle}
  (h : Runs (NamecheapServer.Serves lib.parseXml) s
    (DnsSolver.remove lib (.namecheap provider) held.handle held.value) res t)

theorem eraseP_hosts (hk : ZonesKept zones s added) {zone : Str} (hm : challenge ∈ added zone) :
    (s.zones zone).eraseP (·.has challenge) = zones zone ++ ((added zone).erase challenge).map .ofChallenge := by
  have hf : ∀ host ∈ zones zone, ¬ host.has challenge = true := fun host hh =>
    Bool.eq_false_iff.1 (hk.fresh zone challenge hm host hh)
  have hhs : (fun host : HostRecord => host.has challenge) ∘ HostRecord.ofChallenge = (· == challenge) := by
    funext other
    rw [Function.comp_apply, ofChallenge_has, Bool.beq_eq_decide_eq]
  rw [hk.hosts, eraseP_append_right _ hf, eraseP_map, hhs, erase_eq_eraseP']

include h in
/-- A handle of its own is used for the challenge alone, and one that is not changes nothing. -/
theorem kept_remove (hk : ZonesKept zones s added) (hh : HandlesHeld handles added) (mem : held ∈ handles) :
    ZonesKept zones t (if s.changed res held.own t then
      update added held.handle.zone ((added held.handle.zone).erase (held.handle.name, held.value)) else added) := by
  obtain ⟨hcr, hc⟩ | ⟨hcr, rfl, rfl⟩ := remove_sets h
  · have hown := (hh.created held mem).1 hcr
    have hm := hh.challenge held mem hown
    obtain ⟨rfl, ⟨err, rfl⟩ | ⟨rfl, hgone⟩⟩ | ⟨hosts, wr, hu, hrw⟩ := hc
    · rwa [NamecheapServer.changed, wrote_self]
    · exact Bool.noConfusion (hgone.symm.trans (has_of_mem_added hk hm))
    cases hu
    rw [hown, changed_rewritten hrw]
    have hs := hrw.2.1
    rw [eraseP_hosts hk hm] at hs
    refine kept_sets hk hs (hk.complete _ (ne_nil_of_mem hm)) ((hk.nodup _).erase _) fun challenge hc => ?_
    exact hk.fresh _ challenge (mem_of_mem_erase hc)
  · rwa [NamecheapServer.changed, Bool.eq_false_iff.2 (mt (hh.created held mem).2 hcr)]

include h in
theorem held_remove (hh : HandlesHeld handles added) (mem : held ∈ handles) :
    HandlesHeld (handles.erase held) (if s.changed res held.own t then
      update added held.handle.zone ((added held.handle.zone).erase (held.handle.name, held.value)) else added) := by
  refine ⟨fun other ho => hh.created other (mem_of_mem_erase ho), fun other ho hown => ?_,
    hh.once.sublist (erase_sublist.filter _)⟩
  have hm := hh.challenge other (mem_of_mem_erase ho) hown
  split
  · rename_i hch
    have hheld : held.own = true := by
      obtain ⟨hcr, -⟩ | ⟨-, rfl, -⟩ := remove_sets h
      · exact (hh.created held mem).1 hcr
      · exact hch
    by_cases hz : other.handle.zone = held.handle.zone
    · rw [hz, Function.update_self]
      refine (mem_erase_of_ne fun hs => ?_).2 (hz ▸ hm)
      -- the same zone, name and value: then it is the handle itself, which is not there twice
      have hsl : other = held := by
        have hid := ((hh.created other (mem_of_mem_erase ho)).2 hown).trans ((hh.created held mem).2 hheld).symm
        obtain ⟨⟨zone, name, id⟩, val, own⟩ := other
        obtain ⟨⟨zone', name', id'⟩, val', own'⟩ := held
        obtain ⟨rfl, rfl⟩ := Prod.mk.inj hs
        cases hz
        cases hid
        cases hown.trans hheld.symm
        rfl
      have hf : other ∈ (handles.filter (·.own)).erase held := by
        rw [erase_filter]
        exact mem_filter.2 ⟨ho, hown⟩
      exact ((hh.once.mem_erase_iff).1 hf).1 hsl
    · rwa [Function.update_of_ne hz]
  · exact hm

end

theorem kept_step {w w' : NamecheapWorld} (step : NamecheapStep lib provider w w')
    (h : ZonesKept zones w.server w.added ∧ HandlesHeld w.handles w.added) :
    ZonesKept zones w'.server w'.added ∧ HandlesHeld w'.handles w'.added := by
  obtain ⟨hk, hh⟩ := h
  cases step with
  | create runs => exact ⟨kept_create runs hk, held_create runs hk hh⟩
  | remove mem runs => exact ⟨kept_remove runs hk hh mem, held_remove runs hh mem⟩

theorem kept_init (zones : Str → List HostRecord) : ZonesKept zones ⟨zones, []⟩ fun _ => [] where
  hosts _ := (append_nil _).symm
  nodup _ := nodup_nil
  fresh _ _ hmem := absurd hmem not_mem_nil
  complete _ hne := absurd rfl hne
  calls _ hmem := absurd hmem not_mem_nil

/-- After every operation a zone with complete hosts has these and then the challenges
that were added and not removed; a zone with another host has never been written; and
every form that was sent numbers its hosts from 1 on. -/
theorem namecheap_hosts_kept {w : NamecheapWorld} (run : ReflTransGen (NamecheapStep lib provider) (.init zones) w) :
    (∀ zone, (∀ host ∈ zones zone, host.Complete) →
        w.server.zones zone = zones zone ++ (w.added zone).map .ofChallenge) ∧
      (∀ zone, (∃ host ∈ zones zone, ¬ host.Complete) →
        w.server.zones zone = zones zone ∧ ∀ call ∈ w.server.calls, formZone call.1 ≠ some zone) ∧
      ∀ call ∈ w.server.calls, Numbered call.1 := by
  have hhl : HandlesHeld [] fun _ => [] :=
    ⟨fun _ hm => absurd hm not_mem_nil, fun _ hm => absurd hm not_mem_nil, nodup_nil⟩
  have hin := invariant_run (I := fun w => ZonesKept zones w.server w.added ∧ HandlesHeld w.handles w.added)
      (fun _ _ h step => kept_step step h) ⟨kept_init zones, hhl⟩ run
  obtain ⟨hk, -⟩ := hin
  refine ⟨fun zone _ => hk.hosts zone, ?_, fun call hc => (hk.calls call hc).1⟩
  rintro zone ⟨host, hh, hi⟩
  have hn : w.added zone = [] := by
    by_contra hne
    exact hi (hk.complete zone hne host hh)
  refine ⟨?_, fun call hc hz => ?_⟩
  · rw [hk.hosts, hn, map_nil, append_nil]
  · obtain ⟨-, other, ho, hcm⟩ := hk.calls call hc
    cases hz.symm.trans ho
    exact hi (hcm host hh)

end

/-! ## An account with one host -/

def oneHost : Element where
  name := "Host"
  attributes := [("Name", "@"), ("Type", "A"), ("Address", "192.0.2.1"), ("TTL", "1800")]
  children := []

/-- The host list, with the record of the challenge or without it. -/
def hostListResult (added : Bool) : Element where
  name := "DomainDNSGetHostsResult"
  attributes := [("IsUsingOurDNS", "true")]
  children := (oneHost :: if added then [NamecheapProvider.challengeHost "c" "v"] else []).map fun host =>
    .element host.name host.attributes []

/-- The host list for one byte, and else a success. -/
def oneHostResponse (bytes : List UInt8) : Element where
  name := "CommandResponse"
  attributes := []
  children := [bytes.head?.elim (.element "DomainDNSSetHostsResult" [("IsSuccess", "true")] []) fun b =>
    let result := hostListResult (b = 1)
    .element result.name result.attributes result.children]

def oneHostLibraries : DnsLibraries :=
  { recordLibraries with
    parseXml := fun bytes => some ⟨"ApiResponse", [("Status", "OK")],
      [.element (oneHostResponse bytes).name [] (oneHostResponse bytes).children]⟩ }

def oneHostServer : NamecheapServer := ⟨fun _ => [.ofElement oneHost], []⟩

section
variable {provider : NamecheapProvider} {s : NamecheapServer}

theorem oneHost_call {cmd : Str} {bs : List UInt8} {t : NamecheapServer}
    (h : NamecheapServer.Answers oneHostLibraries.parseXml s (flds ++ provider.callFields "a" "b" cmd)
      (.ok (okReply bs)) t) :
    Runs (NamecheapServer.Serves oneHostLibraries.parseXml) s
      (provider.call oneHostLibraries.parseXml "a.b" cmd flds) (.ok (oneHostResponse bs)) t :=
  .ask h (runs_ofExcept.2 ⟨(rfl).symm, rfl⟩)

/-- The challenge is written, or removed. -/
theorem oneHost_update (add : Bool) (hz : s.zones "a.b" = (hostListResult !add).hosts.map .ofElement) : ∃ form,
    Runs (NamecheapServer.Serves oneHostLibraries.parseXml) s
      (provider.update oneHostLibraries.parseXml "a.b" "c" "v" add) (.ok add) (s.write form true) := by
  obtain ⟨flds, hfs⟩ : ∃ flds, hostFields (hostListResult add).hosts = .ok flds := by
    cases add <;> exact ⟨_, rfl⟩
  have hc := form_command provider ((hostListResult add).hosts.map .ofElement) none "a" "b" NamecheapProvider.setHosts
  rw [← (hostFields_ok hfs).2, ← append_assoc] at hc
  generalize hform : flds ++ emailFields none ++ provider.callFields "a" "b" NamecheapProvider.setHosts = form at hc
  have hget : NamecheapServer.Answers oneHostLibraries.parseXml s
      (provider.callFields "a" "b" NamecheapProvider.getHosts) (.ok (okReply [if add then 0 else 1])) s := by
    refine ⟨rfl, ?_⟩
    intro resp res zone hr hrs hzone
    cases hzone
    cases hr
    cases add <;> cases hrs <;> exact hz.symm
  have hset : NamecheapServer.Answers oneHostLibraries.parseXml s form (.ok (okReply [])) (s.write form true) := by
    unfold NamecheapServer.Answers
    rw [hc, if_neg (by decide), if_pos rfl]
    exact ⟨true, rfl, fun _ _ _ => rfl⟩
  refine ⟨form, runs_bind_ok.2 ⟨_, s, oneHost_call hget, ?_⟩⟩
  refine runs_bind_ok.2 ⟨hostListResult !add, s, runs_ofExcept.2 ⟨by cases add <;> rfl, rfl⟩, ?_⟩
  cases add <;> exact runs_bind_ok.2 ⟨flds, s, runs_ofExcept.2 ⟨hfs.symm, rfl⟩,
    runs_bind_ok.2 ⟨oneHostResponse [], _, oneHost_call (hform ▸ hset), .done _ _⟩⟩

end

/-- The challenge is added behind the host, and removed with its handle. -/
theorem namecheap_hosts_kept_one : ∃ w w',
    ReflTransGen (NamecheapStep oneHostLibraries ⟨[], [], [], []⟩) (.init oneHostServer.zones) w ∧
      w.server.zones "a.b".toList = [.ofElement oneHost, .ofChallenge ("c".toList, "v".toList)] ∧
      NamecheapStep oneHostLibraries ⟨[], [], [], []⟩ w w' ∧ w'.handles = [] ∧
      w'.server.zones "a.b".toList = [.ofElement oneHost] := by
  have hcm : ∀ host ∈ oneHostServer.zones "a.b", host.Complete := by
    intro host hh fld hf
    rw [mem_singleton.1 hh]
    cases fld with
    | mxPref => exact absurd rfl hf
    | _ => rfl
  obtain ⟨form, hc⟩ := @oneHost_update ⟨[], [], [], []⟩ oneHostServer true rfl
  have run := ReflTransGen.single (@NamecheapStep.create _ _ (.init oneHostServer.zones) [] _ _ _ _ _
    (runs_bind_ok.2 ⟨"created", _, runs_bind_ok.2 ⟨true, _, hc, .done _ _⟩,
      .done _ (⟨"a.b", "c", "created"⟩ : RecordHandle)⟩))
  have hz : (oneHostServer.write form true).zones "a.b" = [.ofElement oneHost, .ofChallenge ("c", "v")] :=
    (namecheap_hosts_kept run).1 "a.b" hcm
  have hlist : [HostRecord.ofElement oneHost, .ofChallenge ("c", "v")] =
      (hostListResult true).hosts.map .ofElement := by
    rw [← ofElement_challengeHost]
    rfl
  obtain ⟨form', hr⟩ := @oneHost_update ⟨[], [], [], []⟩ _ false (hz.trans hlist)
  have step := NamecheapStep.remove
    (w := ⟨_, [⟨⟨"a.b", "c", "created"⟩, "v", true⟩], update (fun _ => []) "a.b" [("c", "v")]⟩) mem_cons_self
    (runs_bind_ok.2 ⟨false, _, hr, .done _ _⟩)
  refine ⟨_, _, run, hz, step, rfl, ?_⟩
  exact (namecheap_hosts_kept (run.tail step)).1 "a.b" hcm

end Hysteria.Proof
