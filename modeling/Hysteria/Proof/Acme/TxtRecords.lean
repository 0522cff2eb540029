import Hysteria.Spec.TxtRecords

/-!
# The record set after a challenge

`create` and `remove` of the providers that write whole record sets do with the set what
`added` and `removed` say (`create_added`, `remove_removed`), so the two of them restore
a set exactly if every record of it is `Spared` (`record_set_restored`): `remove` takes
every record with the value of the challenge away, and Gandi's `create` gives all records
one TTL.
-/

namespace Hysteria.Proof

open Framework Impl Spec List
open Framework.Dialogue
open Impl.DnsClient (readJson jsonAllowNotFound empty)
open Function (update)

variable {reply : ApiReply} {set recs' : List TxtRecord} {id : Str} {handle : RecordHandle}

/-! ## Requests -/

section
variable {σ τ : Type} {serves : σ → (req : SolverRequest) → req.Answer → σ → Prop} {s t : σ}
  {req : ApiRequest} {op : Str} {reasons : Reasons}

theorem runs_response :
    Runs serves s (DnsClient.response req op) (.ok reply) t ↔ serves s (.http req) (.ok reply) t := by
  rw [DnsClient.response, runs_ask]
  constructor
  · rintro ⟨ans, u, served, rest⟩
    obtain ⟨ha, rfl⟩ := runs_ofExcept.1 rest
    rcases ans with err | found
    · cases ha
    · cases ha
      exact served
  · intro served
    exact ⟨.ok reply, t, served, runs_ofExcept.2 ⟨rfl, rfl⟩⟩

theorem readJson_ok_iff {decode : List UInt8 → Except Str τ} {found : τ} :
    readJson reasons decode reply op = .ok found ↔
      ∃ bytes, reply.body = .ok bytes ∧ reply.isSuccess = true ∧ decode bytes = .ok found := by
  obtain ⟨status, body⟩ := reply
  rcases body with err | bytes
  · constructor
    · nofun
    · rintro ⟨_, ⟨⟩, -⟩
  change (if _ then _ else _) = _ ↔ _
  split
  · rename_i hs
    rcases hd : decode bytes with err | value
    · constructor
      · nofun
      grind
    · constructor
      · rintro ⟨⟩
        exact ⟨bytes, rfl, hs, hd⟩
      · rintro ⟨_, ⟨⟩, -, h⟩
        exact hd.symm.trans h
  grind

theorem runs_jsonAllowNotFound {decode : List UInt8 → Except Str τ} {found : Option τ} :
    Runs serves s (jsonAllowNotFound reasons decode req op) (.ok found) t ↔
      ∃ reply, serves s (.http req) (.ok reply) t ∧ (reply.status = 404 ∧ found = none ∨
          reply.status ≠ 404 ∧ ∃ bytes value, reply.body = .ok bytes ∧ reply.isSuccess = true ∧
            decode bytes = .ok value ∧ found = some value) := by
  rw [jsonAllowNotFound, runs_bind_ok]
  constructor
  · rintro ⟨reply, u, hr, hrs⟩
    rw [runs_response] at hr
    split at hrs
    · rename_i h404
      obtain ⟨⟨⟩, rfl⟩ := runs_done.1 hrs
      exact ⟨reply, hr, .inl ⟨h404, rfl⟩⟩
    obtain ⟨hf, rfl⟩ := runs_ofExcept.1 hrs
    rcases hrd : readJson reasons decode reply op with err | value
    · rw [hrd] at hf
      cases hf
    rw [hrd] at hf
    cases hf
    obtain ⟨bytes, hb, hs, hd⟩ := readJson_ok_iff.1 hrd
    grind
  · rintro ⟨reply, hr, ⟨h404, rfl⟩ | ⟨h404, bytes, value, hb, hs, hd, rfl⟩⟩
    · refine ⟨reply, t, runs_response.2 hr, ?_⟩
      rw [if_pos h404]
      exact .done _ _
    refine ⟨reply, t, runs_response.2 hr, ?_⟩
    rw [if_neg h404, readJson_ok_iff.2 ⟨bytes, hb, hs, hd⟩]
    exact .done _ _

theorem runs_empty : Runs serves s (empty reasons req op) (.ok ()) t ↔
    ∃ reply, serves s (.http req) (.ok reply) t ∧ reply.isSuccess = true := by
  rw [empty, runs_bind_ok]
  constructor
  · rintro ⟨reply, u, hr, hrs⟩
    split at hrs
    · rename_i hs
      obtain ⟨-, rfl⟩ := runs_done.1 hrs
      exact ⟨reply, runs_response.1 hr, hs⟩
    · obtain ⟨⟨⟩, -⟩ := runs_fail.1 hrs
  · rintro ⟨reply, hr, hs⟩
    refine ⟨reply, t, runs_response.2 hr, ?_⟩
    rw [if_pos hs]
    exact .done _ _

end

/-! ## Record sets -/

section
variable {api : TxtApi} {s t : TxtStore} {url op : Str} {reasons : Reasons} {auth : ApiAuth}

theorem runs_lookup {τ : Type} {decode : List UInt8 → Except Str τ} {found : Option τ}
    (h : Runs api.Serves s (jsonAllowNotFound reasons decode { method := .get, url, auth } op) (.ok found) t)
    (recs : τ → List TxtRecord) (hr : ∀ bytes value, decode bytes = .ok value → api.Reads bytes (recs value)) :
    t = s ∧ (found.map recs).getD [] = s url := by
  obtain ⟨reply, hs, ⟨h404, rfl⟩ | ⟨-, bytes, value, hb, hsc, hd, rfl⟩⟩ := runs_jsonAllowNotFound.1 h
  · have hf : ¬ reply.isSuccess = true := by simp [ApiReply.isSuccess, h404]
    obtain ⟨-, hg⟩ := (if_neg hf).mp hs
    grind
  · obtain ⟨hk, hst⟩ := (if_pos hsc).mp hs
    grind

theorem runs_put {body : ApiBody} {recs : List TxtRecord}
    (h : Runs api.Serves s (empty reasons { method := .put, url, auth, body } op) (.ok ()) t)
    (hw : api.Writes body recs) : t = update s url recs := by
  obtain ⟨reply, hsr, hs⟩ := runs_empty.1 h
  exact (if_pos hs).mp hsr recs hw

theorem runs_delete (h : Runs api.Serves s (empty reasons { method := .delete, url, auth } op) (.ok ()) t) :
    t = update s url [] := by
  obtain ⟨reply, hsr, hs⟩ := runs_empty.1 h
  exact (if_pos hs).mp hsr

end

section
variable {lib : DnsLibraries} {p : SetProvider} {token fqdn zone name value : Str} {s t u : TxtStore}

theorem gandiRecords_value (vals : List Str) (ttl : Nat) : (gandiRecords vals ttl).map (·.value) = vals := by
  rw [gandiRecords, map_map]
  exact map_id vals

theorem gandi_written (value : Str) (found : Option GandiRecord)
    (hs : (found.map fun rec => gandiRecords rec.rrsetValues rec.rrsetTtl).getD [] = set) :
    gandiRecords (if ((found.map (·.rrsetValues)).getD []).any (· = value) then (found.map (·.rrsetValues)).getD []
      else (found.map (·.rrsetValues)).getD [] ++ [value]) dnsTtl = SetProvider.gandi.added value set := by
  have hv : (found.map (·.rrsetValues)).getD [] = set.map (·.value) := by
    rw [← hs]
    rcases found with _ | rec
    · rfl
    · exact (gandiRecords_value _ _).symm
  rw [hv]
  rfl

theorem goDaddy_written (value : Str) (found : Option (List GoDaddyRecord))
    (hs : (found.map goDaddyRecords).getD [] = set) :
    goDaddyRecords (if (found.getD []).any (·.data = value) then found.getD []
      else found.getD [] ++ [⟨value, 600⟩]) = SetProvider.goDaddy.added value set := by
  have hr : goDaddyRecords (found.getD []) = set := by
    rw [← hs]
    cases found <;> rfl
  have ha : (goDaddyRecords (found.getD [])).any (·.value = value) = (found.getD []).any (·.data = value) := any_map
  rw [SetProvider.added, ← hr, ha]
  split
  · rfl
  · exact map_append

theorem gandi_added
    (h : Runs (SetProvider.gandi.api lib).Serves s (DnsSolver.createGandi lib token zone name value) (.ok id) t) :
    t = update s (gandiUrl zone name) (SetProvider.gandi.added value (s (gandiUrl zone name))) := by
  obtain ⟨found, s₁, hl, hr⟩ := runs_bind_ok.1 h
  obtain ⟨_, s₂, hp, hd⟩ := runs_bind_ok.1 hr
  obtain ⟨-, rfl⟩ := runs_done.1 hd
  obtain ⟨rfl, hs⟩ := runs_lookup hl (fun rec => gandiRecords rec.rrsetValues rec.rrsetTtl)
    fun _ rec hdc => ⟨rec, hdc, rfl⟩
  rw [runs_put hp ⟨_, _, rfl, rfl⟩, gandi_written value found hs]

theorem goDaddy_added
    (h : Runs (SetProvider.goDaddy.api lib).Serves s (DnsSolver.createGoDaddy lib token zone name value) (.ok id) t) :
    t = update s (goDaddyUrl zone name) (SetProvider.goDaddy.added value (s (goDaddyUrl zone name))) := by
  obtain ⟨found, s₁, hl, hr⟩ := runs_bind_ok.1 h
  obtain ⟨_, s₂, hp, hd⟩ := runs_bind_ok.1 hr
  obtain ⟨-, rfl⟩ := runs_done.1 hd
  obtain ⟨rfl, hs⟩ := runs_lookup hl goDaddyRecords fun _ recs hdc => ⟨recs, hdc, rfl⟩
  rw [runs_put hp ⟨_, rfl, rfl⟩, goDaddy_written value found hs]

/-- `create` adds the value to the set, and leaves all other sets alone. -/
theorem create_added
    (h : Runs (p.api lib).Serves s (DnsSolver.create lib (p.provider token) fqdn zone name value) (.ok handle) t) :
    handle.zone = zone ∧ handle.name = name ∧ t = update s (p.url zone name) (p.added value (s (p.url zone name))) := by
  cases p with
  | gandi =>
    obtain ⟨id, s₁, hid, hd⟩ := runs_bind_ok.1 h
    obtain ⟨⟨⟩, rfl⟩ := runs_done.1 hd
    exact ⟨rfl, rfl, gandi_added hid⟩
  | goDaddy =>
    obtain ⟨id, s₁, hid, hd⟩ := runs_bind_ok.1 h
    obtain ⟨⟨⟩, rfl⟩ := runs_done.1 hd
    exact ⟨rfl, rfl, goDaddy_added hid⟩

theorem gandi_kept (value : Str) (rec : GandiRecord) :
    SetProvider.gandi.removed value (gandiRecords rec.rrsetValues rec.rrsetTtl) =
      gandiRecords (rec.rrsetValues.filter fun item => item ≠ value ∧ trimQuotes item ≠ value)
        (max rec.rrsetTtl dnsTtl) := by
  simp only [SetProvider.removed, gandiRecords, filter_map, map_map]
  rfl

theorem goDaddy_kept (value : Str) (recs : List GoDaddyRecord) :
    SetProvider.goDaddy.removed value (goDaddyRecords recs) = goDaddyRecords (recs.filter (·.data ≠ value)) :=
  filter_map

theorem gandi_removed
    (h : Runs (SetProvider.gandi.api lib).Serves s (DnsSolver.removeGandi lib token handle value) (.ok ()) t) :
    t = update s (gandiUrl handle.zone handle.name)
      (SetProvider.gandi.removed value (s (gandiUrl handle.zone handle.name))) := by
  obtain ⟨found, s₁, hl, hr⟩ := runs_bind_ok.1 h
  obtain ⟨rfl, hs⟩ := runs_lookup hl (fun rec => gandiRecords rec.rrsetValues rec.rrsetTtl)
    fun _ rec hd => ⟨rec, hd, rfl⟩
  rw [← hs]
  rcases found with _ | rec
  · obtain ⟨-, rfl⟩ := runs_done.1 hr
    exact (Function.update_eq_self_iff.2 hs).symm
  change t = update s₁ _ (SetProvider.gandi.removed value (gandiRecords rec.rrsetValues rec.rrsetTtl))
  rw [gandi_kept]
  dsimp only at hr
  split at hr
  · rename_i he
    rw [runs_delete hr, he]
    rfl
  · exact runs_put hr ⟨_, _, rfl, rfl⟩

theorem goDaddy_removed
    (h : Runs (SetProvider.goDaddy.api lib).Serves s (DnsSolver.removeGoDaddy lib token handle value) (.ok ()) t) :
    t = update s (goDaddyUrl handle.zone handle.name)
      (SetProvider.goDaddy.removed value (s (goDaddyUrl handle.zone handle.name))) := by
  obtain ⟨found, s₁, hl, hr⟩ := runs_bind_ok.1 h
  obtain ⟨rfl, hs⟩ := runs_lookup hl goDaddyRecords fun _ recs hd => ⟨recs, hd, rfl⟩
  rw [← hs]
  rcases found with _ | recs
  · obtain ⟨-, rfl⟩ := runs_done.1 hr
    exact (Function.update_eq_self_iff.2 hs).symm
  change t = update s₁ _ (SetProvider.goDaddy.removed value (goDaddyRecords recs))
  rw [goDaddy_kept]
  dsimp only at hr
  split at hr
  · rename_i he
    rw [runs_delete hr, he]
    rfl
  · exact runs_put hr ⟨_, rfl, rfl⟩

/-- `remove` takes the value out of the set, and leaves all other sets alone. -/
theorem remove_removed
    (h : Runs (p.api lib).Serves s (DnsSolver.remove lib (p.provider token) handle value) (.ok ()) t) :
    t = update s (p.url handle.zone handle.name) (p.removed value (s (p.url handle.zone handle.name))) := by
  cases p with
  | gandi => exact gandi_removed h
  | goDaddy => exact goDaddy_removed h

/-! ## What the two leave -/

theorem map_filter_eq_self_iff {α : Type} {keep : α → Bool} {f : α → α} {xs : List α} :
    (xs.filter keep).map f = xs ↔ ∀ x ∈ xs, keep x = true ∧ f x = x := by
  constructor
  · intro h
    have hl : (xs.filter keep).length = xs.length := by
      rw [← length_map f, h]
    have hk := length_filter_eq_length_iff.1 hl
    rw [filter_eq_self.2 hk] at h
    have hf := map_inj_left.1 (h.trans (map_id xs).symm)
    exact fun x hx => ⟨hk x hx, hf x hx⟩
  · intro h
    rw [filter_eq_self.2 fun x hx => (h x hx).1]
    exact (map_congr_left fun x hx => (h x hx).2).trans (map_id xs)

/-- With the challenge, the set has all the values it had. -/
theorem value_mem_added (p : SetProvider) (value : Str) (set : List TxtRecord) :
    value ∈ (p.added value set).map (·.value) ∧ ∀ rec ∈ set, rec.value ∈ (p.added value set).map (·.value) := by
  cases p with
  | gandi =>
    rw [SetProvider.added, gandiRecords_value]
    split
    · grind
    grind
  | goDaddy =>
    rw [SetProvider.added]
    split
    · grind
    grind

/-- Without the challenge again, the set has the records that are kept, and Gandi's their new TTL. -/
theorem gandi_removed_added (value : Str) (set : List TxtRecord) :
    SetProvider.gandi.removed value (SetProvider.gandi.added value set) =
      (set.filter (SetProvider.gandi.keeps value)).map fun rec => ⟨rec.value, dnsTtl⟩ := by
  have hs : gandiRecords ((set.map (·.value)).filter fun item => item ≠ value ∧ trimQuotes item ≠ value) dnsTtl =
      (set.filter (SetProvider.gandi.keeps value)).map fun rec => ⟨rec.value, dnsTtl⟩ := by
    simp only [gandiRecords, filter_map, map_map]
    rfl
  rw [← hs, SetProvider.added, gandi_kept value ⟨_, dnsTtl⟩]
  grind

theorem goDaddy_removed_added (value : Str) (set : List TxtRecord) :
    SetProvider.goDaddy.removed value (SetProvider.goDaddy.added value set) =
      set.filter (SetProvider.goDaddy.keeps value) := by
  rw [SetProvider.removed, SetProvider.added]
  split
  · rfl
  · rw [filter_append, filter_singleton]
    simp [SetProvider.keeps]

theorem removed_added_eq_iff (p : SetProvider) (value : Str) (set : List TxtRecord) :
    p.removed value (p.added value set) = set ↔ ∀ rec ∈ set, p.Spared value rec := by
  cases p with
  | gandi =>
    rw [gandi_removed_added, map_filter_eq_self_iff]
    refine forall₂_congr fun rec _ => and_congr_right fun _ => ?_
    constructor
    · intro h _
      rw [← h]
    · intro h
      rw [← h rfl]
  | goDaddy =>
    rw [goDaddy_removed_added, filter_eq_self]
    refine forall₂_congr fun rec _ => ?_
    constructor
    · exact fun h => ⟨h, nofun⟩
    · exact And.left

/-- Between `create` and `remove` the set has the value and all it had before; after
`remove` everything is as before exactly if every record of the set is spared. -/
theorem record_set_restored {handle : RecordHandle}
    (hcreate : Runs (p.api lib).Serves s (DnsSolver.create lib (p.provider token) fqdn zone name value)
      (.ok handle) t)
    (hremove : Runs (p.api lib).Serves t (DnsSolver.remove lib (p.provider token) handle value) (.ok ()) u) :
    value ∈ (t (p.url zone name)).map (·.value) ∧
      (∀ record ∈ s (p.url zone name), record.value ∈ (t (p.url zone name)).map (·.value)) ∧
      (u = s ↔ ∀ record ∈ s (p.url zone name), p.Spared value record) := by
  obtain ⟨rfl, rfl, rfl⟩ := create_added hcreate
  rw [remove_removed hremove, Function.update_idem, Function.update_self, Function.update_eq_self_iff,
    removed_added_eq_iff]
  obtain ⟨hv, hold⟩ := value_mem_added p value (s (p.url handle.zone handle.name))
  exact ⟨hv, hold, Iff.rfl⟩

/-! ## A service that answers -/

theorem gandiBody_injective {vals vals' : List Str} {ttl ttl' : Nat}
    (h : gandiBody vals ttl = gandiBody vals' ttl') : vals = vals' ∧ ttl = ttl' := by
  simp only [gandiBody, ApiBody.json.injEq, Json.object.injEq, cons.injEq, Prod.mk.injEq, Json.array.injEq,
    Json.unsigned.injEq, true_and, and_true] at h
  exact ⟨map_injective_iff.2 (fun _ _ => Json.string.inj) h.1, h.2⟩

theorem goDaddyBody_injective {recs recs' : List GoDaddyRecord}
    (h : goDaddyBody recs = goDaddyBody recs') : recs = recs' := by
  simp only [goDaddyBody, ApiBody.json.injEq, Json.array.injEq] at h
  refine map_injective_iff.2 (fun rec rec' h => ?_) h
  obtain ⟨data, ttl⟩ := rec
  obtain ⟨rfl, rfl⟩ := h
  rfl

/-- The reply to everything, with what a `GET` reads. -/
def okReply (bytes : List UInt8) : ApiReply := ⟨200, .ok bytes⟩

theorem api_reads_unique (p : SetProvider) {bytes : List UInt8} {recs : List TxtRecord}
    (h : (p.api lib).Reads bytes recs) (h' : (p.api lib).Reads bytes recs') : recs' = recs := by
  cases p with
  | gandi | goDaddy =>
    obtain ⟨found, hf, rfl⟩ := h
    obtain ⟨found', hf', rfl⟩ := h'
    cases hf.symm.trans hf'
    rfl

theorem api_writes_unique (p : SetProvider) {body : ApiBody} {recs : List TxtRecord}
    (h : (p.api lib).Writes body recs) (h' : (p.api lib).Writes body recs') : recs' = recs := by
  cases p with
  | gandi =>
    obtain ⟨vals, ttl, rfl, rfl⟩ := h
    obtain ⟨vals', ttl', hb, rfl⟩ := h'
    obtain ⟨rfl, rfl⟩ := gandiBody_injective hb
    rfl
  | goDaddy =>
    obtain ⟨found, rfl, rfl⟩ := h
    obtain ⟨found', hb, rfl⟩ := h'
    rw [goDaddyBody_injective hb]

section
variable {url op : Str} {auth : ApiAuth} {bytes : List UInt8} {body : ApiBody} {recs : List TxtRecord}

theorem lookup_runs {τ : Type} {decode : List UInt8 → Except Str τ} {found : τ} (hd : decode bytes = .ok found)
    (hr : (p.api lib).Reads bytes (s url)) :
    Runs (p.api lib).Serves s (jsonAllowNotFound lib.reasons decode { method := .get, url, auth } op)
      (.ok (some found)) s :=
  have hs : (p.api lib).Serves s (.http { method := .get, url, auth }) (.ok (okReply bytes)) s := by
    refine ⟨rfl, fun body hb _ h => ?_⟩
    cases hb
    exact api_reads_unique p hr h
  runs_jsonAllowNotFound.2 ⟨okReply bytes, hs, .inr ⟨(by decide : 200 ≠ 404), bytes, found, rfl, rfl, hd, rfl⟩⟩

theorem put_runs (hw : (p.api lib).Writes body recs) :
    Runs (p.api lib).Serves s (empty lib.reasons { method := .put, url, auth, body } op) (.ok ())
      (update s url recs) :=
  runs_empty.2 ⟨okReply [], fun _ h => by rw [api_writes_unique p hw h], rfl⟩

theorem delete_runs : Runs (p.api lib).Serves s (empty lib.reasons { method := .delete, url, auth } op) (.ok ())
      (update s url []) :=
  runs_empty.2 ⟨okReply [], rfl, rfl⟩

end

/-- `create` and `remove` succeed if the set can be read. -/
theorem create_runs {bytes : List UInt8} (hr : (p.api lib).Reads bytes (s (p.url zone name))) :
    Runs (p.api lib).Serves s (DnsSolver.create lib (p.provider token) fqdn zone name value) (.ok ⟨zone, name, []⟩)
      (update s (p.url zone name) (p.added value (s (p.url zone name)))) := by
  cases p with
  | gandi =>
    obtain ⟨rec, hd, hs⟩ := hr
    have hwr := gandi_written value (some rec) hs.symm
    apply runs_bind_ok.2
    refine ⟨[], _, ?_, .done _ _⟩
    apply runs_bind_ok.2
    refine ⟨some rec, s, lookup_runs (p := .gandi) hd ⟨rec, hd, hs⟩, ?_⟩
    apply runs_bind_ok.2
    exact ⟨(), _, put_runs (p := .gandi) ⟨_, _, rfl, hwr.symm⟩, .done _ _⟩
  | goDaddy =>
    obtain ⟨found, hd, hs⟩ := hr
    have hwr := goDaddy_written value (some found) hs.symm
    apply runs_bind_ok.2
    refine ⟨[], _, ?_, .done _ _⟩
    apply runs_bind_ok.2
    refine ⟨some found, s, lookup_runs (p := .goDaddy) hd ⟨found, hd, hs⟩, ?_⟩
    apply runs_bind_ok.2
    exact ⟨(), _, put_runs (p := .goDaddy) ⟨_, rfl, hwr.symm⟩, .done _ _⟩

theorem remove_runs {bytes : List UInt8} (hr : (p.api lib).Reads bytes (s (p.url handle.zone handle.name))) :
    Runs (p.api lib).Serves s (DnsSolver.remove lib (p.provider token) handle value) (.ok ())
      (update s (p.url handle.zone handle.name) (p.removed value (s (p.url handle.zone handle.name)))) := by
  cases p with
  | gandi =>
    obtain ⟨rec, hd, hs⟩ := hr
    apply runs_bind_ok.2
    refine ⟨some rec, s, lookup_runs (p := .gandi) hd ⟨rec, hd, hs⟩, ?_⟩
    change Runs _ _ _ _ (update s _ (SetProvider.gandi.removed value (s (gandiUrl handle.zone handle.name))))
    rw [show s (gandiUrl handle.zone handle.name) = _ from hs, gandi_kept]
    dsimp only
    split
    · rename_i he
      rw [he]
      exact delete_runs (p := .gandi)
    · exact put_runs (p := .gandi) ⟨_, _, rfl, rfl⟩
  | goDaddy =>
    obtain ⟨found, hd, hs⟩ := hr
    apply runs_bind_ok.2
    refine ⟨some found, s, lookup_runs (p := .goDaddy) hd ⟨found, hd, hs⟩, ?_⟩
    change Runs _ _ _ _ (update s _ (SetProvider.goDaddy.removed value (s (goDaddyUrl handle.zone handle.name))))
    rw [show s (goDaddyUrl handle.zone handle.name) = _ from hs, goDaddy_kept]
    dsimp only
    split
    · rename_i he
      rw [he]
      exact delete_runs (p := .goDaddy)
    · exact put_runs (p := .goDaddy) ⟨_, rfl, rfl⟩

/-- Both succeed if the set can be read before and after the first. -/
theorem create_remove_runs (p : SetProvider) (token fqdn zone name value : Str) {bytes bs' : List UInt8}
    (hr : (p.api lib).Reads bytes (s (p.url zone name)))
    (hread' : (p.api lib).Reads bs' (p.added value (s (p.url zone name)))) :
    ∃ t, Runs (p.api lib).Serves s (DnsSolver.create lib (p.provider token) fqdn zone name value)
        (.ok ⟨zone, name, []⟩) t ∧
      Runs (p.api lib).Serves t (DnsSolver.remove lib (p.provider token) ⟨zone, name, []⟩ value) (.ok ())
        (update s (p.url zone name) (p.removed value (p.added value (s (p.url zone name))))) := by
  refine ⟨_, create_runs hr, ?_⟩
  have hrm : Runs (p.api lib).Serves (update s (p.url zone name) (p.added value (s (p.url zone name))))
      (DnsSolver.remove lib (p.provider token) ⟨zone, name, []⟩ value) (.ok ()) _ :=
    remove_runs (by rwa [Function.update_self] : (p.api lib).Reads bs' _)
  simp_all

end

/-- A service with three record sets, each by a byte. -/
def recordLibraries : DnsLibraries where
  reasons _ := none
  cfZones _ := .error []
  cfRecord _ := .error []
  gandiRecord bytes := .ok (if bytes = [0] then ⟨["a"], 3600⟩ else ⟨["a", "v"], 300⟩)
  goDaddyRecords bytes := .ok (if bytes = [0] then [⟨"a", 3600⟩]
    else if bytes = [1] then [⟨"a", 3600⟩, ⟨"v", 600⟩] else [⟨"v", 3600⟩])
  jsonValue _ := .error []
  porkbunResponse _ := .error []
  nameRecord _ := .error []
  vultrRecord _ := .error []
  parseXml _ := none

theorem record_set_restored_goDaddy :
    ∃ t u, Runs (SetProvider.goDaddy.api recordLibraries).Serves (fun _ => [⟨"a".toList, 3600⟩])
        (DnsSolver.create recordLibraries (.goDaddy []) [] [] [] "v".toList) (.ok ⟨[], [], []⟩) t ∧
      Runs (SetProvider.goDaddy.api recordLibraries).Serves t
        (DnsSolver.remove recordLibraries (.goDaddy []) ⟨[], [], []⟩ "v".toList) (.ok ()) u ∧
      u = fun _ => [⟨"a".toList, 3600⟩] := by
  obtain ⟨t, hc, hr⟩ := create_remove_runs (s := fun _ => [⟨"a", 3600⟩])
    .goDaddy [] [] [] [] "v" ⟨_, (rfl : recordLibraries.goDaddyRecords [0] = _), by decide⟩
    ⟨_, (rfl : recordLibraries.goDaddyRecords [1] = _), by decide⟩
  refine ⟨t, _, hc, hr, (record_set_restored hc hr).2.2.2 ?_⟩
  intro rec hrc
  cases mem_singleton.1 hrc
  exact ⟨by decide, nofun⟩

/-- Gandi's set comes back with another TTL, and a set that has the value of the challenge without it. -/
theorem record_set_not_restored :
    (∃ t u, Runs (SetProvider.gandi.api recordLibraries).Serves (fun _ => [⟨"a".toList, 3600⟩])
        (DnsSolver.create recordLibraries (.gandi []) [] [] [] "v".toList) (.ok ⟨[], [], []⟩) t ∧
      Runs (SetProvider.gandi.api recordLibraries).Serves t
        (DnsSolver.remove recordLibraries (.gandi []) ⟨[], [], []⟩ "v".toList) (.ok ()) u ∧
      u (gandiUrl [] []) = [⟨"a".toList, 300⟩]) ∧
    ∃ t u, Runs (SetProvider.goDaddy.api recordLibraries).Serves (fun _ => [⟨"v".toList, 3600⟩])
        (DnsSolver.create recordLibraries (.goDaddy []) [] [] [] "v".toList) (.ok ⟨[], [], []⟩) t ∧
      Runs (SetProvider.goDaddy.api recordLibraries).Serves t
        (DnsSolver.remove recordLibraries (.goDaddy []) ⟨[], [], []⟩ "v".toList) (.ok ()) u ∧
      u (goDaddyUrl [] []) = [] := by
  constructor
  · obtain ⟨t, hc, hr⟩ := create_remove_runs (s := fun _ => [⟨"a", 3600⟩])
      .gandi [] [] [] [] "v" ⟨_, (rfl : recordLibraries.gandiRecord [0] = _), by decide⟩
      ⟨_, (rfl : recordLibraries.gandiRecord [1] = _), by decide⟩
    exact ⟨t, _, hc, hr, (Function.update_self ..).trans (by decide)⟩
  obtain ⟨t, hc, hr⟩ := create_remove_runs (s := fun _ => [⟨"v", 3600⟩])
    .goDaddy [] [] [] [] "v" ⟨_, (rfl : recordLibraries.goDaddyRecords [2] = _), by decide⟩
    ⟨_, (rfl : recordLibraries.goDaddyRecords [2] = _), by decide⟩
  exact ⟨t, _, hc, hr, (Function.update_self ..).trans (by decide)⟩

end Hysteria.Proof
