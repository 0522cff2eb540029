import Hysteria.Framework.Bytes
import Hysteria.Framework.Fallible
import Hysteria.Spec.Namecheap

/-!
# The form of a host list

The fields that `host_fields` makes of hosts, with those that `call` adds, are read back
as these hosts (`readHosts_form`), which are numbered from 1 on (`numbered_form`).
`host_fields` fails if a host is not complete (`hostFields_ok`).
-/

namespace Hysteria.Proof

open Framework Impl Spec List

variable {fld fld' : HostField} {idx num : Nat} {form flds : HostForm} {key : Str} {ent : Str × Str}

/-! ## `host_fields` -/

/-- The fields of one host. -/
def fieldsOf (host : HostRecord) (number : Nat) : HostForm :=
  HostField.all.filterMap fun field => (host.attr field).map (field.key number, ·)

/-- The fields of the hosts, numbered from the first number on. -/
def fieldsFrom (hosts : List HostRecord) (number : Nat) : HostForm :=
  (hosts.zipIdx number).flatMap fun entry => fieldsOf entry.1 entry.2

theorem source_eq_mxPref : fld.source = "MXPref" ↔ fld = .mxPref := by
  cases fld <;> decide

theorem mem_all (fld : HostField) : fld ∈ HostField.all := by
  cases fld <;> decide

theorem foldlM_hostField {host : Element} (all : List HostField)
    (h : (all.map fun fld => (fld.source, fld.target)).foldlM (hostField idx host) form = .ok flds) :
    (∀ fld ∈ all, fld ≠ .mxPref → ((HostRecord.ofElement host).attr fld).isSome = true) ∧
      flds = form ++ all.filterMap fun fld =>
        ((HostRecord.ofElement host).attr fld).map (fld.key (idx + 1), ·) := by
  induction all generalizing form with
  | nil =>
    obtain rfl : form = flds := Except.ok.inj h
    simp
  | cons fld all ih =>
    rw [map_cons, foldlM_cons] at h
    have ha : (HostRecord.ofElement host).attr fld = host.attr fld.source := rfl
    cases hv : host.attr fld.source with
    | some val =>
      rw [hostField, hv] at h
      obtain ⟨hal, rfl⟩ := ih h
      refine ⟨?_, ?_⟩
      · grind
      · rw [filterMap_cons, ha, hv, append_assoc]
        rfl
    | none =>
      rw [hostField, hv] at h
      dsimp only at h
      split at h
      · cases h
      rename_i hmx
      have hf := source_eq_mxPref.1 (not_not.1 hmx)
      obtain ⟨hal, rfl⟩ := ih h
      refine ⟨?_, ?_⟩
      · grind
      · rw [filterMap_cons, ha, hv]
        rfl

theorem foldlM_hostFields {hosts : List Element} (h : (hosts.zipIdx idx).foldlM recordFields form = .ok flds) :
    (∀ host ∈ hosts, (HostRecord.ofElement host).Complete) ∧
      flds = form ++ fieldsFrom (hosts.map .ofElement) (idx + 1) := by
  induction hosts generalizing idx form with
  | nil =>
    obtain rfl : form = flds := Except.ok.inj h
    exact ⟨fun _ hm => absurd hm not_mem_nil, (append_nil form).symm⟩
  | cons host hosts ih =>
    rw [zipIdx_cons, foldlM_cons] at h
    rcases hf : recordFields form (host, idx) with err | first
    · rw [hf] at h
      cases h
    rw [hf] at h
    obtain ⟨hc, rfl⟩ := foldlM_hostField HostField.all hf
    obtain ⟨ha, rfl⟩ := ih h
    refine ⟨?_, append_assoc _ _ _⟩
    intro other hoth
    obtain rfl | hoth := mem_cons.1 hoth
    · exact fun fld => hc fld (mem_all fld)
    · exact ha other hoth

/-- `host_fields` succeeds for complete hosts only. -/
theorem hostFields_ok {hosts : List Element} (h : hostFields hosts = .ok flds) :
    (∀ host ∈ hosts, (HostRecord.ofElement host).Complete) ∧ flds = fieldsFrom (hosts.map .ofElement) 1 :=
  foldlM_hostFields h

/-! ## Reading a form -/

/-- A text without digits. -/
def Plain (key : Str) : Prop := key.all (fun c => (decimalDigit c).isNone) = true

theorem Plain.digit (h : Plain key) : ∀ c ∈ key, decimalDigit c = none := fun c hc =>
  Option.isNone_iff_eq_none.1 (all_eq_true.1 h c hc)

theorem plain_target (fld : HostField) : Plain fld.target := by
  cases fld <;> rfl

theorem target_injective (h : fld.target = fld'.target) : fld = fld' := by
  revert h
  cases fld <;> cases fld' <;> decide

theorem key_inj {m n : Nat} : fld.key m = fld'.key n ↔ fld = fld' ∧ m = n := by
  constructor
  · intro h
    obtain ⟨ht, hn⟩ := append_showNat_inj (plain_target fld).digit (plain_target fld').digit h
    exact ⟨target_injective ht, hn⟩
  · rintro ⟨rfl, rfl⟩
    rfl

theorem key_not_plain (fld : HostField) (num : Nat) : ¬ Plain (fld.key num) := by
  intro hp
  obtain ⟨digit, hd⟩ := exists_mem_of_ne_nil _ (showNat_ne_nil num)
  have hs := decimalDigits_digit (decimalDigits_showNat num) digit hd
  rw [hp.digit digit (mem_append_right _ hd)] at hs
  cases hs

theorem mem_fieldsOf {host : HostRecord} :
    ent ∈ fieldsOf host num ↔ ∃ fld val, host.attr fld = some val ∧ ent = (fld.key num, val) := by
  rw [fieldsOf, mem_filterMap]
  constructor
  · rintro ⟨fld, -, hf⟩
    obtain ⟨val, hv, rfl⟩ := Option.map_eq_some_iff.1 hf
    exact ⟨fld, val, hv, rfl⟩
  grind [mem_all]

theorem mem_fieldsFrom {hosts : List HostRecord} : ent ∈ fieldsFrom hosts 1 ↔
      ∃ i host fld val, hosts[i]? = some host ∧ host.attr fld = some val ∧
        ent = (HostField.key fld (i + 1), val) := by
  rw [fieldsFrom, mem_flatMap]
  constructor
  · rintro ⟨⟨host, num⟩, hm, he⟩
    obtain ⟨fld, val, hv, rfl⟩ := mem_fieldsOf.1 he
    grind
  rintro ⟨i, host, fld, val, hh, hv, rfl⟩
  refine ⟨(host, i + 1), mk_mem_zipIdx_iff_le_and_getElem?_sub.2 ⟨Nat.le_add_left 1 i, hh⟩, ?_⟩
  exact mem_fieldsOf.2 ⟨fld, val, hv, rfl⟩

theorem formField_eq {found : Option Str}
    (h : ∀ val, (key, val) ∈ form ↔ found = some val) : formField form key = found := by
  unfold formField
  cases hf : form.find? (·.1 = key) with
  | none =>
    cases found with
    | none => rfl
    | some val => grind
  | some ent =>
    grind

section
variable {hosts : List HostRecord} {rest : HostForm} (hrest : ∀ ent ∈ rest, Plain ent.1)

include hrest in
theorem mem_form {val : Str} : (fld.key num, val) ∈ fieldsFrom hosts 1 ++ rest ↔
      ∃ i host, num = i + 1 ∧ hosts[i]? = some host ∧ host.attr fld = some val := by
  rw [mem_append, mem_fieldsFrom]
  constructor
  · rintro (⟨i, host, fld', val', hh, hv, he⟩ | hm)
    · obtain ⟨hk, rfl⟩ := Prod.mk.inj he
      obtain ⟨rfl, rfl⟩ := key_inj.1 hk
      exact ⟨i, host, rfl, hh, hv⟩
    grind [key_not_plain]
  grind

include hrest in
theorem formField_form (fld : HostField) (i : Nat) :
    formField (fieldsFrom hosts 1 ++ rest) (fld.key (i + 1)) = (hosts[i]?).bind (·.attr fld) := by
  refine formField_eq fun val => (mem_form hrest).trans ?_
  rw [Option.bind_eq_some_iff]
  constructor
  · simp
  simp

theorem formField_plain (hk : Plain key) : formField (fieldsFrom hosts 1 ++ rest) key = formField rest key := by
  unfold formField
  rw [find?_append, find?_eq_none.2, Option.none_or]
  intro ent he hf
  obtain ⟨i, host, fld, val, -, -, rfl⟩ := mem_fieldsFrom.1 he
  obtain rfl := of_decide_eq_true hf
  exact key_not_plain fld (i + 1) hk

theorem hostsFrom_eq (hc : ∀ host ∈ hosts, host.Complete)
    (hf : ∀ (fld : HostField) i, formField form (fld.key (i + 1)) = (hosts[i]?).bind (·.attr fld)) :
    ∀ (limit i : Nat), hosts.length ≤ limit + i → hostsFrom form limit (i + 1) = hosts.drop i := by
  intro limit
  induction limit with
  | zero =>
    intro i hl
    rw [drop_of_length_le (by omega)]
    rfl
  | succ limit ih =>
    intro i hl
    rw [hostsFrom, hf]
    by_cases hi : i < hosts.length
    · have hn := hc _ (getElem_mem hi) .name nofun
      rw [getElem?_eq_getElem hi, Option.bind_some, if_pos hn, ih (i + 1) (by omega), drop_eq_getElem_cons hi]
      congr 1
      simp_all
    simp_all

theorem length_le_fieldsFrom (hc : ∀ host ∈ hosts, host.Complete) (num : Nat) :
    hosts.length ≤ (fieldsFrom hosts num).length := by
  rw [← length_zipIdx (i := num)]
  refine length_le_flatMap fun ent hm => ?_
  have hn := hc ent.1 (fst_mem_of_mem_zipIdx hm) .name nofun
  obtain ⟨val, hv⟩ := Option.isSome_iff_exists.1 hn
  exact length_pos_of_mem (mem_fieldsOf.2 ⟨.name, val, hv, rfl⟩)

include hrest in
theorem readHosts_form (hc : ∀ host ∈ hosts, host.Complete) : readHosts (fieldsFrom hosts 1 ++ rest) = hosts := by
  refine hostsFrom_eq hc (formField_form hrest) _ 0 ?_
  have hl := length_le_fieldsFrom hc 1
  rw [length_append]
  omega

include hrest in
theorem numbered_form (hc : ∀ host ∈ hosts, host.Complete) : Numbered (fieldsFrom hosts 1 ++ rest) := by
  refine ⟨hosts.length, fun fld num => ⟨?_, fun hf hp hle => ?_⟩⟩
  · grind [mem_form]
  have hi : num - 1 < hosts.length := by omega
  obtain ⟨val, hv⟩ := Option.isSome_iff_exists.1 (hc _ (List.getElem_mem hi) fld hf)
  have hn := (Nat.sub_add_cancel hp).symm
  exact ⟨val, (mem_form hrest).2 ⟨num - 1, _, hn, List.getElem?_eq_getElem hi, hv⟩⟩

end

end Hysteria.Proof
