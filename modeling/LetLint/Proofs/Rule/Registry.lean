/-
The rules of a registry depend neither on the order in which they were registered nor on the order in which
a hash map enumerates them. A table keeps every rule under its own identity, so no two of its rules share
one, and what it enumerates has one sorted form. That form is what the registry keeps in place: under each
identity the rule that was registered last.
-/
import LetLint.Rule.Registry
import LetLint.Rule.LetSafety
import LetLint.Proofs.Order
import Mathlib.Data.List.Induction

namespace LetLint

open Text.Utf8 (encode compare_encode)

namespace Registry

/-! ## Registrations -/

/-- The rule that was registered last under an identity. -/
def last? (id : String) (rules : List Rule) : Option Rule := rules.reverse.find? fun rule => rule.id == id

theorem last?_append_singleton (id : String) (rules : List Rule) (rule : Rule) :
    last? id (rules ++ [rule]) = if rule.id = id then some rule else last? id rules := by
  unfold last?
  rw [List.reverse_append, List.reverse_singleton, List.singleton_append, List.find?_cons]
  by_cases h : rule.id = id
  · rw [if_pos h, beq_iff_eq.2 h]
  · rw [if_neg h, beq_eq_false_iff_ne.2 h]

theorem id_of_last? {id : String} {rules : List Rule} {rule : Rule} (h : last? id rules = some rule) :
    rule.id = id := by
  have hfound := List.find?_some h
  exact beq_iff_eq.1 hfound

/-! ## Places -/

/-- The rules are in the order of their identities, and no two of them share one. -/
def Ascending (rules : List Rule) : Prop := rules.Pairwise fun a b => compare a.id b.id = .lt

theorem id_ne_of_lt {a b : Rule} (h : compare a.id b.id = .lt) : a.id ≠ b.id := fun he => by
  rw [he, Std.ReflOrd.compare_self] at h
  cases h

theorem Ascending.nodup {rules : List Rule} (h : Ascending rules) : rules.Nodup :=
  h.imp fun hlt he => id_ne_of_lt hlt (congrArg Rule.id he)

/-- Rules in the order of their identities are decided by which rules they are. -/
theorem Ascending.eq_of_mem_iff {rules others : List Rule} (h : Ascending rules) (h' : Ascending others)
    (hmem : ∀ rule, rule ∈ rules ↔ rule ∈ others) : rules = others := by
  have hperm : rules.Perm others := (List.perm_ext_iff_of_nodup h.nodup h'.nodup).2 hmem
  refine hperm.eq_of_pairwise (fun a b _ _ hab hba => ?_) h h'
  have hnot : compare b.id a.id ≠ .lt := Std.OrientedCmp.not_lt_of_lt hab
  exact absurd hba hnot

section

variable {rule other r : Rule} {rules rest : List Rule}

/-- What comes before the first of some rules comes before them all. -/
theorem lt_of_lt_head (hlt : compare rule.id other.id = .lt) (h : Ascending (other :: rest)) (hr : r ∈ other :: rest) :
    compare rule.id r.id = .lt := by
  rcases List.mem_cons.1 hr with rfl | hr
  · exact hlt
  · exact Std.TransCmp.lt_trans hlt ((List.pairwise_cons.1 h).1 r hr)

/-- A rule that is put into its place is there instead of one with its identity. -/
theorem mem_place (h : Ascending rules) : r ∈ place rule rules ↔ r = rule ∨ r ∈ rules ∧ r.id ≠ rule.id := by
  induction rules with
  | nil => simp [place]
  | cons other rest ih =>
    obtain ⟨hother, hrest⟩ := List.pairwise_cons.1 h
    unfold place
    cases hcompare : compare rule.id other.id with
    | lt =>
      have hne (hr : r ∈ other :: rest) : r.id ≠ rule.id := (id_ne_of_lt (lt_of_lt_head hcompare h hr)).symm
      simp only [List.mem_cons (a := r) (b := rule), and_iff_left_of_imp hne]
    | eq =>
      have hid : rule.id = other.id := Std.LawfulEqOrd.eq_of_compare hcompare
      have hne (hr : r ∈ rest) : r.id ≠ rule.id := hid ▸ (id_ne_of_lt (hother r hr)).symm
      have hgone : ¬ (r = other ∧ r.id ≠ rule.id) := fun ⟨he, hne⟩ => hne (he ▸ hid.symm)
      rw [List.mem_cons, List.mem_cons, or_and_right, and_iff_left_of_imp hne, or_iff_right hgone]
    | gt =>
      have hne (he : r = other) : r.id ≠ rule.id := he ▸ id_ne_of_lt (Std.OrientedCmp.lt_of_gt hcompare)
      rw [List.mem_cons, ih hrest, List.mem_cons, or_and_right, and_iff_left_of_imp hne, or_left_comm]

theorem ascending_place (h : Ascending rules) : Ascending (place rule rules) := by
  induction rules with
  | nil => exact List.pairwise_singleton _ rule
  | cons other rest ih =>
    obtain ⟨hother, hrest⟩ := List.pairwise_cons.1 h
    unfold place
    cases hcompare : compare rule.id other.id with
    | lt => exact List.pairwise_cons.2 ⟨fun r hr => lt_of_lt_head hcompare h hr, h⟩
    | eq =>
      have hid : rule.id = other.id := Std.LawfulEqOrd.eq_of_compare hcompare
      exact List.pairwise_cons.2 ⟨fun r hr => hid ▸ hother r hr, hrest⟩
    | gt =>
      refine List.pairwise_cons.2 ⟨fun r hr => ?_, ih hrest⟩
      rcases (mem_place hrest).1 hr with rfl | ⟨hr, -⟩
      · exact Std.OrientedCmp.lt_of_gt hcompare
      · exact hother r hr

end

/-- The registry after some registrations. -/
def ofRules (rules : List Rule) : Registry := rules.foldl register empty

theorem ofRules_append_singleton (rules : List Rule) (rule : Rule) :
    ofRules (rules ++ [rule]) = (ofRules rules).register rule := by
  rw [ofRules, List.foldl_append]
  rfl

theorem ascending_ofRules (rules : List Rule) : Ascending (ofRules rules).rules := by
  induction rules using List.reverseRecOn with
  | nil => exact List.Pairwise.nil
  | append_singleton rules rule ih =>
    rw [ofRules_append_singleton]
    exact ascending_place ih

/-- A registry holds the rule that was registered last under its identity. -/
theorem mem_ofRules {rules : List Rule} {r : Rule} : r ∈ (ofRules rules).rules ↔ last? r.id rules = some r := by
  induction rules using List.reverseRecOn with
  | nil => simp [ofRules, empty, last?]
  | append_singleton rules rule ih =>
    rw [ofRules_append_singleton, register, mem_place (ascending_ofRules rules), ih, last?_append_singleton]
    by_cases h : rule.id = r.id
    · simp [h, eq_comm]
    · have hne : r ≠ rule := fun he => h (congrArg Rule.id he).symm
      simp [h, Ne.symm h, hne]

end Registry

/-! ## Tables -/

/-- Rules by their identities, hashed. -/
structure RuleTable where
  rules : Std.HashMap String Rule

namespace RuleTable

/-- No rules. -/
def empty : RuleTable := ⟨∅⟩

/-- Keeps a rule under its identity. -/
def register (table : RuleTable) (rule : Rule) : RuleTable := ⟨table.rules.insert rule.id rule⟩

/-- The table after some registrations. -/
def ofRules (rules : List Rule) : RuleTable := rules.foldl register empty

/-- The values of the table, in whatever order they are enumerated. -/
def Enumerates (table : RuleTable) (values : List Rule) : Prop := values.Perm (table.rules.toList.map (·.2))

/-- Rules sorted by the octets of their identities. -/
def sortById (values : List Rule) : List Rule :=
  values.mergeSort fun a b => (compareOn (fun rule => encode rule.id) a b).isLE

theorem getElem?_ofRules (rules : List Rule) (id : String) : (ofRules rules).rules[id]? = Registry.last? id rules := by
  induction rules using List.reverseRecOn with
  | nil => exact Std.HashMap.getElem?_empty
  | append_singleton rules rule ih =>
    rw [Registry.last?_append_singleton, ← ih, ofRules, List.foldl_append]
    show ((ofRules rules).rules.insert rule.id rule)[id]? = _
    simp only [Std.HashMap.getElem?_insert, beq_iff_eq]

/-- The key of a rule is its identity, and the rule is the last one under it. -/
theorem mem_toList_ofRules {rules : List Rule} {entry : String × Rule} :
    entry ∈ (ofRules rules).rules.toList ↔ entry.1 = entry.2.id ∧ Registry.last? entry.2.id rules = some entry.2 := by
  rw [← Prod.eta entry, Std.HashMap.mem_toList_iff_getElem?_eq_some, getElem?_ofRules]
  constructor
  · intro h
    have hid := Registry.id_of_last? h
    exact ⟨hid.symm, hid ▸ h⟩
  · rintro ⟨hid, h⟩
    rw [hid]
    exact h

/-- No rule is enumerated twice: its key would be there twice. -/
theorem nodup_values (rules : List Rule) : ((ofRules rules).rules.toList.map (·.2)).Nodup := by
  refine List.pairwise_map.2 (Std.HashMap.distinct_keys_toList.imp_of_mem fun {a b} ha hb hkeys hvalues => ?_)
  have hsame : a.1 = b.1 := by
    calc a.1 = a.2.id := (mem_toList_ofRules.1 ha).1
      _ = b.2.id := by rw [hvalues]
      _ = b.1 := (mem_toList_ofRules.1 hb).1.symm
  exact absurd hsame (beq_eq_false_iff_ne.1 hkeys)

theorem mem_of_enumerates {rules values : List Rule} (h : (ofRules rules).Enumerates values) {r : Rule} :
    r ∈ values ↔ Registry.last? r.id rules = some r := by
  rw [h.mem_iff, List.mem_map]
  constructor
  · rintro ⟨entry, hentry, rfl⟩
    exact (mem_toList_ofRules.1 hentry).2
  · intro hlast
    exact ⟨(r.id, r), mem_toList_ofRules.2 ⟨rfl, hlast⟩, rfl⟩

/-- What a table enumerates is sorted into what the registry keeps in place. -/
theorem sortById_of_enumerates {rules values : List Rule} (h : (ofRules rules).Enumerates values) :
    sortById values = (Registry.ofRules rules).rules := by
  have hnodup : values.Nodup := h.nodup_iff.2 (nodup_values rules)
  have hascending := Registry.ascending_ofRules rules
  have hperm : (Registry.ofRules rules).rules.Perm values :=
    (List.perm_ext_iff_of_nodup hascending.nodup hnodup).2 fun r => by
      rw [Registry.mem_ofRules, mem_of_enumerates h]
  refine (eq_mergeSort _ (fun a ha b hb heq => ?_) hperm (hascending.imp fun {a b} hlt => ?_)).symm
  · -- both are the last rule under one identity
    rw [compareOn, compare_encode] at heq
    have hid : a.id = b.id := Std.LawfulEqOrd.eq_of_compare heq
    have hlast := (mem_of_enumerates h).1 ha
    rw [hid, (mem_of_enumerates h).1 hb] at hlast
    exact (Option.some.inj hlast).symm
  · rw [compareOn, compare_encode, hlt]
    rfl

end RuleTable

/-! ## Determinism -/

namespace Registry

/-- Under an identity a registry holds the rule that was registered last under it, and no other. -/
theorem filter_ofRules (rules : List Rule) (id : String) :
    (ofRules rules).rules.filter (·.id == id) = (last? id rules).toList := by
  have hnodup : ((ofRules rules).rules.filter (·.id == id)).Nodup := (ascending_ofRules rules).nodup.filter _
  have hmem (r : Rule) : r ∈ (ofRules rules).rules.filter (·.id == id) ↔ last? id rules = some r := by
    rw [List.mem_filter, mem_ofRules, beq_iff_eq]
    constructor
    · rintro ⟨hlast, rfl⟩
      exact hlast
    · intro hlast
      have hid := id_of_last? hlast
      exact ⟨hid ▸ hlast, hid⟩
  cases hlast : last? id rules with
  | none =>
    rw [hlast] at hmem
    exact List.eq_nil_iff_forall_not_mem.2 fun r hr => nomatch (hmem r).1 hr
  | some rule =>
    rw [hlast] at hmem
    refine List.perm_singleton.1 ((List.perm_ext_iff_of_nodup hnodup (List.pairwise_singleton _ rule)).2 fun r => ?_)
    rw [hmem, List.mem_singleton, Option.some_inj, eq_comm]

/-- Registrations leave the same registry if they agree on the last rule under each identity, and only then. -/
theorem ofRules_eq_iff {rules others : List Rule} :
    ofRules rules = ofRules others ↔ ∀ id, last? id rules = last? id others := by
  constructor
  · intro h id
    have hsame := filter_ofRules rules id
    rw [h, filter_ofRules others id] at hsame
    exact Option.ext fun r => by rw [← Option.mem_toList, ← hsame, Option.mem_toList]
  · intro h
    have hrules : (ofRules rules).rules = (ofRules others).rules :=
      (ascending_ofRules rules).eq_of_mem_iff (ascending_ofRules others) fun r => by rw [mem_ofRules, mem_ofRules, h]
    exact congrArg mk hrules

/-- Whatever rules are registered and in whatever order a table enumerates them, to sort them gives what the
registry keeps in place. It is strictly ascending by the octets of the identities, has under each identity the
rule that was registered last and no other, and supports the descriptors of its rules. Registrations that agree
on the last rule under each identity cannot be told apart, and no others leave the same registry. -/
theorem rules_of_registrations (rules : List Rule) :
    (∀ values, (RuleTable.ofRules rules).Enumerates values →
      RuleTable.sortById values = (ofRules rules).rules ∧
      (RuleTable.sortById values).map (·.descriptor) = (ofRules rules).supported) ∧
    (ofRules rules).rules.Pairwise (fun a b => compare (encode a.id) (encode b.id) = .lt) ∧
    (∀ id, (ofRules rules).rules.filter (·.id == id) = (last? id rules).toList) ∧
    ∀ others,
      (ofRules rules = ofRules others ↔ ∀ id, last? id rules = last? id others) ∧
      ∀ values values', (∀ id, last? id rules = last? id others) →
        (RuleTable.ofRules rules).Enumerates values → (RuleTable.ofRules others).Enumerates values' →
        RuleTable.sortById values = RuleTable.sortById values' := by
  refine ⟨fun values h => ?_, ?_, filter_ofRules rules, fun others => ⟨ofRules_eq_iff, ?_⟩⟩
  · have hsorted := RuleTable.sortById_of_enumerates h
    exact ⟨hsorted, by rw [hsorted, supported]⟩
  · refine (ascending_ofRules rules).imp fun {a b} hlt => ?_
    rw [compare_encode, hlt]
  · intro values values' hagree h h'
    rw [RuleTable.sortById_of_enumerates h, RuleTable.sortById_of_enumerates h', ofRules_eq_iff.2 hagree]

/-- A rule is replaced by one with its identity, and the tables are gone through backwards. -/
theorem rules_of_registrations_replaced :
    let named (id title : String) : Rule :=
      { LetSafety.rule with descriptor := { LetSafety.rule.descriptor with id := id, title := title } }
    let old := named "b" "old"
    let new := named "b" "new"
    let other := named "a" "other"
    old.descriptor ≠ new.descriptor ∧
      ∃ values values', (RuleTable.ofRules [old, other, new]).Enumerates values ∧
        (RuleTable.ofRules [new, other]).Enumerates values' ∧
        RuleTable.sortById values = [other, new] ∧ RuleTable.sortById values' = [other, new] := by
  intro named old new other
  have hagree (id : String) : last? id [old, other, new] = last? id [new, other] := by
    by_cases ha : "a" = id
    · subst ha
      rfl
    · by_cases hb : "b" = id
      · subst hb
        rfl
      · simp [last?, old, new, other, named, Rule.id, ha, hb]
  obtain ⟨hlisted, -, -, hany⟩ := rules_of_registrations [old, other, new]
  have h := List.reverse_perm ((RuleTable.ofRules [old, other, new]).rules.toList.map (·.2))
  have h' := List.reverse_perm ((RuleTable.ofRules [new, other]).rules.toList.map (·.2))
  have hkept : (ofRules [old, other, new]).rules = [other, new] := by
    have hfirst : compare other.id old.id = .lt := by decide
    have hlast : compare new.id other.id = .gt := by decide
    have hsame : compare new.id old.id = .eq := by decide
    simp only [Registry.ofRules, Registry.empty, Registry.register, Registry.place, List.foldl_cons, List.foldl_nil,
      hfirst, hlast, hsame]
  have hsorted := (hlisted _ h).1.trans hkept
  exact ⟨by decide, _, _, h, h', hsorted, ((hany [new, other]).2 _ _ hagree h h').symm.trans hsorted⟩

end Registry

end LetLint
