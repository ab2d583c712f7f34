import Mathlib.Tactic.MkIffOfInductiveProp
import Catalog.Proofs.EvaluatedParts

/-! What the keywords of an object schema ask of a value, keyword by keyword. The rules that are
made of them are checked in another order and partly together, and ask the same. -/

namespace Catalog.Schema
variable {follow : Followed}

/-- What the keywords of an object schema ask of a value. -/
@[mk_iff]
structure Keywords.Accepts (follow : Followed) (k : Keywords) (v : Json) : Prop where
  asserted : ∀ a ∈ k.assertions, a.issues v = []
  required : ∀ names, k.required = some names → issues follow (.assert (.required names)) v = []
  pattern : ∀ t, k.pattern = some t → ∃ p, Pattern.parse t = some p ∧
    issues follow (.assert (.pattern p)) v = []
  members : k.MembersKept follow v
  propertyNames : ∀ s, k.propertyNames = some s → issues follow (.propertyNames s) v = []
  items : ∀ s, k.items = some s → issues follow (.items (k.prefixItems.getD []).length s) v = []
  prefixItems : ∀ ss, k.prefixItems = some ss → issues follow (.prefixItems ss) v = []
  furtherItems : ∀ s, k.furtherItems = some s →
    issues follow (.items (k.prefixItems.getD []).length s) v = []
  contains : ∀ s, k.contains = some s →
    issues follow (.contains s (k.minContains.getD 1) k.maxContains) v = []
  dependentSchemas : ∀ known, k.dependentSchemas = some known →
    issues follow (.dependentSchemas known) v = []
  allOf : ∀ ss, k.allOf = some ss → issues follow (.allOf ss) v = []
  anyOf : ∀ ss, k.anyOf = some ss → issues follow (.anyOf ss) v = []
  oneOf : ∀ ss, k.oneOf = some ss → issues follow (.oneOf ss) v = []
  excluded : ∀ e, k.excluded = some e → issues follow (.not e.1 e.2) v = []
  conditional : ∀ s, k.conditional = some s → issues follow s v = []
  references : ∀ p ∈ k.references, issues follow (.ref p) v = []
  unevaluatedItems : ∀ s, k.unevaluatedItems = some s → ∀ xs, v = .array xs →
    ∀ i x, xs[i]? = some x → k.Evaluates follow v (.item i) ∨ issues follow s x = []
  unevaluatedProperties : ∀ s, k.unevaluatedProperties = some s → ∀ ms, v = .object ms →
    ∀ e ∈ ms, k.Evaluates follow v (.member e.1) ∨ issues follow s e.2 = []

/-- In the older draft a reference stands for the whole schema. -/
def Keywords.OnlyRef (draft : Draft) (k : Keywords) : Prop :=
  draft = .draft7 ∧ k.ref.isSome = true

theorem Keywords.schema_of_onlyRef {draft : Draft} {k : Keywords} {s : Schema}
    (h : k.schema draft = some s) (hr : k.OnlyRef draft) :
    ∃ p, k.ref = some p ∧ s = .every [.ref p] := by
  obtain ⟨rfl, hs⟩ := hr
  obtain ⟨p, hp⟩ := Option.isSome_iff_exists.mp hs
  simp only [Keywords.schema, hp] at h
  cases h
  exact ⟨p, hp, rfl⟩

/-- The rules of keywords, and those about what they leave over. -/
def Keywords.all (k : Keywords) (members pattern : List Schema) : List Schema :=
  k.rules members pattern ++ k.leftover (k.rules members pattern)

/-- The rule of a pattern that has been read. -/
def patternRule (pattern : Option Pattern) : List Schema :=
  (pattern.map fun p => .assert (.pattern p)).toList

theorem Keywords.schema_of_not_onlyRef {draft : Draft} {k : Keywords} {s : Schema}
    (h : k.schema draft = some s) (hr : ¬k.OnlyRef draft) :
    ∃ (members : List Schema) (pattern : Option Pattern), memberRules k = some members ∧
      k.pattern.map Pattern.parse = pattern.map some ∧
        s = .every (k.all members (patternRule pattern)) := by
  unfold Keywords.schema at h
  split at h
  · next p hp => exact absurd ⟨rfl, by simp [hp]⟩ hr
  · obtain ⟨members, hmembers, h⟩ := Option.bind_eq_some_iff.mp h
    refine ⟨members, ?_⟩
    cases hp : k.pattern with
    | none =>
      simp only [hp] at h
      cases h
      exact ⟨none, hmembers, rfl, rfl⟩
    | some t =>
      simp only [hp] at h
      obtain ⟨pattern, hpattern, h⟩ := Option.bind_eq_some_iff.mp h
      obtain ⟨p, hparse, rfl⟩ := Option.map_eq_some_iff.mp hpattern
      cases h
      exact ⟨some p, hmembers, by simp [hparse], rfl⟩

theorem forall_mem_patternRule {k : Keywords} {pattern : Option Pattern}
    (h : k.pattern.map Pattern.parse = pattern.map some) {P : Schema → Prop} :
    (∀ s ∈ patternRule pattern, P s) ↔
      ∀ t, k.pattern = some t → ∃ p, Pattern.parse t = some p ∧ P (.assert (.pattern p)) := by
  cases hk : k.pattern with
  | none =>
    have hp : pattern = none := by simpa [hk] using h.symm
    simp [patternRule, hp]
  | some t =>
    obtain ⟨p, hp, hparse⟩ : ∃ p, pattern = some p ∧ Pattern.parse t = some p := by
      simpa [hk, @eq_comm _ _ (Pattern.parse t)] using h.symm
    simp [patternRule, hp, hparse]

theorem evaluates_keywords_iff {k : Keywords} {members : List Schema} {pattern : Option Pattern}
    (h : memberRules k = some members) {v : Json} {p : Part} :
    evaluatesAny follow (k.rules members (patternRule pattern)) v p = true ↔
      k.Evaluates follow v p := by
  apply evaluates_rules_iff h
  intro s hs
  obtain ⟨q, -, rfl⟩ := Option.map_eq_some_iff.mp (Option.mem_toList.mp hs)
  exact ⟨q, rfl⟩

/-- The rules about what is left over ask it of the parts that no keyword evaluates. -/
theorem forall_mem_leftover {k : Keywords} {members : List Schema} {pattern : Option Pattern}
    (h : memberRules k = some members) {v : Json} :
    (∀ s ∈ k.leftover (k.rules members (patternRule pattern)), issues follow s v = []) ↔
      (∀ s, k.unevaluatedItems = some s → ∀ xs, v = .array xs → ∀ i x, xs[i]? = some x →
        k.Evaluates follow v (.item i) ∨ issues follow s x = []) ∧
      ∀ s, k.unevaluatedProperties = some s → ∀ ms, v = .object ms → ∀ e ∈ ms,
        k.Evaluates follow v (.member e.1) ∨ issues follow s e.2 = [] := by
  simp only [Keywords.leftover, List.mem_append, or_imp, forall_and, forall_mem_rule]
  apply and_congr
  · apply forall₂_congr
    intro s _
    cases v with
    | array xs =>
      rw [issues_unevaluatedItems_eq_nil]
      simp only [evaluates_keywords_iff h, Json.array.injEq, forall_eq']
    | _ => simp [issues]
  · apply forall₂_congr
    intro s _
    cases v with
    | object ms =>
      rw [issues_unevaluatedProperties_eq_nil]
      simp only [evaluates_keywords_iff h, Json.object.injEq, forall_eq']
    | _ => simp [issues]

/-- Keywords accept a value by what each of them asks. -/
theorem Keywords.issues_schema_eq_nil {draft : Draft} {k : Keywords} {s : Schema}
    (h : k.schema draft = some s) (hr : ¬k.OnlyRef draft) {v : Json} (hv : v.collapse = v) :
    issues follow s v = [] ↔ k.Accepts follow v := by
  obtain ⟨members, pattern, hread, hpattern, rfl⟩ := k.schema_of_not_onlyRef h hr
  have hpattern : _ ↔ _ := forall_mem_patternRule hpattern (P := fun s => issues follow s v = [])
  have hmembers : _ ↔ _ ∧ k.MembersKept follow v := memberRules_eq_nil hread hv
  have hconditional : (∀ s ∈ k.conditional.toList, issues follow s v = []) ↔
      ∀ s, k.conditional = some s → issues follow s v = [] := by
    simp
  rw [issues_every_eq_nil, all, List.forall_mem_append, forall_mem_leftover hread]
  simp only [rules, List.mem_append, or_imp, forall_and, List.forall_mem_map, forall_mem_rule,
    hpattern, hconditional, and_assoc]
  constructor
  · rintro ⟨hasserted, hrequired, htext, hrules, hnames, hitems, hprefix, hfurther, hcontains,
      hdependent, hall, hany, hone, hexcluded, hcondition, href, hitem, hmember⟩
    obtain ⟨hrequired, hkept⟩ := hmembers.mp ⟨hrequired, hrules⟩
    exact {
      asserted := fun a ha => (issues_assert a v).symm.trans (hasserted a ha)
      required := hrequired
      pattern := htext
      members := hkept
      propertyNames := hnames
      items := hitems
      prefixItems := hprefix
      furtherItems := hfurther
      contains := hcontains
      dependentSchemas := hdependent
      allOf := hall
      anyOf := hany
      oneOf := hone
      excluded := hexcluded
      conditional := hcondition
      references := href
      unevaluatedItems := hitem
      unevaluatedProperties := hmember }
  · intro h
    obtain ⟨hrequired, hrules⟩ := hmembers.mpr ⟨h.required, h.members⟩
    have hasserted : ∀ a ∈ k.assertions, issues follow (.assert a) v = [] := fun a ha =>
      (issues_assert a v).trans (h.asserted a ha)
    exact ⟨hasserted, hrequired, h.pattern, hrules, h.propertyNames, h.items, h.prefixItems,
      h.furtherItems, h.contains, h.dependentSchemas, h.allOf, h.anyOf, h.oneOf, h.excluded,
      h.conditional, h.references, h.unevaluatedItems, h.unevaluatedProperties⟩

/-- Keywords evaluate what each of them does, and those about unevaluated parts evaluate all that is
left. -/
theorem Keywords.evaluates_schema_iff {draft : Draft} {k : Keywords} {s : Schema}
    (h : k.schema draft = some s) (hr : ¬k.OnlyRef draft) {v : Json} {p : Part} :
    evaluates follow s v p = true ↔ k.Evaluates follow v p ∨ k.EvaluatesRest v p := by
  obtain ⟨members, pattern, hread, -, rfl⟩ := k.schema_of_not_onlyRef h hr
  have hleftover : (∃ s ∈ k.leftover (k.rules members (patternRule pattern)),
      evaluates follow s v p = true) ↔ k.EvaluatesRest v p := by
    simp only [leftover, List.mem_append, or_and_right, exists_or, exists_mem_rule, EvaluatesRest]
    apply or_congr
    · cases v <;> cases p <;> simp [evaluates, Option.isSome_iff_exists]
    · cases v <;> cases p <;> simp [evaluates, Option.isSome_iff_exists]
  have hkeywords : evaluatesAny follow (k.rules members (patternRule pattern)) v p = true ↔
      k.Evaluates follow v p := evaluates_keywords_iff hread
  rw [evaluates, evaluatesAny_iff, ← hleftover, ← hkeywords, evaluatesAny_iff]
  simp only [all, List.mem_append, or_and_right, exists_or]

/-- The references of what a keyword holds, if it is there. -/
def refsIn {α : Type} (f : α → List String) (a : Option α) : List String :=
  (a.map f).getD []

/-- The references of some keywords, in the order of their rules. -/
def Keywords.refs (k : Keywords) : List String :=
  refsIn refsNamed k.properties ++ refsIn refsNamed k.patternProperties ++
    refsIn Schema.refs k.additionalProperties ++ refsIn Schema.refs k.propertyNames ++
    refsIn Schema.refs k.items ++ refsIn refsEvery k.prefixItems ++
    refsIn Schema.refs k.furtherItems ++ refsIn Schema.refs k.contains ++
    refsIn refsNamed k.dependentSchemas ++ refsIn refsEvery k.allOf ++ refsIn refsEvery k.anyOf ++
    refsIn refsEvery k.oneOf ++ refsIn (fun e => e.2.refs) k.excluded ++
    refsIn Schema.refs k.conditional ++ k.references ++ refsIn Schema.refs k.unevaluatedItems ++
    refsIn Schema.refs k.unevaluatedProperties

theorem refsEvery_append (ss ts : List Schema) :
    refsEvery (ss ++ ts) = refsEvery ss ++ refsEvery ts := by
  induction ss with
  | nil => rfl
  | cons s ss ih => simp [refsEvery, ih]

theorem refsMatching_of_mapM {l : List (String × Schema)} {matching : List (Pattern × Schema)}
    (h : l.mapM (fun (p, s) => (Pattern.parse p).map fun p => (p, s)) = some matching) :
    refsMatching matching = refsNamed l := by
  induction l generalizing matching with
  | nil =>
    have hl : matching = [] := by simpa using h.symm
    simp [hl, refsMatching, refsNamed]
  | cons e l ih =>
    simp only [List.mapM_cons, Option.bind_eq_bind, Option.bind_eq_some_iff, Option.pure_def,
      Option.some.injEq] at h
    obtain ⟨m, hm, ms, hms, rfl⟩ := h
    obtain ⟨p, -, rfl⟩ := Option.map_eq_some_iff.mp hm
    rw [refsMatching, refsNamed, ih hms]

theorem refsEvery_rule {α : Type} (f : α → Schema) (a : Option α) :
    refsEvery (rule f a) = refsIn (fun x => (f x).refs) a := by
  cases a <;> simp [rule, refsEvery, refsIn]

theorem refsEvery_assert (as : List Assertion) : refsEvery (as.map .assert) = [] := by
  induction as with
  | nil => rfl
  | cons a as ih => simp [refsEvery, refs, ih]

theorem refsEvery_members {k : Keywords} {members : List Schema}
    (h : memberRules k = some members) : refsEvery members =
      refsIn refsNamed k.properties ++ refsIn refsNamed k.patternProperties ++
        refsIn Schema.refs k.additionalProperties := by
  obtain ⟨matching, hm, hrules⟩ := memberRules_cases h
  have hknown : refsIn refsNamed k.properties = refsNamed (k.properties.getD []) := by
    cases k.properties <;> rfl
  have hmatching : refsIn refsNamed k.patternProperties = refsMatching matching := by
    rw [refsMatching_of_mapM hm]
    cases k.patternProperties <;> rfl
  rw [hknown, hmatching]
  have hlisted : refsEvery (listedRules k matching) =
      refsNamed (k.properties.getD []) ++ refsMatching matching := by
    rw [← hknown, ← hmatching, listedRules, refsEvery_append]
    cases hk : k.properties <;> cases hp : k.patternProperties <;>
      simp [refsEvery, refsIn, Schema.refs, ← hmatching, hp]
  cases hrules with
  | free hnone => simp [hlisted, hnone, refsIn]
  | loose hall =>
    simp [refsEvery_append, hlisted, hall, refsEvery, refsIn, Schema.refs, refsNamed, refsMatching]
  | memberless ha hk hp =>
    simp [ha, hk, hp, refsEvery, refsIn, Schema.refs, refsNamed, refsMatching]
  | closed ha | fused ha _ _ | others ha => simp [ha, refsEvery, refsIn, Schema.refs]

theorem Keywords.refs_schema {draft : Draft} {k : Keywords} {s : Schema}
    (h : k.schema draft = some s) :
    k.OnlyRef draft ∧ s.refs = k.ref.toList ∨ ¬k.OnlyRef draft ∧ s.refs = k.refs := by
  by_cases hr : k.OnlyRef draft
  · obtain ⟨p, hp, rfl⟩ := k.schema_of_onlyRef h hr
    exact Or.inl ⟨hr, by simp [hp, Schema.refs, refsEvery]⟩
  · obtain ⟨members, pattern, hmembers, -, rfl⟩ := k.schema_of_not_onlyRef h hr
    refine Or.inr ⟨hr, ?_⟩
    simp only [Schema.refs, all, leftover, rules, refsEvery_append, refsEvery_assert,
      refsEvery_rule, refsEvery_members hmembers]
    have hrequired : refsEvery (if isFused members then [] else assertion .required k.required) =
        [] := by
      split
      · rfl
      · cases k.required <;> simp [assertion, rule, refsEvery, Schema.refs]
    have hpattern : refsEvery (patternRule pattern) = [] := by
      cases pattern <;> simp [patternRule, refsEvery, Schema.refs]
    have hconditional : refsEvery k.conditional.toList = refsIn Schema.refs k.conditional := by
      cases k.conditional <;> simp [refsEvery, refsIn]
    have href (ps : List String) : refsEvery (ps.map .ref) = ps := by
      induction ps with
      | nil => rfl
      | cons p ps ih => simp [refsEvery, Schema.refs, ih]
    rw [hrequired, hpattern, hconditional, href]
    simp [Keywords.refs]

end Catalog.Schema
