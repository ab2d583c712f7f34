import Mathlib.Data.List.Forall2
import Catalog.Proofs.KeywordRules

/-! What a document is compiled to. Each keyword is read from the member that has its name, and the
schemas of a list or of a map are those of its parts, one for one. -/

namespace Catalog.Schema
variable {draft : Draft}

theorem list?_eq_some {vs : List Json} {ss : List Schema} :
    list? draft vs = some ss ↔ List.Forall₂ (fun v s => ofJson? draft v = some s) vs ss := by
  induction vs generalizing ss with
  | nil => cases ss <;> simp [list?]
  | cons v vs ih =>
    simp only [list?, Option.bind_eq_bind, Option.bind_eq_some_iff, Option.pure_def,
      Option.some.injEq, ih]
    constructor
    · rintro ⟨s, hs, ss, hss, rfl⟩
      exact .cons hs hss
    · intro h
      cases h with
      | cons hs hss => exact ⟨_, hs, _, hss, rfl⟩

theorem named?_eq_some {ms : Entries Json} {known : List (String × Schema)} :
    named? draft ms = some known ↔
      List.Forall₂ (fun e s => s.1 = e.1 ∧ ofJson? draft e.2 = some s.2) ms known := by
  induction ms generalizing known with
  | nil => cases known <;> simp [named?]
  | cons e ms ih =>
    simp only [named?, Option.bind_eq_bind, Option.bind_eq_some_iff, Option.pure_def,
      Option.some.injEq, ih]
    constructor
    · rintro ⟨s, hs, known, hknown, rfl⟩
      exact .cons ⟨rfl, hs⟩ hknown
    · intro h
      cases h with
      | @cons _ s _ known hs hknown =>
        obtain ⟨hk, hs⟩ := hs
        exact ⟨s.2, hs, known, hknown, by rw [← hk]⟩

theorem ofJson?_object_eq_some {ms : Entries Json} {s : Schema} :
    ofJson? draft (.object ms) = some s ↔
      ∃ k, keywords? draft ms = some k ∧ k.schema draft = some s := by
  rw [ofJson?, Option.bind_eq_some_iff]

/-- The reader makes `a` of the member with the name. Without the member there is nothing. -/
def Reads {α : Type} (ms : Entries Json) (name : String) (read : Json → Option α) (a : Option α) :
    Prop :=
  (ms.lookup name).map read = a.map some

def options? : Json → Option (List Json)
  | .array options => some options
  | _ => none

/-- The members, if the draft is the one in which their keywords have a meaning. -/
def only (d draft : Draft) (ms : Entries Json) : Entries Json :=
  if draft = d then ms else []

/-- The keywords are those of the members, each read from the member with its name. In the older
draft a list of items is what goes before them in the newer one, and what depends on a member is
written in one place. -/
structure Keywords.Of (draft : Draft) (ms : Entries Json) (k : Keywords) : Prop where
  type : Reads ms "type" types? k.type
  const : Reads ms "const" some k.const
  enum : Reads ms "enum" options? k.enum
  minimum : Reads ms "minimum" number? k.minimum
  maximum : Reads ms "maximum" number? k.maximum
  exclusiveMinimum : Reads ms "exclusiveMinimum" number? k.exclusiveMinimum
  exclusiveMaximum : Reads ms "exclusiveMaximum" number? k.exclusiveMaximum
  minLength : Reads ms "minLength" count? k.minLength
  maxLength : Reads ms "maxLength" count? k.maxLength
  minItems : Reads ms "minItems" count? k.minItems
  maxItems : Reads ms "maxItems" count? k.maxItems
  minProperties : Reads ms "minProperties" count? k.minProperties
  maxProperties : Reads ms "maxProperties" count? k.maxProperties
  uniqueItems : Reads ms "uniqueItems" flag? k.uniqueItems
  required : Reads ms "required" names? k.required
  pattern : Reads ms "pattern" text? k.pattern
  properties : Reads ms "properties" (members? draft) k.properties
  patternProperties : Reads ms "patternProperties" (members? draft) k.patternProperties
  additionalProperties : Reads ms "additionalProperties" (ofJson? draft) k.additionalProperties
  propertyNames : Reads ms "propertyNames" (ofJson? draft) k.propertyNames
  contains : Reads ms "contains" (ofJson? draft) k.contains
  minContains : Reads (only .draft2020 draft ms) "minContains" count? k.minContains
  maxContains : Reads (only .draft2020 draft ms) "maxContains" count? k.maxContains
  allOf : Reads ms "allOf" (schemas? draft) k.allOf
  anyOf : Reads ms "anyOf" (schemas? draft) k.anyOf
  oneOf : Reads ms "oneOf" (schemas? draft) k.oneOf
  excluded : Reads ms "not" (fun v => (ofJson? draft v).map fun s => (v, s)) k.excluded
  condition : Reads ms "if" (ofJson? draft) k.condition
  consequence : Reads ms "then" (ofJson? draft) k.consequence
  alternative : Reads ms "else" (ofJson? draft) k.alternative
  ref : Reads ms "$ref" text? k.ref
  dynamicRef : Reads (only .draft2020 draft ms) "$dynamicRef" text? k.dynamicRef
  unevaluatedItems :
    Reads (only .draft2020 draft ms) "unevaluatedItems" (ofJson? draft) k.unevaluatedItems
  unevaluatedProperties :
    Reads (only .draft2020 draft ms) "unevaluatedProperties" (ofJson? draft) k.unevaluatedProperties
  additionalItems :
    Reads (only .draft7 draft ms) "additionalItems" (ofJson? draft) k.additionalItems
  items : draft = .draft2020 → Reads ms "items" (ofJson? draft) k.items
  prefixItems : draft = .draft2020 → Reads ms "prefixItems" (schemas? draft) k.prefixItems
  dependentSchemas : draft = .draft2020 →
    Reads ms "dependentSchemas" (members? draft) k.dependentSchemas
  dependentRequired : draft = .draft2020 →
    Reads ms "dependentRequired" requirements? k.dependentRequired
  oldItems : draft = .draft7 → Reads (lists false ms) "items" (ofJson? draft) k.items
  oldPrefixItems : draft = .draft7 → Reads (lists true ms) "items" (schemas? draft) k.prefixItems
  oldDependentSchemas : draft = .draft7 →
    Reads ms "dependencies" (dependents? draft) k.dependentSchemas
  oldDependentRequired : draft = .draft7 →
    Reads ms "dependencies" listedRequirements? k.dependentRequired

/-- A member with the name gives the field what is read from it, and another leaves it alone. -/
def Sets {α : Type} (name key : String) (read : Json → Option α) (v : Json) (a a' : Option α) :
    Prop :=
  if name = key then ∃ x, read v = some x ∧ a' = some x else a' = a

theorem sets_self {α : Type} {key : String} {read : Json → Option α} {v : Json} {a : Option α}
    {x : α} (h : read v = some x) : Sets key key read v a (some x) := by
  rw [Sets, if_pos rfl]
  exact ⟨x, h, rfl⟩

theorem sets_other {α : Type} {name key : String} {read : Json → Option α} {v : Json} {a : Option α}
    (h : name ≠ key) : Sets name key read v a a := by
  rw [Sets, if_neg h]

theorem Reads.cons {α : Type} {ms : Entries Json} {name key : String} {read : Json → Option α}
    {v : Json} {a a' : Option α} (h : Reads ms key read a) (hs : Sets name key read v a a') :
    Reads ((name, v) :: ms) key read a' := by
  unfold Reads Sets at *
  rw [Entries.lookup_cons]
  split at hs
  · next hk =>
    obtain ⟨x, hx, rfl⟩ := hs
    simp [hk, hx]
  · next hk =>
    rw [hs, if_neg (Ne.symm hk)]
    exact h

/-- A member with the name sets the field in the one draft, and no member does in the other. -/
def SetsOnly {α : Type} (d draft : Draft) (name key : String) (read : Json → Option α) (v : Json)
    (a a' : Option α) : Prop :=
  if draft = d then Sets name key read v a a' else a' = a

theorem setsOnly_self {α : Type} {d : Draft} {key : String} {read : Json → Option α} {v : Json}
    {a : Option α} {x : α} (h : read v = some x) : SetsOnly d d key key read v a (some x) := by
  rw [SetsOnly, if_pos rfl]
  exact sets_self h

theorem setsOnly_other {α : Type} {d draft : Draft} {name key : String} {read : Json → Option α}
    {v : Json} {a : Option α} (h : draft = d → name ≠ key) :
    SetsOnly d draft name key read v a a := by
  unfold SetsOnly
  split
  · next hd => exact sets_other (h hd)
  · rfl

theorem Reads.only_cons {α : Type} {d draft : Draft} {ms : Entries Json} {name key : String}
    {read : Json → Option α} {v : Json} {a a' : Option α} (h : Reads (only d draft ms) key read a)
    (hs : SetsOnly d draft name key read v a a') :
    Reads (only d draft ((name, v) :: ms)) key read a' := by
  unfold SetsOnly only at *
  split at hs
  · next hd =>
    rw [if_pos hd] at h ⊢
    exact h.cons hs
  · next hd =>
    rw [if_neg hd] at h ⊢
    exact hs ▸ h

/-- What one member does to the keywords. -/
structure Keywords.Step (draft : Draft) (name : String) (v : Json) (k k' : Keywords) : Prop where
  type : Sets name "type" types? v k.type k'.type
  const : Sets name "const" some v k.const k'.const
  enum : Sets name "enum" options? v k.enum k'.enum
  minimum : Sets name "minimum" number? v k.minimum k'.minimum
  maximum : Sets name "maximum" number? v k.maximum k'.maximum
  exclusiveMinimum :
    Sets name "exclusiveMinimum" number? v k.exclusiveMinimum k'.exclusiveMinimum
  exclusiveMaximum :
    Sets name "exclusiveMaximum" number? v k.exclusiveMaximum k'.exclusiveMaximum
  minLength : Sets name "minLength" count? v k.minLength k'.minLength
  maxLength : Sets name "maxLength" count? v k.maxLength k'.maxLength
  minItems : Sets name "minItems" count? v k.minItems k'.minItems
  maxItems : Sets name "maxItems" count? v k.maxItems k'.maxItems
  minProperties : Sets name "minProperties" count? v k.minProperties k'.minProperties
  maxProperties : Sets name "maxProperties" count? v k.maxProperties k'.maxProperties
  uniqueItems : Sets name "uniqueItems" flag? v k.uniqueItems k'.uniqueItems
  required : Sets name "required" names? v k.required k'.required
  pattern : Sets name "pattern" text? v k.pattern k'.pattern
  properties : Sets name "properties" (members? draft) v k.properties k'.properties
  patternProperties :
    Sets name "patternProperties" (members? draft) v k.patternProperties k'.patternProperties
  additionalProperties :
    Sets name "additionalProperties" (ofJson? draft) v k.additionalProperties
      k'.additionalProperties
  propertyNames : Sets name "propertyNames" (ofJson? draft) v k.propertyNames k'.propertyNames
  contains : Sets name "contains" (ofJson? draft) v k.contains k'.contains
  minContains :
    SetsOnly .draft2020 draft name "minContains" count? v k.minContains k'.minContains
  maxContains :
    SetsOnly .draft2020 draft name "maxContains" count? v k.maxContains k'.maxContains
  allOf : Sets name "allOf" (schemas? draft) v k.allOf k'.allOf
  anyOf : Sets name "anyOf" (schemas? draft) v k.anyOf k'.anyOf
  oneOf : Sets name "oneOf" (schemas? draft) v k.oneOf k'.oneOf
  excluded :
    Sets name "not" (fun v => (ofJson? draft v).map fun s => (v, s)) v k.excluded k'.excluded
  condition : Sets name "if" (ofJson? draft) v k.condition k'.condition
  consequence : Sets name "then" (ofJson? draft) v k.consequence k'.consequence
  alternative : Sets name "else" (ofJson? draft) v k.alternative k'.alternative
  ref : Sets name "$ref" text? v k.ref k'.ref
  dynamicRef : SetsOnly .draft2020 draft name "$dynamicRef" text? v k.dynamicRef k'.dynamicRef
  unevaluatedItems :
    SetsOnly .draft2020 draft name "unevaluatedItems" (ofJson? draft) v k.unevaluatedItems
      k'.unevaluatedItems
  unevaluatedProperties :
    SetsOnly .draft2020 draft name "unevaluatedProperties" (ofJson? draft) v
      k.unevaluatedProperties k'.unevaluatedProperties
  additionalItems :
    SetsOnly .draft7 draft name "additionalItems" (ofJson? draft) v k.additionalItems
      k'.additionalItems
  items : draft = .draft2020 → Sets name "items" (ofJson? draft) v k.items k'.items
  prefixItems : draft = .draft2020 →
    Sets name "prefixItems" (schemas? draft) v k.prefixItems k'.prefixItems
  dependentSchemas : draft = .draft2020 →
    Sets name "dependentSchemas" (members? draft) v k.dependentSchemas k'.dependentSchemas
  dependentRequired : draft = .draft2020 →
    Sets name "dependentRequired" requirements? v k.dependentRequired k'.dependentRequired
  oldItems : draft = .draft7 → v.shape ≠ .array →
    Sets name "items" (ofJson? draft) v k.items k'.items
  oldPrefixItems : draft = .draft7 → v.shape = .array →
    Sets name "items" (schemas? draft) v k.prefixItems k'.prefixItems
  oldKept : draft = .draft7 → (v.shape ≠ .array → k'.prefixItems = k.prefixItems) ∧
    (v.shape = .array → k'.items = k.items)
  oldDependentSchemas : draft = .draft7 →
    Sets name "dependencies" (dependents? draft) v k.dependentSchemas k'.dependentSchemas
  oldDependentRequired : draft = .draft7 →
    Sets name "dependencies" listedRequirements? v k.dependentRequired k'.dependentRequired

-- In the cases below many lemmas are tried, none of which is to look into what setting a field is.
attribute [local irreducible] Sets SetsOnly

section Steps
variable {k : Keywords} {v : Json}

theorem step_enum (options : List Json) :
    k.Step draft "enum" (.array options) { k with enum := some options } := by
  constructor <;> first
    | exact sets_other (by decide)
    | exact sets_self rfl
    | exact setsOnly_other fun _ => by decide
    | (intros; exact sets_other (by decide))
    | (intros; exact ⟨fun _ => rfl, fun _ => rfl⟩)

/-- In the older draft the items are a list of schemas or a single one. -/
theorem step_oldPrefixItems {vs : List Json} {ss : List Schema}
    (hss : schemas? .draft7 (.array vs) = some ss) :
    k.Step .draft7 "items" (.array vs) { k with prefixItems := some ss } := by
  constructor <;> first
    | exact sets_other (by decide)
    | exact setsOnly_other fun _ => by decide
    | exact fun hd => absurd hd (by decide)
    | exact fun _ => sets_other (by decide)
    | exact fun _ _ => sets_self hss
    | exact fun _ hv => absurd rfl hv
    | exact fun _ => ⟨fun hv => absurd rfl hv, fun _ => rfl⟩

theorem step_oldItems (hv : v.shape ≠ .array) {s : Schema} (hs : ofJson? .draft7 v = some s) :
    k.Step .draft7 "items" v { k with items := some s } := by
  constructor <;> first
    | exact sets_other (by decide)
    | exact setsOnly_other fun _ => by decide
    | exact fun hd => absurd hd (by decide)
    | exact fun _ => sets_other (by decide)
    | exact fun _ _ => sets_self hs
    | exact fun _ harray => absurd harray hv
    | exact fun _ => ⟨fun _ => rfl, fun harray => absurd harray hv⟩

/-- What depends on a member, of which the older draft makes two fields. -/
theorem step_dependencies {known : List (String × Schema)} {names : List (String × List String)}
    (hknown : dependents? .draft7 v = some known) (hnames : listedRequirements? v = some names) :
    k.Step .draft7 "dependencies" v
      { k with dependentSchemas := some known, dependentRequired := some names } := by
  constructor <;> first
    | exact sets_other (by decide)
    | exact setsOnly_other fun _ => by decide
    | exact fun hd => absurd hd (by decide)
    | exact fun _ => sets_self hknown
    | exact fun _ => sets_self hnames
    | (intros; exact sets_other (by decide))
    | (intros; exact ⟨fun _ => rfl, fun _ => rfl⟩)

/-- An excluded schema is kept with its source. -/
theorem step_excluded {s : Schema} (hs : ofJson? draft v = some s) :
    k.Step draft "not" v { k with excluded := some (v, s) } := by
  have hpair : (ofJson? draft v).map (fun s => (v, s)) = some (v, s) := by rw [hs]; rfl
  constructor <;> first
    | exact sets_other (by decide)
    | exact sets_self hpair
    | exact setsOnly_other fun _ => by decide
    | (intros; exact sets_other (by decide))
    | (intros; exact ⟨fun _ => rfl, fun _ => rfl⟩)

end Steps

theorem keywords?_cons {name : String} {v : Json} {ms : Entries Json} {k' : Keywords}
    (h : keywords? draft ((name, v) :: ms) = some k') :
    ∃ k, keywords? draft ms = some k ∧ k.Step draft name v k' := by
  rw [keywords?] at h
  obtain ⟨k, hk, hstep⟩ := Option.bind_eq_some_iff.mp h
  refine ⟨k, hk, ?_⟩
  clear h hk
  -- One case for each name, in which at most the field of this name is set, and one for all others.
  split at hstep
  all_goals try obtain ⟨x, hx, rfl⟩ := Option.map_eq_some_iff.mp hstep
  all_goals try cases hstep
  all_goals try
    constructor <;> first
      | exact sets_other (by decide)
      | exact sets_self hx
      | exact sets_self rfl
      | exact setsOnly_other fun _ => by decide
      | exact setsOnly_self hx
      | exact fun hd => absurd hd (by decide)
      | (intros; exact sets_other (by decide))
      | (intros; exact sets_self hx)
      | (intros; exact ⟨fun _ => rfl, fun _ => rfl⟩)
  · split at hstep
    · next options =>
      cases hstep
      exact step_enum options
    · cases hstep
  · split at hstep
    · obtain ⟨ss, hss, rfl⟩ := Option.map_eq_some_iff.mp hstep
      exact step_oldPrefixItems hss
    · next hv =>
      have hshape : v.shape ≠ .array := by
        cases v <;> simp [Json.shape] at hv ⊢
      obtain ⟨s, hs, rfl⟩ := Option.map_eq_some_iff.mp hstep
      exact step_oldItems hshape hs
  · obtain ⟨known, hknown, hstep⟩ := Option.bind_eq_some_iff.mp hstep
    obtain ⟨names, hnames, hstep⟩ := Option.bind_eq_some_iff.mp hstep
    cases hstep
    exact step_dependencies hknown hnames
  · exact step_excluded hx
  · obtain ⟨-, hk⟩ := Option.ite_none_left_eq_some.mp hstep
    cases hk
    constructor <;> first
      | (apply sets_other; assumption)
      | (apply setsOnly_other; intro hd hname; simp_all)
      | (intro hd; apply sets_other; intro hname; simp_all)
      | (intro hd _; apply sets_other; intro hname; simp_all)
      | (intros; exact ⟨fun _ => rfl, fun _ => rfl⟩)

theorem Reads.lists_cons {α : Type} {ms : Entries Json} {name : String} {read : Json → Option α}
    {v : Json} {a a' : Option α} {b : Bool} (h : Reads (lists b ms) "items" read a)
    (hs : decide (v.shape = .array) = b → Sets name "items" read v a a')
    (hk : decide (v.shape = .array) ≠ b → a' = a) :
    Reads (lists b ((name, v) :: ms)) "items" read a' := by
  by_cases hb : decide (v.shape = .array) = b
  · have hcons : lists b ((name, v) :: ms) = (name, v) :: lists b ms := by simp [lists, hb]
    rw [hcons]
    exact h.cons (hs hb)
  · have hcons : lists b ((name, v) :: ms) = lists b ms := by simp [lists, hb]
    rw [hcons, hk hb]
    exact h

theorem only_nil (d : Draft) : only d draft [] = [] := by
  unfold only
  split <;> rfl

theorem keywords?_of {ms : Entries Json} {k : Keywords} (h : keywords? draft ms = some k) :
    k.Of draft ms := by
  induction ms generalizing k with
  | nil =>
    rw [keywords?, Option.some.injEq] at h
    subst h
    constructor <;> first
      | rfl
      | exact fun _ => rfl
      | (rw [only_nil]; rfl)
  | cons e ms ih =>
    obtain ⟨name, v⟩ := e
    obtain ⟨k₀, hk₀, hs⟩ := keywords?_cons h
    have ho := ih hk₀
    exact {
      type := ho.type.cons hs.type
      const := ho.const.cons hs.const
      enum := ho.enum.cons hs.enum
      minimum := ho.minimum.cons hs.minimum
      maximum := ho.maximum.cons hs.maximum
      exclusiveMinimum := ho.exclusiveMinimum.cons hs.exclusiveMinimum
      exclusiveMaximum := ho.exclusiveMaximum.cons hs.exclusiveMaximum
      minLength := ho.minLength.cons hs.minLength
      maxLength := ho.maxLength.cons hs.maxLength
      minItems := ho.minItems.cons hs.minItems
      maxItems := ho.maxItems.cons hs.maxItems
      minProperties := ho.minProperties.cons hs.minProperties
      maxProperties := ho.maxProperties.cons hs.maxProperties
      uniqueItems := ho.uniqueItems.cons hs.uniqueItems
      required := ho.required.cons hs.required
      pattern := ho.pattern.cons hs.pattern
      properties := ho.properties.cons hs.properties
      patternProperties := ho.patternProperties.cons hs.patternProperties
      additionalProperties := ho.additionalProperties.cons hs.additionalProperties
      propertyNames := ho.propertyNames.cons hs.propertyNames
      contains := ho.contains.cons hs.contains
      minContains := ho.minContains.only_cons hs.minContains
      maxContains := ho.maxContains.only_cons hs.maxContains
      allOf := ho.allOf.cons hs.allOf
      anyOf := ho.anyOf.cons hs.anyOf
      oneOf := ho.oneOf.cons hs.oneOf
      excluded := ho.excluded.cons hs.excluded
      condition := ho.condition.cons hs.condition
      consequence := ho.consequence.cons hs.consequence
      alternative := ho.alternative.cons hs.alternative
      ref := ho.ref.cons hs.ref
      dynamicRef := ho.dynamicRef.only_cons hs.dynamicRef
      unevaluatedItems := ho.unevaluatedItems.only_cons hs.unevaluatedItems
      unevaluatedProperties := ho.unevaluatedProperties.only_cons hs.unevaluatedProperties
      additionalItems := ho.additionalItems.only_cons hs.additionalItems
      items := fun hd => (ho.items hd).cons (hs.items hd)
      prefixItems := fun hd => (ho.prefixItems hd).cons (hs.prefixItems hd)
      dependentSchemas := fun hd => (ho.dependentSchemas hd).cons (hs.dependentSchemas hd)
      dependentRequired := fun hd => (ho.dependentRequired hd).cons (hs.dependentRequired hd)
      oldItems := fun hd => (ho.oldItems hd).lists_cons
        (fun hv => hs.oldItems hd (by simpa using hv))
        fun hv => (hs.oldKept hd).2 (by simpa using hv)
      oldPrefixItems := fun hd => (ho.oldPrefixItems hd).lists_cons
        (fun hv => hs.oldPrefixItems hd (by simpa using hv))
        fun hv => (hs.oldKept hd).1 (by simpa using hv)
      oldDependentSchemas := fun hd => (ho.oldDependentSchemas hd).cons (hs.oldDependentSchemas hd)
      oldDependentRequired := fun hd =>
        (ho.oldDependentRequired hd).cons (hs.oldDependentRequired hd) }

end Catalog.Schema
