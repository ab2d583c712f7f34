import Catalog.Proofs.Polarity

/-! Keywords that correspond. Between the schemas in two object schemas what matters carries over,
and so it does between the two, even where members are closed on the right that are open on the left,
as long as it is the right that is to refuse more. -/

namespace Catalog.Schema.Keywords
variable {f f' : Followed} {w : View} {k k' : Keywords}

/-- There is a keyword that looks at what the others evaluate. -/
def looks (k : Keywords) : Bool :=
  k.unevaluatedItems.isSome || k.unevaluatedProperties.isSome

/-- Keywords that correspond, with schemas in them that do, where `r` relates the schemas with a
view of what matters of them. If it `closes`, members may be closed on the right that are open on the
left. -/
structure Paired (r : View → Schema → Schema → Prop) (closes : Prop) (w : View)
    (k k' : Keywords) : Prop where
  assertions : k'.assertions = k.assertions
  required : k'.required = k.required
  pattern : k'.pattern = k.pattern
  ref : k'.ref = k.ref
  references : k'.references = k.references
  minContains : k'.minContains = k.minContains
  maxContains : k'.maxContains = k.maxContains
  properties : Option.Rel (Named (r w.part)) k.properties k'.properties
  patternProperties : Option.Rel (Named (r w.part)) k.patternProperties k'.patternProperties
  additionalProperties : Option.Rel (r w.part) k.additionalProperties k'.additionalProperties ∨
    closes ∧ k.additionalProperties = none ∧ k'.additionalProperties = some .nothing
  propertyNames : Option.Rel (r w.part) k.propertyNames k'.propertyNames
  items : Option.Rel (r w.part) k.items k'.items
  prefixItems : Option.Rel (List.Forall₂ (r w.part)) k.prefixItems k'.prefixItems
  furtherItems : Option.Rel (r w.part) k.furtherItems k'.furtherItems
  contains : Option.Rel (r w.part) k.contains k'.contains
  containsExcluded : k.maxContains.isSome = true →
    Option.Rel (r w.opposite) k.contains k'.contains
  dependentSchemas :
    Option.Rel (Named (r (w.beside k.looks))) k.dependentSchemas k'.dependentSchemas
  allOf : Option.Rel (List.Forall₂ (r (w.beside k.looks))) k.allOf k'.allOf
  anyOf : Option.Rel (List.Forall₂ (r (w.beside k.looks))) k.anyOf k'.anyOf
  oneOf : Option.Rel (List.Forall₂ (r (w.beside k.looks))) k.oneOf k'.oneOf
  oneOfExcluded : Option.Rel (List.Forall₂ (r w.opposite)) k.oneOf k'.oneOf
  excluded : Option.Rel (fun e e' => r w.opposite e.2 e'.2) k.excluded k'.excluded
  conditionExcluded :
    k.consequence.isSome = true ∨ (w.beside k.looks).watched = true ∧ k.alternative.isSome = true →
      Option.Rel (r w.opposite) k.condition k'.condition
  conditionKept :
    k.alternative.isSome = true ∨ k.consequence = none ∨ (w.beside k.looks).watched = true →
      Option.Rel (r (w.beside k.looks)) k.condition k'.condition
  consequence : k.condition.isSome = true →
    Option.Rel (r (w.beside k.looks)) k.consequence k'.consequence
  alternative : k.condition.isSome = true →
    Option.Rel (r (w.beside k.looks)) k.alternative k'.alternative
  unevaluatedItems : Option.Rel (r w.part) k.unevaluatedItems k'.unevaluatedItems
  unevaluatedProperties : Option.Rel (r w.part) k.unevaluatedProperties k'.unevaluatedProperties

theorem named_getD {r : Schema → Schema → Prop} {a a' : Option (List (String × Schema))}
    (h : Option.Rel (Named r) a a') : Named r (a.getD []) (a'.getD []) := by
  cases h with
  | none => exact .nil
  | some h => exact h

theorem length_getD {r : Schema → Schema → Prop} {a a' : Option (List Schema)}
    (h : Option.Rel (List.Forall₂ r) a a') : (a.getD []).length = (a'.getD []).length := by
  cases h with
  | none => rfl
  | some h => exact h.length_eq

theorem lookup_named_eq_none {r : Schema → Schema → Prop} {known known' : List (String × Schema)}
    (h : Named r known known') (name : String) :
    known.lookup name = none ↔ known'.lookup name = none := by
  induction h with
  | nil => rfl
  | @cons e e' _ _ he _ ih =>
    rw [Entries.lookup_cons, Entries.lookup_cons, he.1]
    split <;> simp [ih]

theorem isSome_of_rel {α : Type} {r : α → α → Prop} {a a' : Option α} (h : Option.Rel r a a') :
    a'.isSome = a.isSome := by
  cases h <;> rfl

theorem rel_cases {α : Type} {r : α → α → Prop} {a a' : Option α} (h : Option.Rel r a a') :
    a = none ∧ a' = none ∨ ∃ x x', a = some x ∧ a' = some x' := by
  cases h with
  | none => exact Or.inl ⟨rfl, rfl⟩
  | some h => exact Or.inr ⟨_, _, rfl, rfl⟩

theorem some_of_rel {α : Type} {r : α → α → Prop} {x x' : α} (h : Option.Rel r (some x) (some x')) :
    r x x' := by
  cases h with
  | some h => exact h

namespace Paired

section
variable {r : View → Schema → Schema → Prop} {closes : Prop}

theorem unlisted (h : Paired r closes w k k') (name : String) :
    k.Unlisted name ↔ k'.Unlisted name := by
  have hmatching : (∀ m ∈ k.patternProperties.getD [], ∀ p, Pattern.parse m.1 = some p →
      p.isMatch name = false) ↔ ∀ m ∈ k'.patternProperties.getD [], ∀ p,
        Pattern.parse m.1 = some p → p.isMatch name = false := by
    refine Carried.iff ?_ ?_ <;>
    · apply Carried.forall_mem (named_getD h.patternProperties)
      intro m m' hm
      exact .of_iff (by rw [hm.1])
  rw [Unlisted, Unlisted, hmatching, lookup_named_eq_none (named_getD h.properties)]

/-- A condition is there on both sides or on neither. -/
theorem condition_cases (h : Paired r closes w k k') :
    k.condition = none ∧ k'.condition = none ∨
      ∃ c c', k.condition = some c ∧ k'.condition = some c' := by
  cases ht : k.consequence with
  | none => exact rel_cases (h.conditionKept (Or.inr (Or.inl ht)))
  | some t => exact rel_cases (h.conditionExcluded (Or.inl (by rw [ht]; rfl)))

end

theorem conditional {closes : Prop} (h : Paired (Tracks f f') closes w k k') :
    Option.Rel (Tracks f f' (w.beside k.looks)) k.conditional k'.conditional := by
  rcases h.condition_cases with ⟨hc, hc'⟩ | ⟨c, c', hc, hc'⟩
  · rw [Keywords.conditional, Keywords.conditional, hc, hc']
    exact .none
  · have hexcluded := h.conditionExcluded
    have hkept := h.conditionKept
    rw [hc, hc'] at hexcluded hkept
    have hthere : k.condition.isSome = true := by rw [hc]; rfl
    rw [Keywords.conditional, Keywords.conditional, hc, hc']
    exact .some (tracks_conditional (fun ht => some_of_rel (hexcluded ht))
      (fun he => some_of_rel (hkept he)) (h.consequence hthere) (h.alternative hthere))

theorem containing {closes : Prop} (h : Paired (Tracks f f') closes w k k') :
    Option.Rel (fun s s' => Tracks f f' (w.beside k.looks)
      (.contains s (k.minContains.getD 1) k.maxContains)
      (.contains s' (k'.minContains.getD 1) k'.maxContains)) k.contains k'.contains := by
  have hkept := h.contains
  have hexcluded := h.containsExcluded
  rw [h.minContains, h.maxContains]
  rcases rel_cases hkept with ⟨hc, hc'⟩ | ⟨s, s', hc, hc'⟩
  · rw [hc, hc']
    exact .none
  · rw [hc, hc'] at hkept hexcluded ⊢
    exact .some (tracks_contains (some_of_rel hkept) fun hm => some_of_rel (hexcluded hm))

theorem counted {closes : Prop} (h : Paired (Tracks f f') closes w k k') :
    Option.Rel (fun ss ss' => Tracks f f' (w.beside k.looks) (.oneOf ss) (.oneOf ss'))
      k.oneOf k'.oneOf := by
  have hkept := h.oneOf
  have hexcluded := h.oneOfExcluded
  rcases rel_cases hkept with ⟨hs, hs'⟩ | ⟨ss, ss', hs, hs'⟩
  · rw [hs, hs']
    exact .none
  · rw [hs, hs'] at hkept hexcluded ⊢
    exact .some (tracks_oneOf (some_of_rel hkept) (some_of_rel hexcluded))

section Tracked
variable {closes : Prop} (h : Paired (Tracks f f') closes w k k') {v : Json} (hv : v.collapse = v)
include h hv

theorem membersKept (hcloses : closes → w.up = true) :
    Carried w.up (k.MembersKept f v) (k'.MembersKept f' v) := by
  refine .all fun ms => .all fun hms => .all fun e => .all fun he => ?_
  have hx : e.2.collapse = e.2 := Json.collapse_of_mem_object (hms ▸ hv) he
  refine .and ?_ (.and ?_ ?_)
  · apply Carried.forall_mem (named_getD h.properties)
    rintro s s' ⟨hname, hs⟩
    rw [hname]
    exact .all fun _ => hs.accepting e.2 hx
  · apply Carried.forall_mem (named_getD h.patternProperties)
    rintro m m' ⟨hname, hm⟩
    rw [hname]
    exact .all fun _ => .all fun _ => .all fun _ => hm.accepting e.2 hx
  · rw [h.unlisted]
    apply Carried.all
    intro _
    rcases h.additionalProperties with hrest | ⟨hclosed, hnone, -⟩
    · exact .option hrest fun s s' hs => hs.accepting e.2 hx
    · rw [hcloses hclosed]
      intro _ s hs
      rw [hnone] at hs
      cases hs

/-- Closing members does not make more of them evaluated: no member keeps the closing schema. -/
theorem evaluatesMember (p : Part) :
    Carried w.up (k.EvaluatesMember f v p) (k'.EvaluatesMember f' v p) := by
  refine .ex fun ms => .ex fun name => ?_
  by_cases hms : v = .object ms
  · refine .and (.of_iff Iff.rfl) (.and (.of_iff Iff.rfl) (.or ?_ ?_))
    · exact .of_iff (not_congr (h.unlisted name))
    · refine .ex fun x => ?_
      by_cases hx : ms.lookup name = some x
      · refine .and (.of_iff Iff.rfl) ?_
        have hcollapse : x.collapse = x :=
          Json.collapse_of_mem_object (hms ▸ hv) (Entries.mem_of_lookup hx)
        rcases h.additionalProperties with hrest | ⟨-, hnone, hclosed⟩
        · exact .exists_some hrest fun s s' hs => hs.accepting x hcollapse
        · exact .of_iff (by simp [hnone, hclosed, issues])
      · exact .of_iff (by simp [hx])
  · exact .of_iff (by simp [hms])

omit hv in
theorem evaluatesItem (p : Part) : k.EvaluatesItem v p ↔ k'.EvaluatesItem v p := by
  rw [EvaluatesItem, EvaluatesItem, length_getD h.prefixItems, isSome_of_rel h.items,
    isSome_of_rel h.furtherItems]

section Followed
variable (hrefs : ∀ p ∈ k.references, Tracks f f' (w.beside k.looks) (.ref p) (.ref p))
include hrefs

/-- What is evaluated carries over where it matters. -/
theorem evaluates (hwatched : (w.beside k.looks).watched = true) (p : Part) :
    Carried w.up (k.Evaluates f v p) (k'.Evaluates f' v p) := by
  have hmember := h.evaluatesMember hv p
  have hitem : Carried w.up (k.EvaluatesItem v p) (k'.EvaluatesItem v p) :=
    .of_iff (h.evaluatesItem p)
  have hcontains := carried_evaluating_rule h.containing (fun _ _ => id) hv hwatched p
  have hdependent :=
    carried_evaluating_rule h.dependentSchemas (fun _ _ => tracks_dependentSchemas) hv hwatched p
  have hallOf := carried_evaluating_rule h.allOf (fun _ _ => tracks_allOf) hv hwatched p
  have hanyOf := carried_evaluating_rule h.anyOf (fun _ _ => tracks_anyOf) hv hwatched p
  have honeOf := carried_evaluating_rule h.counted (fun _ _ => id) hv hwatched p
  have hconditional : Carried w.up (∃ s, k.conditional = some s ∧ Schema.evaluates f s v p = true)
      (∃ s, k'.conditional = some s ∧ Schema.evaluates f' s v p = true) :=
    carried_evaluating_rule h.conditional (fun _ _ => id) hv hwatched p
  have hreferences : Carried w.up (∃ q ∈ k.references, f.evaluates q v p = true)
      (∃ q ∈ k'.references, f'.evaluates q v p = true) := by
    rw [h.references]
    refine .exists_mem (r := fun q q' => q = q' ∧ q ∈ k.references) ?_ ?_
    · exact List.forall₂_same.mpr fun q hq => ⟨rfl, hq⟩
    · rintro q _ ⟨rfl, hq⟩
      have hfollowed := (hrefs q hq).evaluating hwatched v hv p
      rwa [Schema.evaluates, Schema.evaluates] at hfollowed
  exact hmember.or (hitem.or (hcontains.or (hdependent.or (hallOf.or (hanyOf.or (honeOf.or
    (hconditional.or hreferences)))))))

/-- A part that is left over keeps a schema on either side, or is evaluated, which is looked at. -/
theorem leftover (hlooks : k.looks = true) {s s' : Schema} (hs : Tracks f f' w.part s s') {x : Json}
    (hx : x.collapse = x) (p : Part) : Carried w.up (k.Evaluates f v p ∨ issues f s x = [])
      (k'.Evaluates f' v p ∨ issues f' s' x = []) := by
  have hwatched : (w.beside k.looks).watched = true := View.beside_watched.mpr (Or.inr hlooks)
  exact (h.evaluates hv hrefs hwatched p).or (hs.accepting x hx)

theorem leftoverItems : Carried w.up
    (∀ s, k.unevaluatedItems = some s → ∀ xs, v = .array xs → ∀ i x, xs[i]? = some x →
      k.Evaluates f v (.item i) ∨ issues f s x = [])
    (∀ s, k'.unevaluatedItems = some s → ∀ xs, v = .array xs → ∀ i x, xs[i]? = some x →
      k'.Evaluates f' v (.item i) ∨ issues f' s x = []) := by
  have hitems := h.unevaluatedItems
  rcases rel_cases hitems with ⟨hnone, hnone'⟩ | ⟨s, s', hs, hs'⟩
  · exact .of_iff (by simp [hnone, hnone'])
  · have hlooks : k.looks = true := by simp [looks, hs]
    refine .option hitems fun t t' ht => .all fun xs => .all fun hxs => ?_
    refine .all fun i => .all fun x => .all fun hx => ?_
    have hcollapse : x.collapse = x :=
      Json.collapse_of_mem_array (hxs ▸ hv) (List.mem_of_getElem? hx)
    exact h.leftover hv hrefs hlooks ht hcollapse (.item i)

theorem leftoverMembers : Carried w.up
    (∀ s, k.unevaluatedProperties = some s → ∀ ms, v = .object ms → ∀ e ∈ ms,
      k.Evaluates f v (.member e.1) ∨ issues f s e.2 = [])
    (∀ s, k'.unevaluatedProperties = some s → ∀ ms, v = .object ms → ∀ e ∈ ms,
      k'.Evaluates f' v (.member e.1) ∨ issues f' s e.2 = []) := by
  have hmembers := h.unevaluatedProperties
  rcases rel_cases hmembers with ⟨hnone, hnone'⟩ | ⟨s, s', hs, hs'⟩
  · exact .of_iff (by simp [hnone, hnone'])
  · have hlooks : k.looks = true := by simp [looks, hs]
    refine .option hmembers fun t t' ht => .all fun ms => .all fun hms => ?_
    refine .all fun e => .all fun he => ?_
    have hcollapse : e.2.collapse = e.2 := Json.collapse_of_mem_object (hms ▸ hv) he
    exact h.leftover hv hrefs hlooks ht hcollapse (.member e.1)

/-- Acceptance carries over between keywords that correspond. -/
theorem accepts (hcloses : closes → w.up = true) :
    Carried w.up (k.Accepts f v) (k'.Accepts f' v) := by
  have hlength := length_getD h.prefixItems
  have hasserted : Carried w.up (∀ a ∈ k.assertions, a.issues v = [])
      (∀ a ∈ k'.assertions, a.issues v = []) := .of_iff (by rw [h.assertions])
  have hrequired : Carried w.up
      (∀ names, k.required = some names → issues f (.assert (.required names)) v = [])
      (∀ names, k'.required = some names → issues f' (.assert (.required names)) v = []) :=
    .of_iff (by simp only [h.required, issues_assert])
  have hpattern : Carried w.up
      (∀ t, k.pattern = some t →
        ∃ p, Pattern.parse t = some p ∧ issues f (.assert (.pattern p)) v = [])
      (∀ t, k'.pattern = some t →
        ∃ p, Pattern.parse t = some p ∧ issues f' (.assert (.pattern p)) v = []) :=
    .of_iff (by simp only [h.pattern, issues_assert])
  have hmembers := h.membersKept hv hcloses
  have hnames := carried_accepting_rule h.propertyNames (fun _ _ => tracks_propertyNames) hv
  have hitems := carried_accepting_rule h.items
    (fun _ _ => tracks_items (k.prefixItems.getD []).length) hv
  have hprefixItems := carried_accepting_rule h.prefixItems (fun _ _ => tracks_prefixItems) hv
  have hfurther := carried_accepting_rule h.furtherItems
    (fun _ _ => tracks_items (k.prefixItems.getD []).length) hv
  have hcontains := carried_accepting_rule h.containing (fun _ _ => id) hv
  have hdependent :=
    carried_accepting_rule h.dependentSchemas (fun _ _ => tracks_dependentSchemas) hv
  have hallOf := carried_accepting_rule h.allOf (fun _ _ => tracks_allOf) hv
  have hanyOf := carried_accepting_rule h.anyOf (fun _ _ => tracks_anyOf) hv
  have honeOf := carried_accepting_rule h.counted (fun _ _ => id) hv
  have hexcluded := carried_accepting_rule h.excluded (fun e e' => tracks_not e.1 e'.1) hv
  have hconditional : Carried w.up (∀ s, k.conditional = some s → issues f s v = [])
      (∀ s, k'.conditional = some s → issues f' s v = []) :=
    carried_accepting_rule h.conditional (fun _ _ => id) hv
  have hreferences : Carried w.up (∀ p ∈ k.references, issues f (.ref p) v = [])
      (∀ p ∈ k'.references, issues f' (.ref p) v = []) := by
    rw [h.references]
    exact .all fun p => .all fun hp => (hrefs p hp).accepting v hv
  have hleftover := (h.leftoverItems hv hrefs).and (h.leftoverMembers hv hrefs)
  rw [accepts_iff, accepts_iff, ← hlength]
  exact hasserted.and (hrequired.and (hpattern.and (hmembers.and (hnames.and (hitems.and
    (hprefixItems.and (hfurther.and (hcontains.and (hdependent.and (hallOf.and (hanyOf.and
    (honeOf.and (hexcluded.and (hconditional.and (hreferences.and hleftover)))))))))))))))

end Followed
end Tracked
end Paired
end Catalog.Schema.Keywords
