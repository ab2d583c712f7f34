import Catalog.Proofs.Pairings

/-! The targets of a strict document. It refers to what the document refers to, in the same order,
so the two collect targets for the same references. -/

namespace Catalog

namespace Schema
variable {draft : Draft} {D D' : Json}

theorem ordered_strictObject {ms : Entries Json} (h : Entries.Ordered ms) :
    Entries.Ordered (strictObject ms) := by
  have hmembers : Entries.Ordered (strictMembers ms) := by
    rw [Entries.Ordered, strictMembers_eq_map, List.pairwise_map]
    exact h
  unfold strictObject
  split
  · exact Entries.ordered_insert _ _ hmembers
  · exact hmembers

theorem InPlace.ordered {ms ms' : Entries Json} (h : InPlace (.object ms) (.object ms'))
    (hms : Entries.Ordered ms) : Entries.Ordered ms' := by
  rcases h with h | h
  · rw [Json.object.inj h]
    exact hms
  · rw [strict_object] at h
    rw [Json.object.inj h]
    exact ordered_strictObject hms

theorem collapse_of_mem_schemas {w : Json} (hw : w.collapse = w) {form : Form} {T : Json}
    (hT : T ∈ form.schemas w) : T.collapse = T := by
  cases form with
  | one =>
    rw [List.mem_singleton.mp hT]
    exact hw
  | list =>
    cases w with
    | array vs => exact Json.collapse_of_mem_array hw hT
    | _ => cases hT
  | named =>
    cases w with
    | object ms =>
      obtain ⟨e, he, rfl⟩ := List.mem_map.mp hT
      exact Json.collapse_of_mem_object hw he
    | _ => cases hT

/-- What the keywords refer to is what their members refer to. -/
theorem refers_of_mem {ms : Entries Json} {k : Keywords} (hk : k.Of draft ms) {p : String}
    (hp : p ∈ k.references) : Refers draft ms p := by
  rcases List.mem_append.mp hp with hp | hp
  · have href : k.ref = some p := Option.mem_toList.mp hp
    exact Or.inl (lookup_of_text (href ▸ hk.ref))
  · have hdynamic : k.dynamicRef = some p := Option.mem_toList.mp hp
    rcases Pairing.reads_only hk.dynamicRef with ⟨hd, hread⟩ | ⟨-, hnone⟩
    · exact Or.inr ⟨hd, lookup_of_text (hdynamic ▸ hread)⟩
    · simp [hnone] at hdynamic

theorem whole_of_not_onlyRef {ms : Entries Json} {k : Keywords} (hk : k.Of draft ms)
    (h : ¬k.OnlyRef draft) : draft = .draft2020 ∨ ms.lookup "$ref" = none := by
  cases draft with
  | draft2020 => exact Or.inl rfl
  | draft7 =>
    have hnone : k.ref = none := by
      rw [← Option.not_isSome_iff_eq_none]
      exact fun href => h ⟨rfl, href⟩
    have hreads := hk.ref
    rw [Reads, hnone, Option.map_none, Option.map_eq_none_iff] at hreads
    exact Or.inr hreads

/-- What two documents side by side come to is related, if constant schemas are, and if object
schemas are whose keywords correspond, or which are whole references. -/
structure Relates (draft : Draft) (D D' : Json) (r : View → Schema → Schema → Prop)
    (closes : View → Prop) : Prop where
  always : ∀ w b, r w (always b) (always b)
  closing : ∀ w ms ms', Counterpart draft D D' w (.object ms) (.object ms') → isOpen ms = true →
    ms' ≠ ms → closes w
  reference : ∀ w ms ms' p, Counterpart draft D D' w (.object ms) (.object ms') →
    Refers draft ms p → Refers draft ms' p → r w (.every [.ref p]) (.every [.ref p])
  keywords : ∀ w ms ms' k k' s s', Counterpart draft D D' w (.object ms) (.object ms') →
    k.Of draft ms → k'.Of draft ms' → Keywords.Paired r (closes w) w k k' →
      ¬k.OnlyRef draft → k.schema draft = some s → k'.schema draft = some s' → r w s s'

theorem Relates.object {r : View → Schema → Schema → Prop} {closes : View → Prop}
    (hr : Relates draft D D' r closes) {w : View} {ms ms' : Entries Json} {s s' : Schema}
    (hinPlace : InPlace (.object ms) (.object ms')) (hms : Entries.Ordered ms)
    (hmet : Counterpart draft D D' w (.object ms) (.object ms'))
    (hparts : ∀ e ∈ ms, ∀ form : Form, ∀ U ∈ form.schemas e.2, ∀ g, Placing g → ∀ w' t t',
      Counterpart draft D D' w' U (g U) → ofJson? draft U = some t →
        ofJson? draft (g U) = some t' → r w' t t')
    (hs : ofJson? draft (.object ms) = some s) (hs' : ofJson? draft (.object ms') = some s') :
    r w s s' := by
  obtain ⟨k, hk, hschema⟩ := ofJson?_object_eq_some.mp hs
  obtain ⟨k', hk', hschema'⟩ := ofJson?_object_eq_some.mp hs'
  have hof := keywords?_of hk
  have hof' := keywords?_of hk'
  have href : k'.ref = k.ref :=
    hinPlace.plain (fun _ => by decide) rfl rfl rfl hof.ref hof'.ref
  by_cases honly : k.OnlyRef draft
  · -- The reference stands for the whole schema on both sides.
    obtain ⟨p, hp, rfl⟩ := k.schema_of_onlyRef hschema honly
    have honly' : k'.OnlyRef draft := ⟨honly.1, href ▸ honly.2⟩
    obtain ⟨p', hp', rfl⟩ := k'.schema_of_onlyRef hschema' honly'
    obtain rfl : p' = p := Option.some.inj (hp'.symm.trans (href.trans hp))
    exact hr.reference w ms ms' p' hmet (Or.inl (lookup_of_text (hp ▸ hof.ref)))
      (Or.inl (lookup_of_text (hp' ▸ hof'.ref)))
  · have hpairing : Pairing draft D D' r w ms ms' :=
      { inPlace := hinPlace
        distinct := ⟨hms.keys_nodup, (hinPlace.ordered hms).keys_nodup⟩
        met := hmet
        whole := whole_of_not_onlyRef hof honly
        related := hparts }
    have hpaired := hpairing.paired hof hof' (hr.closing w ms ms' hmet)
    exact hr.keywords w ms ms' k k' s s' hmet hof hof' hpaired honly hschema hschema'

theorem Relates.inPlace {r : View → Schema → Schema → Prop} {closes : View → Prop}
    (hr : Relates draft D D' r closes) (T : Json) (hT : T.collapse = T) :
    ∀ g, Placing g → ∀ w s s', Counterpart draft D D' w T (g T) → ofJson? draft T = some s →
      ofJson? draft (g T) = some s' → r w s s' := by
  induction T using induction_on_parts with
  | h T ih =>
    intro g hg w s s' hmet hs hs'
    cases T with
    | bool b =>
      have hkept : g (.bool b) = .bool b := by
        rcases hg with rfl | rfl <;> rfl
      rw [hkept] at hs'
      rw [ofJson?, Option.some.injEq] at hs hs'
      rw [← hs, ← hs']
      exact hr.always w b
    | object ms =>
      -- An object schema stands in the place of an object schema, and its parts are smaller.
      obtain ⟨ms', hms'⟩ : ∃ ms', g (.object ms) = .object ms' := by
        rcases hg with rfl | rfl
        · exact ⟨ms, rfl⟩
        · exact ⟨strictObject ms, strict_object ms⟩
      have hinPlace : InPlace (.object ms) (.object ms') := hms' ▸ hg.inPlace (.object ms)
      have hparts : ∀ e ∈ ms, ∀ form : Form, ∀ U ∈ form.schemas e.2, U.collapse = U :=
        fun e he form U hU => collapse_of_mem_schemas (Json.collapse_of_mem_object hT he) hU
      rw [hms'] at hmet hs'
      exact hr.object hinPlace (Json.ordered_of_collapse hT) hmet
        (fun e he form U hU => ih ms rfl e he form U hU (hparts e he form U hU)) hs hs'
    | _ => cases hs

/-- The schemas refer to the same, in the same order. -/
def SameRefs (_w : View) (s s' : Schema) : Prop :=
  s'.refs = s.refs

theorem refsIn_eq {α : Type} {r : α → α → Prop} {f : α → List String} {a a' : Option α}
    (h : Option.Rel r a a') (hf : ∀ x x', r x x' → f x' = f x) : refsIn f a' = refsIn f a := by
  cases h with
  | none => rfl
  | some h => exact hf _ _ h

theorem refsEvery_eq {r : Schema → Schema → Prop} {ss ss' : List Schema}
    (h : List.Forall₂ r ss ss') (hr : ∀ s s', r s s' → s'.refs = s.refs) :
    refsEvery ss' = refsEvery ss := by
  induction h with
  | nil => rfl
  | cons hs _ ih => rw [refsEvery, refsEvery, hr _ _ hs, ih]

theorem refsNamed_eq {r : Schema → Schema → Prop} {known known' : List (String × Schema)}
    (h : Named r known known') (hr : ∀ s s', r s s' → s'.refs = s.refs) :
    refsNamed known' = refsNamed known := by
  induction h with
  | nil => rfl
  | cons hs _ ih => rw [refsNamed, refsNamed, hr _ _ hs.2, ih]

theorem Keywords.Paired.refs_conditional {closes : Prop} {w : View} {k k' : Keywords}
    (h : Keywords.Paired SameRefs closes w k k') :
    refsIn Schema.refs k'.conditional = refsIn Schema.refs k.conditional := by
  rcases h.condition_cases with ⟨hc, hc'⟩ | ⟨c, c', hc, hc'⟩
  · rw [Keywords.conditional, Keywords.conditional, hc, hc']
    rfl
  · have hgetD {a a' : Option Schema} (ha : Option.Rel (SameRefs (w.beside k.looks)) a a') :
        (a'.getD .anything).refs = (a.getD .anything).refs := by
      cases ha with
      | none => rfl
      | some hs => exact hs
    have hthere : k.condition.isSome = true := by rw [hc]; rfl
    have hsame : SameRefs w c c' := by
      have hexcluded := h.conditionExcluded
      have hkept := h.conditionKept
      rw [hc, hc'] at hexcluded hkept
      cases ht : k.consequence with
      | none => exact Keywords.some_of_rel (hkept (Or.inr (Or.inl ht)))
      | some t => exact Keywords.some_of_rel (hexcluded (Or.inl (by rw [ht]; rfl)))
    rw [Keywords.conditional, Keywords.conditional, hc, hc']
    have hcondition : c'.refs = c.refs := hsame
    simp only [refsIn, Option.map_some, Option.getD_some, Schema.refs, hcondition,
      hgetD (h.consequence hthere), hgetD (h.alternative hthere)]

theorem Keywords.Paired.refs {closes : Prop} {w : View} {k k' : Keywords}
    (h : Keywords.Paired SameRefs closes w k k') : k'.refs = k.refs := by
  have hsame {w : View} : ∀ s s', SameRefs w s s' → s'.refs = s.refs := fun _ _ hs => hs
  have hone {w : View} {a a' : Option Schema} (ha : Option.Rel (SameRefs w) a a') :
      refsIn Schema.refs a' = refsIn Schema.refs a := refsIn_eq ha hsame
  have hlist {w : View} {a a' : Option (List Schema)}
      (ha : Option.Rel (List.Forall₂ (SameRefs w)) a a') :
      refsIn refsEvery a' = refsIn refsEvery a := refsIn_eq ha fun _ _ hs => refsEvery_eq hs hsame
  have hnamed {w : View} {a a' : Option (List (String × Schema))}
      (ha : Option.Rel (Named (SameRefs w)) a a') :
      refsIn refsNamed a' = refsIn refsNamed a := refsIn_eq ha fun _ _ hs => refsNamed_eq hs hsame
  have hadditional : refsIn Schema.refs k'.additionalProperties =
      refsIn Schema.refs k.additionalProperties := by
    rcases h.additionalProperties with hrest | ⟨-, hnone, hclosed⟩
    · exact hone hrest
    · rw [hnone, hclosed]
      rfl
  have hexcluded : refsIn (fun e => e.2.refs) k'.excluded = refsIn (fun e => e.2.refs) k.excluded :=
    refsIn_eq h.excluded fun _ _ hs => hs
  simp only [Keywords.refs, hnamed h.properties, hnamed h.patternProperties, hadditional,
    hone h.propertyNames, hone h.items, hlist h.prefixItems, hone h.furtherItems, hone h.contains,
    hnamed h.dependentSchemas, hlist h.allOf, hlist h.anyOf, hlist h.oneOf, hexcluded,
    h.refs_conditional, h.references, hone h.unevaluatedItems, hone h.unevaluatedProperties]

theorem relates_refs : Relates draft D D' SameRefs fun _ => True where
  always := fun _ _ => rfl
  closing := fun _ _ _ _ _ _ => trivial
  reference := fun _ _ _ _ _ _ _ => rfl
  keywords := by
    intro w ms ms' k k' s s' _ _ _ hpaired honly hs hs'
    have honly' : ¬k'.OnlyRef draft := fun h => honly ⟨h.1, hpaired.ref ▸ h.2⟩
    rcases Keywords.refs_schema hs with ⟨h, -⟩ | ⟨-, hrefs⟩
    · exact absurd h honly
    rcases Keywords.refs_schema hs' with ⟨h, -⟩ | ⟨-, hrefs'⟩
    · exact absurd h honly'
    rw [SameRefs, hrefs, hrefs', hpaired.refs]

/-- A schema in the place of another refers to the same. -/
theorem refs_inPlace {T T' : Json} (hT : T.collapse = T) (h : InPlace T T') {s s' : Schema}
    (hs : ofJson? draft T = some s) (hs' : ofJson? draft T' = some s') : s'.refs = s.refs := by
  have hr : Relates draft T (strict T) SameRefs fun _ => True := relates_refs
  rcases h with rfl | rfl
  · rw [Option.some.inj (hs.symm.trans hs')]
  · exact hr.inPlace T hT strict (Or.inr rfl) _ s s' .root hs hs'

theorem refCountMembers_insert {k : String} {v : Json} {ms : Entries Json}
    (hk : k ∉ referenceKeywords)
    (h : ms.lookup k = none) :
    refCountMembers (Entries.insert k v ms) = refCount v + refCountMembers ms := by
  induction ms with
  | nil => simp [Entries.insert, refCountMembers, hk]
  | cons e ms ih =>
    obtain ⟨k₁, v₁⟩ := e
    rw [Entries.lookup_cons] at h
    split at h
    · cases h
    · next hne =>
      rw [Entries.insert]
      split
      · simp [refCountMembers, hk]
      · rw [refCountMembers, refCountMembers, ih h]
        omega

/-- Nothing that counts as a reference is added or lost. -/
theorem refCount_strict (v : Json) : refCount (strict v) = refCount v := by
  have hitems {vs : List Json} (ih : ∀ v ∈ vs, refCount (strict v) = refCount v) :
      refCountItems (vs.map strict) = refCountItems vs := by
    induction vs with
    | nil => rfl
    | cons v vs ihs =>
      obtain ⟨hv, hvs⟩ := List.forall_mem_cons.mp ih
      rw [List.map_cons, refCountItems, refCountItems, hv, ihs hvs]
  have hmembers {ms : Entries Json} {g : String → Json → Json}
      (ih : ∀ e ∈ ms, refCount (g e.1 e.2) = refCount e.2) :
      refCountMembers (ms.map fun e => (e.1, g e.1 e.2)) = refCountMembers ms := by
    induction ms with
    | nil => rfl
    | cons e ms ihs =>
      obtain ⟨he, hms⟩ := List.forall_mem_cons.mp ih
      rw [List.map_cons, refCountMembers, refCountMembers, he, ihs hms]
  -- A member is made strict as a schema, as a map or as a list of schemas, whatever it is.
  have hboth : refCount (strict v) = refCount v ∧
      ∀ k, refCount (strictMember k v) = refCount v := by
    induction v using Json.induction with
    | null | bool | number | string =>
      refine ⟨rfl, fun k => ?_⟩
      unfold strictMember
      split <;> rfl
    | array vs ih =>
      have harray : refCount (.array (vs.map strict)) = refCount (.array vs) := by
        rw [refCount, refCount, hitems fun v hv => (ih v hv).1]
      refine ⟨by rw [strict, strictItems_eq_map, harray], fun k => ?_⟩
      simp only [strictMember, strict, strictItems_eq_map]
      split
      · exact harray
      · split
        · exact harray
        · rfl
    | object ms ih =>
      have hkept : refCountMembers (strictMembers ms) = refCountMembers ms := by
        rw [strictMembers_eq_map, hmembers fun e he => (ih e he).2 e.1]
      have hobject : refCount (strict (.object ms)) = refCount (.object ms) := by
        rw [strict_object, strictObject, refCount, refCount]
        split
        · next ho =>
          have hclosed : refCount (.bool false) = 0 := by simp [refCount]
          rw [refCountMembers_insert (by decide) (lookup_strictMembers_of_open ho), hkept, hclosed,
            Nat.zero_add]
        · exact hkept
      refine ⟨hobject, fun k => ?_⟩
      simp only [strictMember, strictChildren_eq_map]
      split
      · exact hobject
      · split
        · rw [refCount, refCount, hmembers (g := fun _ => strict) fun e he => (ih e he).1]
        · rfl
  exact hboth.1

end Schema

namespace Contract
variable {draft : Draft} {D D' : Json}

theorem mem_of_collect {fuel : Nat} {targets ts : List (String × Schema)} {pending : List String}
    (h : collect draft D fuel targets pending = some ts) : ∀ e ∈ targets, e ∈ ts := by
  induction fuel generalizing targets pending with
  | zero =>
    cases h
    exact fun _ he => he
  | succ fuel ih =>
    rw [collect] at h
    split at h
    · cases h
      exact fun _ he => he
    · obtain ⟨d, -, h⟩ := Option.bind_eq_some_iff.mp h
      obtain ⟨s, -, h⟩ := Option.bind_eq_some_iff.mp h
      exact fun e he => ih h e (List.mem_cons_of_mem _ he)

/-- Two documents side by side whose targets stand in each other's place collect them for the same
references. -/
theorem keys_of_collect (hD : D.collapse = D) {fuel : Nat}
    {targets targets' ts ts' : List (String × Schema)} {pending : List String}
    (hkeys : Entries.keys targets' = Entries.keys targets)
    (h : collect draft D fuel targets pending = some ts)
    (h' : collect draft D' fuel targets' pending = some ts')
    (hplaced : ∀ e ∈ ts, ∀ T T', Schema.Pointer.resolve? D e.1 = some T →
      Schema.Pointer.resolve? D' e.1 = some T' → Schema.InPlace T T') :
    Entries.keys ts' = Entries.keys ts := by
  induction fuel generalizing targets targets' pending with
  | zero =>
    cases h
    cases h'
    exact hkeys
  | succ fuel ih =>
    have hnone (p : String) : (targets'.lookup p).isNone = (targets.lookup p).isNone :=
      Entries.isNone_lookup hkeys p
    rw [collect] at h h'
    simp only [hnone] at h'
    split at h
    · next hnil =>
      rw [hnil] at h'
      cases h
      cases h'
      exact hkeys
    · next p rest hcons =>
      -- Both take the same reference next, and its two targets refer to the same in turn.
      rw [hcons] at h'
      obtain ⟨T, hT, h⟩ := Option.bind_eq_some_iff.mp h
      obtain ⟨s, hs, h⟩ := Option.bind_eq_some_iff.mp h
      obtain ⟨T', hT', h'⟩ := Option.bind_eq_some_iff.mp h'
      obtain ⟨s', hs', h'⟩ := Option.bind_eq_some_iff.mp h'
      have hmem : (p, s) ∈ ts := mem_of_collect h _ List.mem_cons_self
      have hinPlace := hplaced _ hmem T T' hT hT'
      have hrefs := Schema.refs_inPlace (Schema.collapse_of_resolve hD hT) hinPlace hs hs'
      rw [hrefs] at h'
      have hcons : Entries.keys ((p, s') :: targets') = Entries.keys ((p, s) :: targets) :=
        congrArg (List.cons p) hkeys
      exact ih hcons h h'

end Contract
end Catalog
