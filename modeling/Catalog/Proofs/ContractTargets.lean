import Mathlib.Data.List.Perm.Subperm
import Catalog.Proofs.Compilation

/-! The targets of a contract. Every reference that may be followed stands in the document, so there
are only so many of them, and collecting them ends with all that are met on the way. -/

namespace Catalog.Schema
variable {draft : Draft}

mutual

/-- The references that stand anywhere in a document. -/
def pointers : Json → List String
  | .array vs => pointersItems vs
  | .object ms => pointersMembers ms
  | _ => []

def pointersItems : List Json → List String
  | [] => []
  | v :: vs => pointers v ++ pointersItems vs

def pointersMembers : List (String × Json) → List String
  | [] => []
  | (k, v) :: ms =>
    (if referenceKeywords.contains k then (text? v).toList else []) ++ pointers v ++
      pointersMembers ms

end

theorem mem_pointers_array {p : String} {vs : List Json} :
    p ∈ pointers (.array vs) ↔ ∃ v ∈ vs, p ∈ pointers v := by
  rw [pointers]
  induction vs with
  | nil => simp [pointersItems]
  | cons v vs ih => simp [pointersItems, ih]

theorem mem_pointers_object {p : String} {ms : Entries Json} :
    p ∈ pointers (.object ms) ↔
      (∃ key ∈ referenceKeywords, (key, .string p) ∈ ms) ∨ ∃ e ∈ ms, p ∈ pointers e.2 := by
  rw [pointers]
  induction ms with
  | nil => simp [pointersMembers]
  | cons e ms ih =>
    obtain ⟨k, v⟩ := e
    have hhead : p ∈ (if referenceKeywords.contains k then (text? v).toList else []) ↔
        ∃ key ∈ referenceKeywords, (key, Json.string p) = (k, v) := by
      by_cases hk : k ∈ referenceKeywords
      · cases v <;> simp [hk, text?, eq_comm]
      · simp [hk]
    rw [pointersMembers, List.mem_append, List.mem_append, hhead, ih]
    simp only [List.mem_cons, exists_eq_or_imp, and_or_left, exists_or]
    exact or_or_or_comm

/-- There are no more references than are counted. -/
theorem length_pointers_le (v : Json) : (pointers v).length ≤ refCount v := by
  induction v using Json.induction with
  | null | bool | number | string => simp [pointers]
  | array vs ih =>
    rw [pointers, refCount]
    induction vs with
    | nil => simp [pointersItems]
    | cons v vs ihs =>
      have hv := ih v List.mem_cons_self
      have hvs := ihs fun w hw => ih w (List.mem_cons_of_mem _ hw)
      rw [pointersItems, refCountItems, List.length_append]
      omega
  | object ms ih =>
    rw [pointers, refCount]
    induction ms with
    | nil => simp [pointersMembers]
    | cons e ms ihs =>
      obtain ⟨k, v⟩ := e
      have hv : (pointers v).length ≤ refCount v := ih (k, v) List.mem_cons_self
      have hms := ihs fun e he => ih e (List.mem_cons_of_mem _ he)
      have hhead : (if referenceKeywords.contains k then (text? v).toList else []).length ≤
          if referenceKeywords.contains k then 1 else 0 := by
        split
        · cases text? v <;> simp
        · simp
      rw [pointersMembers, refCountMembers, List.length_append, List.length_append]
      omega

theorem reads_some {α : Type} {ms : Entries Json} {name : String} {read : Json → Option α} {x : α}
    (h : Reads ms name read (some x)) : ∃ v, ms.lookup name = some v ∧ read v = some x := by
  unfold Reads at h
  cases hv : ms.lookup name with
  | none => simp [hv] at h
  | some v => exact ⟨v, rfl, by simpa [hv] using h⟩

theorem reads_of_lookup {α : Type} {ms : Entries Json} {name : String} {read : Json → Option α}
    {a : Option α} {v : Json} (h : Reads ms name read a) (hv : ms.lookup name = some v) :
    ∃ x, read v = some x ∧ a = some x := by
  rw [Reads, hv, Option.map_some] at h
  cases a with
  | none => cases h
  | some x => exact ⟨x, Option.some.inj h, rfl⟩

theorem reads_of_lookup_eq_none {α : Type} {ms : Entries Json} {name : String}
    {read : Json → Option α} {a : Option α} (h : Reads ms name read a)
    (hv : ms.lookup name = none) : a = none := by
  rw [Reads, hv, Option.map_none] at h
  simpa using h.symm

/-- A keyword that has been read is there, and one that has not is not. -/
theorem isSome_of_reads {α : Type} {ms : Entries Json} {name : String} {read : Json → Option α}
    {a : Option α} (h : Reads ms name read a) : (ms.lookup name).isSome = a.isSome := by
  rw [← Option.isSome_map (f := read), h, Option.isSome_map]

theorem mem_refsIn {α : Type} {f : α → List String} {a : Option α} {p : String} :
    p ∈ refsIn f a ↔ ∃ x, a = some x ∧ p ∈ f x := by
  cases a <;> simp [refsIn]

theorem mem_refsEvery {ss : List Schema} {p : String} :
    p ∈ refsEvery ss ↔ ∃ s ∈ ss, p ∈ s.refs := by
  induction ss with
  | nil => simp [refsEvery]
  | cons s ss ih => simp [refsEvery, ih]

theorem mem_refsNamed {known : List (String × Schema)} {p : String} :
    p ∈ refsNamed known ↔ ∃ e ∈ known, p ∈ e.2.refs := by
  induction known with
  | nil => simp [refsNamed]
  | cons e known ih => simp [refsNamed, ih]

theorem mem_of_mem_only {d : Draft} {ms : Entries Json} {e : String × Json}
    (h : e ∈ only d draft ms) : e ∈ ms := by
  unfold only at h
  split at h
  · exact h
  · cases h

/-- A text that has been read is what the member is. -/
theorem lookup_of_text {ms : Entries Json} {name p : String}
    (h : Reads ms name text? (some p)) : ms.lookup name = some (.string p) := by
  obtain ⟨v, hv, hread⟩ := reads_some h
  cases v with
  | string q => rw [hv, Option.some.inj hread]
  | _ => cases hread

theorem furtherItems_eq_some {k : Keywords} {s : Schema} :
    k.furtherItems = some s ↔ k.prefixItems.isSome = true ∧ k.additionalItems = some s := by
  unfold Keywords.furtherItems
  split <;> simp [*]

theorem mem_refs_conditional {k : Keywords} {p : String}
    (h : p ∈ refsIn Schema.refs k.conditional) : p ∈ refsIn Schema.refs k.condition ∨
      p ∈ refsIn Schema.refs k.consequence ∨ p ∈ refsIn Schema.refs k.alternative := by
  have hgetD {a : Option Schema} (hp : p ∈ (a.getD .anything).refs) :
      p ∈ refsIn Schema.refs a := by
    cases a with
    | none => simp [Schema.refs] at hp
    | some s => exact hp
  obtain ⟨s, hs, hp⟩ := mem_refsIn.mp h
  obtain ⟨c, hc, rfl⟩ := Option.map_eq_some_iff.mp hs
  simp only [Schema.refs, List.mem_append, or_assoc] at hp
  rcases hp with hp | hp | hp
  · exact Or.inl (mem_refsIn.mpr ⟨c, hc, hp⟩)
  · exact Or.inr (Or.inl (hgetD hp))
  · exact Or.inr (Or.inr (hgetD hp))

/-- Schemas that members may have are those of the members that are no lists. -/
theorem unlisted?_eq (ms : Entries Json) : unlisted? draft ms = named? draft (lists false ms) := by
  induction ms with
  | nil => rfl
  | cons e ms ih =>
    obtain ⟨k, v⟩ := e
    cases v <;> simp [unlisted?, named?, lists, Json.shape, ih]

/-- What is read from a document refers to nothing but what the document refers to. -/
structure Within (draft : Draft) (d : Json) : Prop where
  schema : ∀ s, ofJson? draft d = some s → ∀ p ∈ s.refs, p ∈ pointers d
  list : ∀ ss, schemas? draft d = some ss → ∀ p ∈ refsEvery ss, p ∈ pointers d
  named : ∀ known, members? draft d = some known → ∀ p ∈ refsNamed known, p ∈ pointers d
  dependent : ∀ known, dependents? draft d = some known → ∀ p ∈ refsNamed known, p ∈ pointers d

/-- What a keyword refers to stands in the member that it is read from. -/
theorem mem_pointers_of_reads {ms ms' : Entries Json} (hms : ∀ e ∈ ms, Within draft e.2)
    (hsub : ∀ e ∈ ms', e ∈ ms) {α : Type} {a : Option α} {name : String} {read : Json → Option α}
    {f : α → List String} (hr : Reads ms' name read a)
    (hread : ∀ v x, Within draft v → read v = some x → ∀ p ∈ f x, p ∈ pointers v) :
    ∀ p ∈ refsIn f a, p ∈ pointers (.object ms) := by
  intro p hp
  obtain ⟨x, rfl, hp⟩ := mem_refsIn.mp hp
  obtain ⟨v, hv, hx⟩ := reads_some hr
  have hmem := hsub _ (Entries.mem_of_lookup hv)
  exact mem_pointers_object.mpr (Or.inr ⟨_, hmem, hread v x (hms _ hmem) hx p hp⟩)

theorem mem_pointers_of_text {ms ms' : Entries Json} (hsub : ∀ e ∈ ms', e ∈ ms) {name p : String}
    (hname : name ∈ referenceKeywords) (hr : Reads ms' name text? (some p)) :
    p ∈ pointers (.object ms) :=
  mem_pointers_object.mpr
    (Or.inl ⟨name, hname, hsub _ (Entries.mem_of_lookup (lookup_of_text hr))⟩)

theorem Keywords.Of.within {k : Keywords} {ms : Entries Json} (ho : k.Of draft ms)
    (hms : ∀ e ∈ ms, Within draft e.2) : ∀ p ∈ k.refs, p ∈ pointers (.object ms) := by
  have hall : ∀ e ∈ ms, e ∈ ms := fun _ he => he
  have hlists (b : Bool) : ∀ e ∈ lists b ms, e ∈ ms := fun _ he => List.mem_of_mem_filter he
  have honly (d : Draft) : ∀ e ∈ only d draft ms, e ∈ ms := fun _ he => mem_of_mem_only he
  have hschema {a : Option Schema} {name : String} {ms' : Entries Json}
      (hsub : ∀ e ∈ ms', e ∈ ms) (hr : Reads ms' name (ofJson? draft) a) :=
    mem_pointers_of_reads hms hsub hr fun v x hw => hw.schema x
  have hlist {a : Option (List Schema)} {name : String} {ms' : Entries Json}
      (hsub : ∀ e ∈ ms', e ∈ ms) (hr : Reads ms' name (schemas? draft) a) :=
    mem_pointers_of_reads hms hsub hr fun v x hw => hw.list x
  have hnamed {a : Option (List (String × Schema))} {name : String}
      (hr : Reads ms name (members? draft) a) :=
    mem_pointers_of_reads hms hall hr fun v x hw => hw.named x
  intro p hp
  simp only [Keywords.refs, List.mem_append, or_assoc] at hp
  rcases hp with hp | hp | hp | hp | hp | hp | hp | hp | hp | hp | hp | hp | hp | hp | hp | hp | hp
  · exact hnamed ho.properties p hp
  · exact hnamed ho.patternProperties p hp
  · exact hschema hall ho.additionalProperties p hp
  · exact hschema hall ho.propertyNames p hp
  · cases draft with
    | draft2020 => exact hschema hall (ho.items rfl) p hp
    | draft7 => exact hschema (hlists false) (ho.oldItems rfl) p hp
  · cases draft with
    | draft2020 => exact hlist hall (ho.prefixItems rfl) p hp
    | draft7 => exact hlist (hlists true) (ho.oldPrefixItems rfl) p hp
  · obtain ⟨s, hs, hp⟩ := mem_refsIn.mp hp
    have hfurther := (furtherItems_eq_some.mp hs).2
    exact hschema (honly .draft7) ho.additionalItems p (mem_refsIn.mpr ⟨s, hfurther, hp⟩)
  · exact hschema hall ho.contains p hp
  · cases draft with
    | draft2020 => exact hnamed (ho.dependentSchemas rfl) p hp
    | draft7 =>
      exact mem_pointers_of_reads hms hall (ho.oldDependentSchemas rfl)
        (fun v x hw => hw.dependent x) p hp
  · exact hlist hall ho.allOf p hp
  · exact hlist hall ho.anyOf p hp
  · exact hlist hall ho.oneOf p hp
  · refine mem_pointers_of_reads (f := fun e => e.2.refs) hms hall ho.excluded ?_ p hp
    intro v x hw hx
    obtain ⟨s, hs, rfl⟩ := Option.map_eq_some_iff.mp hx
    exact hw.schema s hs
  · -- The three schemas of a condition are read from three members.
    rcases mem_refs_conditional hp with hp | hp | hp
    · exact hschema hall ho.condition p hp
    · exact hschema hall ho.consequence p hp
    · exact hschema hall ho.alternative p hp
  · rcases List.mem_append.mp hp with hp | hp
    · have href : k.ref = some p := Option.mem_toList.mp hp
      exact mem_pointers_of_text hall (by decide) (href ▸ ho.ref)
    · have hdynamic : k.dynamicRef = some p := Option.mem_toList.mp hp
      exact mem_pointers_of_text (honly .draft2020) (by decide) (hdynamic ▸ ho.dynamicRef)
  · exact hschema (honly .draft2020) ho.unevaluatedItems p hp
  · exact hschema (honly .draft2020) ho.unevaluatedProperties p hp

theorem nonempty_eq_some {α : Type} {l l' : List α} (h : nonempty l = some l') : l = l' := by
  unfold nonempty at h
  split at h
  · cases h
  · exact Option.some.inj h

theorem array_of_schemas {v : Json} {ss : List Schema} (h : schemas? draft v = some ss) :
    ∃ vs, v = .array vs ∧ List.Forall₂ (fun v s => ofJson? draft v = some s) vs ss := by
  cases v with
  | array vs =>
    obtain ⟨ss', hlist, hne⟩ := Option.bind_eq_some_iff.mp h
    obtain rfl : ss' = ss := nonempty_eq_some hne
    exact ⟨vs, rfl, list?_eq_some.mp hlist⟩
  | _ => cases h

theorem object_of_members {v : Json} {known : List (String × Schema)}
    (h : members? draft v = some known) : ∃ ms, v = .object ms ∧
      List.Forall₂ (fun e s => s.1 = e.1 ∧ ofJson? draft e.2 = some s.2) ms known := by
  cases v with
  | object ms => exact ⟨ms, rfl, named?_eq_some.mp h⟩
  | _ => cases h

theorem exists_of_mem_right {α β : Type} {r : α → β → Prop} {l : List α} {l' : List β}
    (h : List.Forall₂ r l l') {b : β} (hb : b ∈ l') : ∃ a ∈ l, r a b := by
  obtain ⟨i, hi, rfl⟩ := List.getElem_of_mem hb
  have hi' : i < l.length := h.length_eq ▸ hi
  exact ⟨l[i], List.getElem_mem hi', h.get hi' hi⟩

theorem exists_of_mem_left {α β : Type} {r : α → β → Prop} {l : List α} {l' : List β}
    (h : List.Forall₂ r l l') {a : α} (ha : a ∈ l) : ∃ b ∈ l', r a b :=
  exists_of_mem_right h.flip ha

theorem within (d : Json) : Within draft d := by
  induction d using Json.induction with
  | null | number | string =>
    constructor <;> intro x hx <;> simp [ofJson?, schemas?, members?, dependents?] at hx
  | bool b =>
    constructor
    · intro s hs p hp
      rw [ofJson?, Option.some.injEq] at hs
      cases b <;> simp [← hs, always, Schema.refs] at hp
    all_goals
      intro x hx
      simp [schemas?, members?, dependents?] at hx
  | array vs ih =>
    constructor
    · intro s hs
      simp [ofJson?] at hs
    · intro ss hss p hp
      obtain ⟨vs', hvs, hlist⟩ := array_of_schemas hss
      cases hvs
      obtain ⟨s, hs, hp⟩ := mem_refsEvery.mp hp
      obtain ⟨v, hv, hvs⟩ := exists_of_mem_right hlist hs
      exact mem_pointers_array.mpr ⟨v, hv, (ih v hv).schema s hvs p hp⟩
    all_goals
      intro x hx
      simp [members?, dependents?] at hx
  | object ms ih =>
    have hnamed {ms' : Entries Json} (hsub : ∀ e ∈ ms', e ∈ ms) {known : List (String × Schema)}
        (hknown : named? draft ms' = some known) :
        ∀ p ∈ refsNamed known, p ∈ pointers (.object ms) := by
      intro p hp
      obtain ⟨s, hs, hp⟩ := mem_refsNamed.mp hp
      obtain ⟨e, he, -, hes⟩ := exists_of_mem_right (named?_eq_some.mp hknown) hs
      have hmem := hsub e he
      exact mem_pointers_object.mpr (Or.inr ⟨e, hmem, (ih e hmem).schema s.2 hes p hp⟩)
    constructor
    · intro s hs p hp
      obtain ⟨k, hk, hs⟩ := ofJson?_object_eq_some.mp hs
      have hwithin := (keywords?_of hk).within ih
      rcases Keywords.refs_schema hs with ⟨-, hrefs⟩ | ⟨-, hrefs⟩
      · rw [hrefs, Option.mem_toList] at hp
        exact hwithin p (by simp [Keywords.refs, Keywords.references, Option.mem_def.mp hp])
      · rw [hrefs] at hp
        exact hwithin p hp
    · intro x hx
      simp [schemas?] at hx
    · exact fun known hknown => hnamed (fun _ he => he) hknown
    · intro known hknown
      rw [dependents?, unlisted?_eq] at hknown
      exact hnamed (fun _ he => List.mem_of_mem_filter he) hknown

/-- What holds of a document and passes on to the parts of a value holds wherever a reference leads.
-/
theorem Pointer.resolve_induction {P : Json → Prop}
    (hstep : ∀ v w step, Pointer.part? v step = some w → P v → P w) {d part : Json}
    {reference : String} (h : Pointer.resolve? d reference = some part) (hd : P d) : P part := by
  have hrun {steps : List String} {v : Json} (hv : steps.foldlM Pointer.part? v = some part)
      (hP : P v) : P part := by
    induction steps generalizing v with
    | nil =>
      obtain rfl : v = part := by simpa using hv
      exact hP
    | cons step steps ih =>
      rw [List.foldlM_cons] at hv
      obtain ⟨w, hw, hv⟩ := Option.bind_eq_some_iff.mp hv
      exact ih hv (hstep v w step hw hP)
  unfold Pointer.resolve? at h
  split at h
  · obtain ⟨cs, -, h⟩ := Option.bind_eq_some_iff.mp h
    obtain ⟨steps, -, h⟩ := Option.bind_eq_some_iff.mp h
    exact hrun h hd
  · cases h

/-- A step leads to a member or to an item. -/
theorem Pointer.part_cases {v w : Json} {step : String} (h : Pointer.part? v step = some w) :
    (∃ ms, v = .object ms ∧ (step, w) ∈ ms) ∨ ∃ vs, v = .array vs ∧ w ∈ vs := by
  cases v with
  | object ms => exact Or.inl ⟨ms, rfl, Entries.mem_of_lookup h⟩
  | array vs =>
    obtain ⟨i, -, hi⟩ := Option.bind_eq_some_iff.mp h
    exact Or.inr ⟨vs, rfl, List.mem_of_getElem? hi⟩
  | _ => cases h

/-- What a pointer leads to refers to nothing but what the document refers to. -/
theorem pointers_of_resolve {d part : Json} {reference p : String}
    (h : Pointer.resolve? d reference = some part) (hp : p ∈ pointers part) : p ∈ pointers d := by
  refine Pointer.resolve_induction (P := fun v => p ∈ pointers v → p ∈ pointers d) ?_ h id hp
  intro v w step hw hv hp
  apply hv
  rcases Pointer.part_cases hw with ⟨ms, rfl, hmem⟩ | ⟨vs, rfl, hmem⟩
  · exact mem_pointers_object.mpr (Or.inr ⟨_, hmem, hp⟩)
  · exact mem_pointers_array.mpr ⟨w, hmem, hp⟩

theorem collapse_of_resolve {d part : Json} {reference : String} (hd : d.collapse = d)
    (h : Pointer.resolve? d reference = some part) : part.collapse = part := by
  refine Pointer.resolve_induction (P := fun v => v.collapse = v) ?_ h hd
  intro v w step hw hv
  rcases Pointer.part_cases hw with ⟨ms, rfl, hmem⟩ | ⟨vs, rfl, hmem⟩
  · exact Json.collapse_of_mem_object hv hmem
  · exact Json.collapse_of_mem_array hv hmem

end Catalog.Schema

namespace Catalog.Contract
variable {draft : Draft} {document : Json}

/-- While targets are collected: they are the schemas that their references lead to, and what they
and the root refer to has been collected or is pending. -/
structure Collecting (draft : Draft) (document : Json) (root : List String)
    (targets : List (String × Schema)) (pending : List String) : Prop where
  distinct : (targets.map Prod.fst).Nodup
  placed : ∀ e ∈ targets, e.1 ∈ Schema.pointers document
  resolved : ∀ e ∈ targets, ∃ d, Schema.Pointer.resolve? document e.1 = some d ∧
    Schema.ofJson? draft d = some e.2
  waiting : ∀ p ∈ pending, p ∈ Schema.pointers document
  met : ∀ p, (p ∈ root ∨ ∃ e ∈ targets, p ∈ e.2.refs) →
    (targets.lookup p).isSome = true ∨ p ∈ pending

/-- The targets are the schemas that their references lead to, and hold whatever they and the root
refer to. -/
structure Collected (draft : Draft) (document : Json) (root : List String)
    (targets : List (String × Schema)) : Prop where
  resolved : ∀ e ∈ targets, ∃ d, Schema.Pointer.resolve? document e.1 = some d ∧
    Schema.ofJson? draft d = some e.2
  met : ∀ p, (p ∈ root ∨ ∃ e ∈ targets, p ∈ e.2.refs) → (targets.lookup p).isSome = true

/-- The first reference that is pending and has no target gets one, and what the target refers to
becomes pending. -/
theorem Collecting.add {root pending rest : List String} {targets : List (String × Schema)}
    {p : String} {d : Json} {s : Schema} (h : Collecting draft document root targets pending)
    (hfilter : ∀ q, q ∈ p :: rest ↔ q ∈ pending ∧ targets.lookup q = none)
    (hd : Schema.Pointer.resolve? document p = some d) (hs : Schema.ofJson? draft d = some s) :
    Collecting draft document root ((p, s) :: targets) (rest ++ s.refs) where
  distinct := by
    refine List.nodup_cons.mpr ⟨fun hp => ?_, h.distinct⟩
    obtain ⟨-, hnone⟩ := (hfilter p).mp List.mem_cons_self
    obtain ⟨e, he, rfl⟩ := List.mem_map.mp hp
    simpa using List.lookup_eq_none_iff.mp hnone e he
  placed := by
    intro e he
    rcases List.mem_cons.mp he with rfl | he
    · exact h.waiting p ((hfilter p).mp List.mem_cons_self).1
    · exact h.placed e he
  resolved := by
    intro e he
    rcases List.mem_cons.mp he with rfl | he
    · exact ⟨d, hd, hs⟩
    · exact h.resolved e he
  waiting := by
    intro q hq
    rcases List.mem_append.mp hq with hq | hq
    · exact h.waiting q ((hfilter q).mp (List.mem_cons_of_mem _ hq)).1
    · exact Schema.pointers_of_resolve hd ((Schema.within d).schema s hs q hq)
  met := by
    intro q hq
    rw [Entries.lookup_cons]
    by_cases hqp : q = p
    · simp [hqp]
    rw [if_neg hqp]
    -- What was pending before has a target by now, or is still pending.
    have hbefore : (targets.lookup q).isSome = true ∨ q ∈ pending →
        (targets.lookup q).isSome = true ∨ q ∈ rest ++ s.refs := by
      rintro (hq | hq)
      · exact Or.inl hq
      · cases hl : targets.lookup q with
        | some t => exact Or.inl rfl
        | none =>
          have hrest := List.mem_of_ne_of_mem hqp ((hfilter q).mpr ⟨hq, hl⟩)
          exact Or.inr (List.mem_append_left _ hrest)
    rcases hq with hq | ⟨e, he, hq⟩
    · exact hbefore (h.met q (Or.inl hq))
    · rcases List.mem_cons.mp he with rfl | he
      · exact Or.inr (List.mem_append_right _ hq)
      · exact hbefore (h.met q (Or.inr ⟨e, he, hq⟩))

theorem Collecting.collected {root pending : List String} {targets ts : List (String × Schema)}
    {fuel : Nat} (h : Collecting draft document root targets pending)
    (hfuel : (Schema.pointers document).length < fuel + targets.length)
    (hts : collect draft document fuel targets pending = some ts) :
    Collected draft document root ts := by
  induction fuel generalizing targets pending with
  | zero =>
    -- There cannot be more targets than references in the document.
    have hsub : (targets.map Prod.fst).Subperm (Schema.pointers document) := by
      apply List.subperm_of_subset h.distinct
      intro p hp
      obtain ⟨e, he, rfl⟩ := List.mem_map.mp hp
      exact h.placed e he
    have hle := hsub.length_le
    rw [List.length_map] at hle
    omega
  | succ fuel ih =>
    rw [collect] at hts
    split at hts
    · next hnone =>
      cases hts
      refine ⟨h.resolved, fun p hp => ?_⟩
      rcases h.met p hp with hp | hp
      · exact hp
      · have hp := List.filter_eq_nil_iff.mp hnone p hp
        simpa [Option.isSome_iff_ne_none] using hp
    · next p rest hsome =>
      obtain ⟨d, hd, hts⟩ := Option.bind_eq_some_iff.mp hts
      obtain ⟨s, hs, hts⟩ := Option.bind_eq_some_iff.mp hts
      have hfilter : ∀ q, q ∈ p :: rest ↔ q ∈ pending ∧ targets.lookup q = none := by
        intro q
        rw [← hsome, List.mem_filter, Option.isNone_iff_eq_none]
      exact ih (h.add hfilter hd hs) (by rw [List.length_cons]; omega) hts

/-- The contract of a document is made of the schemas that stand in it, and no reference that may be
followed is without its target. -/
structure Complete (document : Json) (c : Contract) : Prop where
  root : Schema.ofJson? (Draft.ofDocument document) document = some c.root
  collected : Collected (Draft.ofDocument document) document c.root.refs c.targets

/-- A contract is made of a document with a known draft. -/
theorem ofDocument_eq_some {c : Contract} (h : ofDocument? document = some c) :
    Schema.ofJson? (Draft.ofDocument document) document = some c.root ∧
      collect (Draft.ofDocument document) document (Schema.refCount document + 1) [] c.root.refs =
        some c.targets := by
  obtain ⟨draft, hdraft, h⟩ := Option.bind_eq_some_iff.mp h
  have hnamed : Draft.ofDocument document = draft := by rw [Draft.ofDocument, hdraft]; rfl
  split at h
  · obtain ⟨root, hroot, h⟩ := Option.bind_eq_some_iff.mp h
    obtain ⟨targets, htargets, h⟩ := Option.bind_eq_some_iff.mp h
    cases h
    rw [hnamed]
    exact ⟨hroot, htargets⟩
  · cases h

theorem complete_of_ofDocument {c : Contract} (h : ofDocument? document = some c) :
    c.Complete document := by
  obtain ⟨hroot, htargets⟩ := ofDocument_eq_some h
  have hstart : Collecting (Draft.ofDocument document) document c.root.refs [] c.root.refs :=
    { distinct := List.nodup_nil
      placed := fun e he => by cases he
      resolved := fun e he => by cases he
      waiting := (Schema.within document).schema c.root hroot
      met := fun p hp => Or.inr (by simpa using hp) }
  refine ⟨hroot, hstart.collected ?_ htargets⟩
  have hle := Schema.length_pointers_le document
  simp only [List.length_nil]
  omega

end Catalog.Contract
