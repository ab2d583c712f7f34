import Catalog.Field
import Catalog.Proofs.StrictDocuments
import Mathlib.Data.List.Induction

/-! Strict documents place by place. A document is searched for schemas from its root on, through the
keywords that hold them, and the object schemas found open are closed. Every other place holds what
it held: it is a map or a list of schemas, or it lies in a member that is not searched. -/

namespace Catalog

namespace Json

/-- The part of a value to which a step leads. -/
def part? : Json → Step → Option Json
  | .array vs, .index i => vs[i]?
  | .object ms, .key k => ms.lookup k
  | _, _ => none

/-- What stands at a place in a value. -/
def at? (v : Json) (p : Field) : Option Json :=
  p.foldlM part? v

theorem at?_append (v : Json) (p q : Field) : v.at? (p ++ q) = (v.at? p).bind (·.at? q) := by
  rw [at?, List.foldlM_append]
  rfl

theorem at?_child (v : Json) (p : Field) (step : Step) :
    v.at? (p.child step) = (v.at? p).bind (·.part? step) := by
  have hone (w : Json) : w.at? [step] = w.part? step := by simp [at?]
  rw [Field.child, at?_append]
  simp only [hone]

/-- The values are the same but for what stands below them. -/
def SameNode : Json → Json → Prop
  | .array vs, .array ws => vs.length = ws.length
  | .object ms, .object ns => Entries.keys ms = Entries.keys ns
  | v, w => v = w

theorem SameNode.refl (v : Json) : v.SameNode v := by
  cases v <;> rfl

/-- The same steps lead on from both. -/
theorem SameNode.part?_eq_none {v w : Json} (h : v.SameNode w) {step : Step}
    (hnone : v.part? step = none) : w.part? step = none := by
  cases v with
  | object ms =>
    cases w with
    | object ns =>
      cases step with
      | key k =>
        have hkeys : Entries.keys ms = Entries.keys ns := h
        have hlookup : ms.lookup k = none := hnone
        rw [part?, ← Option.isNone_iff_eq_none, Entries.isNone_lookup hkeys.symm, hlookup]
        rfl
      | index i => rfl
    | _ => cases h
  | array vs =>
    cases w with
    | array ws =>
      cases step with
      | key k => rfl
      | index i =>
        have hlength : vs.length = ws.length := h
        rw [part?, List.getElem?_eq_none_iff, ← hlength, ← List.getElem?_eq_none_iff]
        exact hnone
    | _ => cases h
  | null | bool | number | string =>
    obtain rfl : _ = w := h
    exact hnone

end Json

namespace Schema
variable {s v u : Json} {p q : Field} {ms : Entries Json} {name : String}

/-- In the document `s` the schema `v` is found at the place `p`. The items of an array are schemas
where the array is found in the place of one. -/
inductive Reached (s : Json) : Field → Json → Prop where
  | root : Reached s [] s
  | item {p : Field} {vs : List Json} {i : Nat} {v : Json} (h : Reached s p (.array vs))
    (hv : vs[i]? = some v) : Reached s (p.child (.index i)) v
  | single {p : Field} {ms : Entries Json} {name : String} {v : Json} (h : Reached s p (.object ms))
    (hname : name ∈ ["items", "additionalProperties", "not"]) (hv : ms.lookup name = some v) :
    Reached s (p.child (.key name)) v
  | named {p : Field} {ms children : Entries Json} {name k : String} {v : Json}
    (h : Reached s p (.object ms)) (hname : name ∈ ["properties", "$defs", "definitions"])
    (hchildren : ms.lookup name = some (.object children)) (hv : children.lookup k = some v) :
    Reached s ((p.child (.key name)).child (.key k)) v
  | listed {p : Field} {ms : Entries Json} {name : String} {vs : List Json} {i : Nat} {v : Json}
    (h : Reached s p (.object ms)) (hname : name ∈ ["prefixItems", "allOf", "anyOf", "oneOf"])
    (hvs : ms.lookup name = some (.array vs)) (hv : vs[i]? = some v) :
    Reached s ((p.child (.key name)).child (.index i)) v

/-- At the place stands an object schema that leaves it open which further members there are. -/
def OpenAt (s : Json) (p : Field) : Prop :=
  ∃ ms, Reached s p (.object ms) ∧ isObjectSchema ms = true ∧
    ms.lookup "additionalProperties" = none

/-- The member under a keyword is a schema, or it holds schemas by name or as a list. -/
def HoldsSchemas (name : String) : Json → Prop
  | .object _ => name ∈ ["items", "additionalProperties", "not"] ∨
      name ∈ ["properties", "$defs", "definitions"]
  | .array _ => name ∈ ["items", "additionalProperties", "not"] ∨
      name ∈ ["prefixItems", "allOf", "anyOf", "oneOf"]
  | _ => name ∈ ["items", "additionalProperties", "not"]

section Members

theorem strictMember_single (h : name ∈ schemaKeywords) (v : Json) :
    strictMember name v = strict v := by
  have hname : schemaKeywords.contains name = true := by simpa using h
  unfold strictMember
  rw [if_pos hname]

theorem strictMember_named (h : name ∈ mapKeywords) (children : Entries Json) :
    strictMember name (.object children) = .object (strictChildren children) := by
  have hother : ∀ k ∈ mapKeywords, schemaKeywords.contains k = false := by decide
  have hname : mapKeywords.contains name = true := by simpa using h
  simp only [strictMember, hother name h, hname, Bool.false_eq_true, ↓reduceIte]

theorem strictMember_listed (h : name ∈ listKeywords) (vs : List Json) :
    strictMember name (.array vs) = .array (vs.map strict) := by
  have hother : ∀ k ∈ listKeywords, schemaKeywords.contains k = false := by decide
  have hname : listKeywords.contains name = true := by simpa using h
  simp only [strictMember, hother name h, hname, Bool.false_eq_true, ↓reduceIte,
    strictItems_eq_map]

theorem strictMember_of_not_holds (h : ¬HoldsSchemas name v) : strictMember name v = v := by
  have hcontains {names : List String} (hn : name ∉ names) : names.contains name = false := by
    simpa using hn
  cases v with
  | object children =>
    rw [HoldsSchemas, not_or] at h
    have hs : schemaKeywords.contains name = false := hcontains h.1
    have hm : mapKeywords.contains name = false := hcontains h.2
    simp only [strictMember, hs, hm, Bool.false_eq_true, ↓reduceIte]
  | array vs =>
    rw [HoldsSchemas, not_or] at h
    have hs : schemaKeywords.contains name = false := hcontains h.1
    have hl : listKeywords.contains name = false := hcontains h.2
    simp only [strictMember, hs, hl, Bool.false_eq_true, ↓reduceIte]
  | null | bool | number | string =>
    have hs : schemaKeywords.contains name = false := hcontains h
    simp only [strictMember, hs, Bool.false_eq_true, ↓reduceIte]

/-- The member that closes an open schema takes the place of no other. -/
theorem lookup_strictObject_of_lookup (h : ms.lookup name = some v) :
    (strictObject ms).lookup name = some (strictMember name v) := by
  rw [lookup_strictObject_of_kept, h, Option.map_some]
  rintro ho rfl
  simp [isOpen, h] at ho

end Members

/-- Schemas are found in the strict document where they are found in the document, and there they
are strict. -/
theorem Reached.at?_eq (h : Reached s p v) :
    s.at? p = some v ∧ (strict s).at? p = some (strict v) := by
  induction h with
  | root => exact ⟨rfl, rfl⟩
  | item h hv ih =>
    rw [Json.at?_child, Json.at?_child, ih.1, ih.2, strict, strictItems_eq_map]
    simp [Json.part?, hv]
  | single h hname hv ih =>
    rw [Json.at?_child, Json.at?_child, ih.1, ih.2, strict_object]
    simp [Json.part?, hv, lookup_strictObject_of_lookup hv, strictMember_single hname]
  | named h hname hchildren hv ih =>
    rw [Json.at?_child, Json.at?_child, Json.at?_child, Json.at?_child, ih.1, ih.2, strict_object]
    simp [Json.part?, hchildren, lookup_strictObject_of_lookup hchildren,
      strictMember_named hname, strictChildren_eq_map, Entries.lookup_map_keyed fun _ => strict, hv]
  | listed h hname hvs hv ih =>
    rw [Json.at?_child, Json.at?_child, Json.at?_child, Json.at?_child, ih.1, ih.2, strict_object]
    simp [Json.part?, hvs, lookup_strictObject_of_lookup hvs, strictMember_listed hname, hv]

theorem Reached.at?_member (h : Reached s q (.object ms)) (hv : ms.lookup name = some u) :
    s.at? (q.child (.key name)) = some u ∧
      (strict s).at? (q.child (.key name)) = some (strictMember name u) := by
  rw [Json.at?_child, Json.at?_child, h.at?_eq.1, h.at?_eq.2, strict_object]
  exact ⟨hv, lookup_strictObject_of_lookup hv⟩

/-- What a place of a document is to the search: the place of a schema, that of schemas by name or as
a list, or a place inside a member that is not searched. -/
inductive Place (s : Json) : Field → Json → Prop where
  | schema {p : Field} {v : Json} (h : Reached s p v) : Place s p v
  | names {q : Field} {ms children : Entries Json} {name : String} (h : Reached s q (.object ms))
    (hname : name ∈ mapKeywords) (hchildren : ms.lookup name = some (.object children)) :
    Place s (q.child (.key name)) (.object children)
  | list {q : Field} {ms : Entries Json} {name : String} {vs : List Json}
    (h : Reached s q (.object ms)) (hname : name ∈ listKeywords)
    (hvs : ms.lookup name = some (.array vs)) : Place s (q.child (.key name)) (.array vs)
  | data {q r : Field} {ms : Entries Json} {name : String} {u v : Json}
    (h : Reached s q (.object ms)) (hu : ms.lookup name = some u) (hplain : ¬HoldsSchemas name u)
    (hv : u.at? r = some v) : Place s (q.child (.key name) ++ r) v

/-- A member of a schema is searched or it is not. -/
theorem place_of_member (h : Reached s q (.object ms)) (hv : ms.lookup name = some v) :
    Place s (q.child (.key name)) v := by
  by_cases hplain : HoldsSchemas name v
  · cases v with
    | object children =>
      rcases hplain with hname | hname
      · exact .schema (h.single hname hv)
      · exact .names h hname hv
    | array vs =>
      rcases hplain with hname | hname
      · exact .schema (h.single hname hv)
      · exact .list h hname hv
    | null | bool | number | string => exact .schema (h.single hplain hv)
  · have hdata : Place s (q.child (.key name) ++ []) v := .data h hv hplain rfl
    rwa [List.append_nil] at hdata

/-- From every place the search goes on to the parts of what stands there. -/
theorem Place.part {step : Step} (h : Place s p u) (hv : u.part? step = some v) :
    Place s (p.child step) v := by
  cases h with
  | schema h =>
    cases u with
    | object ms =>
      cases step with
      | key name => exact place_of_member h hv
      | index i => cases hv
    | array vs =>
      cases step with
      | key name => cases hv
      | index i => exact .schema (h.item hv)
    | null | bool | number | string => cases step <;> cases hv
  | names h hname hchildren =>
    cases step with
    | key k => exact .schema (h.named hname hchildren hv)
    | index i => cases hv
  | list h hname hvs =>
    cases step with
    | key k => cases hv
    | index i => exact .schema (h.listed hname hvs hv)
  | @data q r ms name u' _ h hu hplain hr =>
    have hbelow : u'.at? (r.child step) = some v := by
      rw [Json.at?_child, hr]
      exact hv
    have hplace : (q.child (.key name) ++ r).child step = q.child (.key name) ++ r.child step := by
      rw [Field.child, List.append_assoc]
      rfl
    rw [hplace]
    exact .data h hu hplain hbelow

theorem place_of_at? (h : s.at? p = some v) : Place s p v := by
  induction p using List.reverseRecOn generalizing v with
  | nil =>
    cases h
    exact .schema .root
  | append_singleton p step ih =>
    have hchild : s.at? (Field.child p step) = some v := h
    rw [Json.at?_child] at hchild
    obtain ⟨u, hu, hv⟩ := Option.bind_eq_some_iff.mp hchild
    exact (ih hu).part hv

/-- At each place of a document the strict document is made strict as a schema, or it has the same
node there. -/
theorem Place.at?_strict (h : Place s p v) :
    ∃ w, (strict s).at? p = some w ∧ (Reached s p v ∧ w = strict v ∨ v.SameNode w) := by
  cases h with
  | schema h => exact ⟨strict v, h.at?_eq.2, .inl ⟨h, rfl⟩⟩
  | @names q ms children name h hname hchildren =>
    refine ⟨.object (strictChildren children), ?_, .inr ?_⟩
    · rw [(h.at?_member hchildren).2, strictMember_named hname]
    · rw [Json.SameNode, strictChildren_eq_map, Entries.keys_map_keyed fun _ => strict]
  | @list q ms name vs h hname hvs =>
    refine ⟨.array (vs.map strict), ?_, .inr (List.length_map strict).symm⟩
    rw [(h.at?_member hvs).2, strictMember_listed hname]
  | @data q r ms name u v h hu hplain hv =>
    refine ⟨v, ?_, .inr (.refl v)⟩
    rw [Json.at?_append, (h.at?_member hu).2, strictMember_of_not_holds hplain]
    exact hv

theorem OpenAt.at?_eq (ho : OpenAt s p) :
    ∃ ms, isOpen ms = true ∧ s.at? p = some (.object ms) ∧
      (strict s).at? p = some (.object (strictObject ms)) := by
  obtain ⟨ms, h, hopen⟩ := ho
  have hstrict := h.at?_eq.2
  rw [strict_object] at hstrict
  exact ⟨ms, isOpen_eq_true.mpr hopen, h.at?_eq.1, hstrict⟩

/-- Where no object schema is found open, the node is kept. -/
theorem at?_strict_of_not_openAt (ho : ¬OpenAt s p) (hv : s.at? p = some v) :
    ∃ w, (strict s).at? p = some w ∧ v.SameNode w := by
  obtain ⟨w, hw, ⟨h, rfl⟩ | hsame⟩ := (place_of_at? hv).at?_strict
  · refine ⟨strict v, hw, ?_⟩
    cases v with
    | object ms =>
      have hclosed : isOpen ms ≠ true := fun hopen => ho ⟨ms, h, isOpen_eq_true.mp hopen⟩
      rw [strict_object, strictObject, if_neg hclosed, Json.SameNode, keys_strictMembers]
    | array vs =>
      rw [strict, strictItems_eq_map, Json.SameNode, List.length_map]
    | null | bool | number | string => rfl
  · exact ⟨w, hw, hsame⟩

/-- The second is an object with the member that closes it, and besides with the members of the
first. -/
def ClosedBy (v w : Json) : Prop :=
  ∃ ms ns, v = .object ms ∧ w = .object ns ∧
    ns.lookup "additionalProperties" = some (.bool false) ∧
    Entries.keys (Entries.erase "additionalProperties" ns) = Entries.keys ms

/-- Where an object schema is found open, the member that closes it is added. -/
theorem at?_strict_of_openAt (ho : OpenAt s p) (hv : s.at? p = some v) :
    ∃ w, (strict s).at? p = some w ∧ ClosedBy v w := by
  obtain ⟨ms, hopen, hms, hstrict⟩ := ho.at?_eq
  obtain rfl : v = .object ms := Option.some.inj (hv.symm.trans hms)
  refine ⟨_, hstrict, ms, strictObject ms, rfl, rfl, lookup_strictObject_of_open hopen, ?_⟩
  rw [strictObject, if_pos hopen, Entries.erase_insert (lookup_strictMembers_of_open hopen),
    keys_strictMembers]

/-- The one part that the strict document may have and the document not is the member that closes an
open schema. -/
theorem part?_of_new {step : Step} {w x : Json} (hv : s.at? p = some v)
    (hw : (strict s).at? p = some w) (hnone : v.part? step = none) (hx : w.part? step = some x) :
    step = .key "additionalProperties" ∧ OpenAt s p ∧ x = .bool false := by
  by_cases ho : OpenAt s p
  · obtain ⟨ms, hopen, hms, hstrict⟩ := ho.at?_eq
    obtain rfl : v = .object ms := Option.some.inj (hv.symm.trans hms)
    obtain rfl : w = .object (strictObject ms) := Option.some.inj (hw.symm.trans hstrict)
    cases step with
    | index i => cases hx
    | key k =>
      have hlookup : (strictObject ms).lookup k = some x := hx
      have habsent : ms.lookup k = none := hnone
      rw [lookup_strictObject, habsent] at hlookup
      split at hlookup
      · next hk =>
        cases hlookup
        exact ⟨hk.2 ▸ rfl, ho, rfl⟩
      · cases hlookup
  · obtain ⟨w', hw', hsame⟩ := at?_strict_of_not_openAt ho hv
    obtain rfl : w' = w := Option.some.inj (hw'.symm.trans hw)
    rw [hsame.part?_eq_none hnone] at hx
    cases hx

/-- The places of the strict document that are not in the document. -/
theorem at?_strict_of_new {w : Json} :
    s.at? p = none ∧ (strict s).at? p = some w ↔
      ∃ q, p = q.child (.key "additionalProperties") ∧ OpenAt s q ∧ w = .bool false := by
  constructor
  · rintro ⟨hnone, hw⟩
    induction p using List.reverseRecOn generalizing w with
    | nil => cases hnone
    | append_singleton q step ih =>
      have hnone : s.at? (Field.child q step) = none := hnone
      have hw : (strict s).at? (Field.child q step) = some w := hw
      rw [Json.at?_child] at hnone hw
      obtain ⟨w', hw', hx⟩ := Option.bind_eq_some_iff.mp hw
      cases hv : s.at? q with
      | none =>
        -- What is new above the place is `false`, and nothing stands below that.
        obtain ⟨-, -, -, rfl⟩ := ih hv hw'
        cases step <;> cases hx
      | some v =>
        rw [hv, Option.bind_some] at hnone
        obtain ⟨rfl, ho, rfl⟩ := part?_of_new hv hw' hnone hx
        exact ⟨q, rfl, ho, rfl⟩
  · rintro ⟨q, rfl, ho, rfl⟩
    obtain ⟨ms, hopen, hms, hstrict⟩ := ho.at?_eq
    rw [Json.at?_child, Json.at?_child, hms, hstrict]
    exact ⟨(isOpen_eq_true.mp hopen).2, lookup_strictObject_of_open hopen⟩

section Twice

theorem isOpen_strictMembers (ms : Entries Json) : isOpen (strictMembers ms) = isOpen ms := by
  have hplain (v : Json) : strictMember "type" v = v :=
    strictMember_of_plain v (by decide) (by decide) (by decide)
  have htype : (strictMembers ms).lookup "type" = ms.lookup "type" := by
    rw [lookup_strictMembers]
    cases ms.lookup "type" with
    | none => rfl
    | some v => rw [Option.map_some, hplain]
  have hhas (k : String) : ((strictMembers ms).lookup k).isSome = (ms.lookup k).isSome := by
    rw [lookup_strictMembers, Option.isSome_map]
  have hrest (k : String) : ((strictMembers ms).lookup k).isNone = (ms.lookup k).isNone := by
    rw [lookup_strictMembers, Option.isNone_map]
  simp only [isOpen, isObjectSchema, htype, hhas, hrest]

/-- A schema that was made strict is not open. -/
theorem isOpen_strictObject (ms : Entries Json) : isOpen (strictObject ms) = false := by
  cases ho : isOpen ms with
  | true => rw [isOpen, lookup_strictObject_of_open ho, Option.isNone_some, Bool.and_false]
  | false => rw [strictObject, ho, if_neg Bool.false_ne_true, isOpen_strictMembers, ho]

theorem strictObject_strictObject {ms : Entries Json}
    (h : ∀ e ∈ ms, strictMember e.1 (strictMember e.1 e.2) = strictMember e.1 e.2) :
    strictObject (strictObject ms) = strictObject ms := by
  have hmembers : strictMembers (strictMembers ms) = strictMembers ms := by
    rw [strictMembers_eq_map, strictMembers_eq_map, List.map_map]
    apply List.map_congr_left
    intro e he
    exact congrArg (Prod.mk e.1) (h e he)
  have hclosing : strictMember "additionalProperties" (.bool false) = .bool false := by decide
  calc
    strictObject (strictObject ms) = strictMembers (strictObject ms) := by
      rw [strictObject, isOpen_strictObject, if_neg Bool.false_ne_true]
    _ = strictObject ms := by
      rw [strictObject]
      split
      · rw [strictMembers_eq_map, Entries.map_insert_keyed strictMember, hclosing,
          ← strictMembers_eq_map, hmembers]
      · exact hmembers

/-- To make a document strict a second time changes nothing. -/
theorem strict_strict (v : Json) : strict (strict v) = strict v := by
  -- A member is made strict as a schema, as a map or as a list of schemas, whatever it is.
  have hboth : strict (strict v) = strict v ∧
      ∀ k, strictMember k (strictMember k v) = strictMember k v := by
    induction v using Json.induction with
    | null | bool | number | string =>
      refine ⟨rfl, fun k => ?_⟩
      unfold strictMember
      cases schemaKeywords.contains k <;> rfl
    | array vs ih =>
      have hitems : (vs.map strict).map strict = vs.map strict := by
        rw [List.map_map]
        exact List.map_congr_left fun v hv => (ih v hv).1
      have harray : strict (strict (.array vs)) = strict (.array vs) := by
        simp only [strict, strictItems_eq_map, hitems]
      refine ⟨harray, fun k => ?_⟩
      by_cases hname : k ∈ schemaKeywords
      · simp only [strictMember_single hname, harray]
      · by_cases hlist : k ∈ listKeywords
        · simp only [strictMember_listed hlist, hitems]
        · have hplain : ¬HoldsSchemas k (.array vs) := not_or.mpr ⟨hname, hlist⟩
          simp only [strictMember_of_not_holds hplain]
    | object ms ih =>
      have hchildren : strictChildren (strictChildren ms) = strictChildren ms := by
        rw [strictChildren_eq_map, strictChildren_eq_map, List.map_map]
        apply List.map_congr_left
        intro e he
        exact congrArg (Prod.mk e.1) (ih e he).1
      have hobject : strict (strict (.object ms)) = strict (.object ms) := by
        rw [strict_object, strict_object, strictObject_strictObject fun e he => (ih e he).2 e.1]
      refine ⟨hobject, fun k => ?_⟩
      by_cases hname : k ∈ schemaKeywords
      · simp only [strictMember_single hname, hobject]
      · by_cases hmap : k ∈ mapKeywords
        · simp only [strictMember_named hmap, hchildren]
        · have hplain : ¬HoldsSchemas k (.object ms) := not_or.mpr ⟨hname, hmap⟩
          simp only [strictMember_of_not_holds hplain]
  exact hboth.1

end Twice

/-- Strict documents differ from what they were made of by the members that close the object schemas
found open, and by nothing else: everywhere else the node is the same, and members that are not
searched are kept whole. To make a document strict a second time changes nothing. -/
theorem strict_closes_open (s : Json) :
    (∀ p w, s.at? p = none ∧ (strict s).at? p = some w ↔
      ∃ q, p = q.child (.key "additionalProperties") ∧ OpenAt s q ∧ w = .bool false) ∧
    (∀ p v, OpenAt s p → s.at? p = some v → ∃ w, (strict s).at? p = some w ∧ ClosedBy v w) ∧
    (∀ p v, ¬OpenAt s p → s.at? p = some v → ∃ w, (strict s).at? p = some w ∧ v.SameNode w) ∧
    (∀ q ms name u, Reached s q (.object ms) → ms.lookup name = some u → ¬HoldsSchemas name u →
      (strict s).at? (q.child (.key name)) = some u) ∧
    strict (strict s) = strict s := by
  refine ⟨fun p w => at?_strict_of_new, fun p v ho hv => at?_strict_of_openAt ho hv,
    fun p v ho hv => at?_strict_of_not_openAt ho hv, ?_, strict_strict s⟩
  intro q ms name u h hu hplain
  rw [(h.at?_member hu).2, strictMember_of_not_holds hplain]

/-- A schema with a constant that reads like a schema and with properties that are named like
keywords. -/
def keywordsAsNames : Json :=
  .object [("const", .object [("properties", .object [])]),
    ("properties", .object [("properties", .object [("type", .string "object")]),
      ("type", .object [("items", .object [])])])]

theorem strict_closes_open_keywordsAsNames :
    OpenAt keywordsAsNames [] ∧ OpenAt keywordsAsNames [.key "properties", .key "properties"] ∧
      (strict keywordsAsNames).at? [.key "additionalProperties"] = some (.bool false) ∧
      (strict keywordsAsNames).at? [.key "properties", .key "properties",
        .key "additionalProperties"] = some (.bool false) ∧
      (strict keywordsAsNames).at? [.key "const"] =
        some (.object [("properties", .object [])]) ∧
      strict (strict keywordsAsNames) = strict keywordsAsNames := by
  have hroot : OpenAt keywordsAsNames [] := ⟨_, .root, by decide, by decide⟩
  have hnamed : OpenAt keywordsAsNames [.key "properties", .key "properties"] :=
    ⟨_, Reached.named .root (by decide) rfl rfl, by decide, by decide⟩
  obtain ⟨hnew, -, -, hdata, htwice⟩ := strict_closes_open keywordsAsNames
  refine ⟨hroot, hnamed, ((hnew _ _).mpr ⟨_, rfl, hroot, rfl⟩).2,
    ((hnew _ _).mpr ⟨_, rfl, hnamed, rfl⟩).2, ?_, htwice⟩
  exact hdata [] _ "const" _ .root rfl (by simp [HoldsSchemas])

end Schema
end Catalog
