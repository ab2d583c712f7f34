import Catalog.Proofs.RegistryRuns
import Catalog.Proofs.StrictPlaces

/-! The subschemas of strict documents. Some keywords that hold schemas are passed by when object
schemas are looked for, so what stands below these is compiled as it is; all other object schemas are
closed. -/

namespace Catalog

namespace Schema

/-- Keywords that hold schemas: one schema, schemas by name, or a list of schemas. -/
structure Holders where
  single : List String
  named : List String
  listed : List String

namespace Holders

/-- The keywords of the draft of 2020. -/
def draft2020 : Holders :=
  ⟨["additionalProperties", "items", "contains", "not", "if", "then", "else"],
    ["properties", "patternProperties", "dependentSchemas", "$defs"],
    ["prefixItems", "allOf", "anyOf", "oneOf"]⟩

/-- Those below which object schemas are looked for. -/
def searched : Holders :=
  ⟨["additionalProperties", "items", "not"], ["properties", "$defs"],
    ["prefixItems", "allOf", "anyOf", "oneOf"]⟩

/-- Those that are passed by. -/
def passedBy : Holders :=
  ⟨["contains", "if", "then", "else"], ["patternProperties", "dependentSchemas"], []⟩

end Holders

/-- In the schema `v`, the schema `w` stands at `r` under one of the keywords. -/
inductive Part (h : Holders) : Json → Field → Json → Prop where
  | single {ms : Entries Json} {name : String} {w : Json} (hname : name ∈ h.single)
    (hw : ms.lookup name = some w) : Part h (.object ms) [.key name] w
  | named {ms children : Entries Json} {name k : String} {w : Json} (hname : name ∈ h.named)
    (hchildren : ms.lookup name = some (.object children)) (hw : children.lookup k = some w) :
    Part h (.object ms) [.key name, .key k] w
  | listed {ms : Entries Json} {name : String} {vs : List Json} {i : Nat} {w : Json}
    (hname : name ∈ h.listed) (hvs : ms.lookup name = some (.array vs)) (hw : vs[i]? = some w) :
    Part h (.object ms) [.key name, .index i] w

/-- The schemas that stand in the document `s` under the keywords, at any depth, with their places;
the document itself is one of them. -/
inductive Subschema (h : Holders) (s : Json) : Field → Json → Prop where
  | root : Subschema h s [] s
  | part {p r : Field} {v w : Json} (hv : Subschema h s p v) (hw : Part h v r w) :
    Subschema h s (p ++ r) w

/-- The object schemas of the document, at any depth, say something about further members. -/
def Closed (s : Json) : Prop :=
  ∀ p ms, Subschema .draft2020 s p (.object ms) → isObjectSchema ms = true →
    ms.lookup "additionalProperties" ≠ none

/-- The schema stands in the document `s` below a keyword that is passed by. -/
inductive Unsearched (s : Json) : Field → Json → Prop where
  | below {p r q : Field} {u v w : Json} (hu : Subschema .searched s p u)
    (hv : Part .passedBy u r v) (hw : Subschema .draft2020 v q w) : Unsearched s (p ++ r ++ q) w

variable {s v w : Json} {p r : Field} {ms : Entries Json}

theorem Part.mono {h k : Holders} (hsingle : h.single ⊆ k.single) (hnamed : h.named ⊆ k.named)
    (hlisted : h.listed ⊆ k.listed) (hw : Part h v r w) : Part k v r w := by
  cases hw with
  | single hname hw => exact .single (hsingle hname) hw
  | named hname hchildren hw => exact .named (hnamed hname) hchildren hw
  | listed hname hvs hw => exact .listed (hlisted hname) hvs hw

/-- What stands under the keywords hangs on their members only. -/
theorem Part.congr {h : Holders} {ns : Entries Json}
    (hlookup : ∀ name, name ∈ h.single ∨ name ∈ h.named ∨ name ∈ h.listed →
      ns.lookup name = ms.lookup name) (hw : Part h (.object ms) r w) :
    Part h (.object ns) r w := by
  cases hw with
  | single hname hw => exact .single hname ((hlookup _ (.inl hname)).trans hw)
  | named hname hchildren hw =>
    exact .named hname ((hlookup _ (.inr (.inl hname))).trans hchildren) hw
  | listed hname hvs hw => exact .listed hname ((hlookup _ (.inr (.inr hname))).trans hvs) hw

theorem Part.of_searched (hw : Part .searched v r w) : Part .draft2020 v r w :=
  hw.mono (by decide) (by decide) (by decide)

theorem Part.of_passedBy (hw : Part .passedBy v r w) : Part .draft2020 v r w :=
  hw.mono (by decide) (by decide) (by decide)

/-- A keyword that holds schemas is searched or passed by. -/
theorem Part.searched_or_passedBy (hw : Part .draft2020 v r w) :
    Part .searched v r w ∨ Part .passedBy v r w := by
  have hsingle : ∀ name ∈ Holders.draft2020.single,
      name ∈ Holders.searched.single ∨ name ∈ Holders.passedBy.single := by decide
  have hnamed : ∀ name ∈ Holders.draft2020.named,
      name ∈ Holders.searched.named ∨ name ∈ Holders.passedBy.named := by decide
  cases hw with
  | single hname hw => exact (hsingle _ hname).imp (.single · hw) (.single · hw)
  | named hname hchildren hw =>
    exact (hnamed _ hname).imp (.named · hchildren hw) (.named · hchildren hw)
  | listed hname hvs hw => exact .inl (.listed hname hvs hw)

theorem Subschema.of_searched (h : Subschema .searched s p v) : Subschema .draft2020 s p v := by
  induction h with
  | root => exact .root
  | part _ hw ih => exact ih.part hw.of_searched

theorem Subschema.append {h : Holders} {q : Field} (hv : Subschema h s p v)
    (hw : Subschema h v q w) : Subschema h s (p ++ q) w := by
  induction hw with
  | root => rwa [List.append_nil]
  | part _ hx ih =>
    rw [← List.append_assoc]
    exact ih.part hx

theorem Unsearched.subschema (h : Unsearched s p v) : Subschema .draft2020 s p v := by
  cases h with
  | below hu hv hw => exact (hu.of_searched.part hv.of_passedBy).append hw

/-- Every subschema is found by the search, or the way to it passes a keyword that is passed by. -/
theorem Subschema.searched_or_unsearched (h : Subschema .draft2020 s p v) :
    Subschema .searched s p v ∨ Unsearched s p v := by
  induction h with
  | root => exact .inl .root
  | @part p r u w _ hw ih =>
    rcases ih with hu | hu
    · rcases hw.searched_or_passedBy with hw | hw
      · exact .inl (hu.part hw)
      · have hbelow : Unsearched s (p ++ r ++ []) w := .below hu hw .root
        rw [List.append_nil] at hbelow
        exact .inr hbelow
    · cases hu with
      | @below p' r' q _ x _ hu hv hx =>
        rw [List.append_assoc]
        exact .inr (.below hu hv (hx.part hw))

section Strict

theorem mem_keywords_of_searched {name : String} :
    (name ∈ Holders.searched.single → name ∈ schemaKeywords) ∧
      (name ∈ Holders.searched.named → name ∈ mapKeywords ∧ name ≠ "additionalProperties") ∧
      (name ∈ Holders.searched.listed → name ∈ listKeywords ∧ name ≠ "additionalProperties") := by
  have hsingle : ∀ name ∈ Holders.searched.single, name ∈ schemaKeywords := by decide
  have hnamed : ∀ name ∈ Holders.searched.named,
      name ∈ mapKeywords ∧ name ≠ "additionalProperties" := by decide
  have hlisted : ∀ name ∈ Holders.searched.listed,
      name ∈ listKeywords ∧ name ≠ "additionalProperties" := by decide
  exact ⟨hsingle name, hnamed name, hlisted name⟩

theorem lookup_strictObject_of_passedBy {name : String}
    (h : name ∈ Holders.passedBy.single ∨ name ∈ Holders.passedBy.named ∨
      name ∈ Holders.passedBy.listed) :
    (strictObject ms).lookup name = ms.lookup name := by
  have hplain : ∀ name ∈ Holders.passedBy.single ++ Holders.passedBy.named ++
      Holders.passedBy.listed, name ≠ "additionalProperties" ∧
        schemaKeywords.contains name = false ∧ mapKeywords.contains name = false ∧
          listKeywords.contains name = false := by decide
  obtain ⟨hne, hs, hm, hl⟩ := hplain name (by simpa [or_assoc] using h)
  rw [lookup_strictObject_of_ne hne]
  cases ms.lookup name with
  | none => rfl
  | some v => rw [Option.map_some, strictMember_of_plain v hs hm hl]

/-- What stands in a strict document under a searched keyword is strict in turn, or it is the member
that closes the document. -/
theorem Part.of_strict (h : Part .searched (strict s) r w) :
    (∃ v, Part .searched s r v ∧ w = strict v) ∨ w = .bool false := by
  cases s with
  | object ms =>
    rw [strict_object] at h
    cases h with
    | @single _ name _ hname hw =>
      have hsingle := mem_keywords_of_searched.1 hname
      rw [lookup_strictObject] at hw
      split at hw
      · exact .inr (Option.some.inj hw).symm
      · obtain ⟨v, hv, rfl⟩ := Option.map_eq_some_iff.mp hw
        exact .inl ⟨v, .single hname hv, strictMember_single hsingle v⟩
    | @named _ _ name k _ hname hchildren hw =>
      obtain ⟨hmap, hne⟩ := mem_keywords_of_searched.2.1 hname
      rw [lookup_strictObject_of_ne hne] at hchildren
      obtain ⟨u, hu, hmember⟩ := Option.map_eq_some_iff.mp hchildren
      -- What is a map of schemas in the end was one before.
      have hshape := shape_strictMember name u
      rw [hmember] at hshape
      cases u with
      | object children =>
        rw [strictMember_named hmap, strictChildren_eq_map] at hmember
        cases hmember
        rw [Entries.lookup_map_keyed fun _ => strict] at hw
        obtain ⟨v, hv, rfl⟩ := Option.map_eq_some_iff.mp hw
        exact .inl ⟨v, .named hname hu hv, rfl⟩
      | _ => cases hshape
    | @listed _ name _ i _ hname hvs hw =>
      obtain ⟨hlist, hne⟩ := mem_keywords_of_searched.2.2 hname
      rw [lookup_strictObject_of_ne hne] at hvs
      obtain ⟨u, hu, hmember⟩ := Option.map_eq_some_iff.mp hvs
      have hshape := shape_strictMember name u
      rw [hmember] at hshape
      cases u with
      | array vs =>
        rw [strictMember_listed hlist] at hmember
        cases hmember
        rw [List.getElem?_map] at hw
        obtain ⟨v, hv, rfl⟩ := Option.map_eq_some_iff.mp hw
        exact .inl ⟨v, .listed hname hu hv, rfl⟩
      | _ => cases hshape
  | array vs =>
    rw [strict] at h
    cases h
  | null | bool | number | string => cases h

/-- What a searched keyword holds stands in the strict document too, and is strict there. -/
theorem Part.made_strict (h : Part .searched s r v) : Part .searched (strict s) r (strict v) := by
  cases h with
  | single hname hw =>
    rw [strict_object]
    refine .single hname ?_
    rw [lookup_strictObject_of_lookup hw, strictMember_single (mem_keywords_of_searched.1 hname)]
  | @named _ children _ k _ hname hchildren hw =>
    have hmap := (mem_keywords_of_searched.2.1 hname).1
    have hstrict : (strictChildren children).lookup k = some (strict v) := by
      rw [strictChildren_eq_map, Entries.lookup_map_keyed fun _ => strict, hw, Option.map_some]
    rw [strict_object]
    refine .named hname ?_ hstrict
    rw [lookup_strictObject_of_lookup hchildren, strictMember_named hmap]
  | @listed _ _ vs i _ hname hvs hw =>
    have hlist := (mem_keywords_of_searched.2.2 hname).1
    have hstrict : (vs.map strict)[i]? = some (strict v) := by
      rw [List.getElem?_map, hw, Option.map_some]
    rw [strict_object]
    refine .listed hname ?_ hstrict
    rw [lookup_strictObject_of_lookup hvs, strictMember_listed hlist]

/-- Under a keyword that is passed by, the strict document holds what the document does. -/
theorem part_passedBy_strict : Part .passedBy (strict s) r w ↔ Part .passedBy s r w := by
  cases s with
  | object ms =>
    rw [strict_object]
    exact ⟨Part.congr fun _ h => (lookup_strictObject_of_passedBy h).symm,
      Part.congr fun _ h => lookup_strictObject_of_passedBy h⟩
  | array vs =>
    rw [strict]
    constructor <;> intro h <;> cases h
  | null | bool | number | string => exact Iff.rfl

/-- A search of the strict document finds strict schemas, and the members that close them. -/
theorem Subschema.of_strict (h : Subschema .searched (strict s) p w) :
    (∃ v, Subschema .searched s p v ∧ w = strict v) ∨ w = .bool false := by
  induction h with
  | root => exact .inl ⟨s, .root, rfl⟩
  | part _ hw ih =>
    rcases ih with ⟨v, hv, rfl⟩ | rfl
    · exact hw.of_strict.imp_left fun ⟨x, hx, hwx⟩ => ⟨x, hv.part hx, hwx⟩
    · cases hw

theorem Subschema.made_strict (h : Subschema .searched s p v) :
    Subschema .searched (strict s) p (strict v) := by
  induction h with
  | root => exact .root
  | part _ hw ih => exact ih.part hw.made_strict

/-- What is not searched is the same before and after. -/
theorem unsearched_strict : Unsearched (strict s) p w ↔ Unsearched s p w := by
  constructor
  · rintro ⟨hu, hv, hw⟩
    rcases hu.of_strict with ⟨u, hsearched, rfl⟩ | rfl
    · exact .below hsearched (part_passedBy_strict.mp hv) hw
    · cases hv
  · rintro ⟨hu, hv, hw⟩
    exact .below hu.made_strict (part_passedBy_strict.mpr hv) hw

theorem lookup_ne_none_of_searched (h : Subschema .searched (strict s) p (.object ms))
    (hobject : isObjectSchema ms = true) : ms.lookup "additionalProperties" ≠ none := by
  intro hnone
  rcases h.of_strict with ⟨v, -, hv⟩ | hv
  · cases v with
    | object ns =>
      rw [strict_object] at hv
      cases hv
      have hopen : isOpen (strictObject ns) = true := isOpen_eq_true.mpr ⟨hobject, hnone⟩
      rw [isOpen_strictObject] at hopen
      cases hopen
    | array vs =>
      rw [strict] at hv
      cases hv
    | null | bool | number | string => cases hv
  · cases hv

end Strict

/-- An object schema without any properties that leaves it open which further members there are. -/
def openObject : Json :=
  .object [("properties", .object [])]

end Schema

namespace Registry
open Schema

/-- What a registry in strict mode compiles for a schema is the strict document. It leaves open those
object schemas that the schema leaves open below a keyword that is passed by, and no others; in
particular none to which only searched keywords lead. -/
theorem strict_closes_searched (g : Registry) (hg : g.config.strictMode = true) (k : Kind)
    (s : Json) :
    (g.registerValue k s = match Contract.ofDocument? (strict s) with
      | some c => .ok (g.put k c)
      | none => .error (.notSchema k)) ∧
    ∀ p ms, isObjectSchema ms = true →
      (Subschema .draft2020 (strict s) p (.object ms) ∧ ms.lookup "additionalProperties" = none ↔
        Unsearched s p (.object ms) ∧ ms.lookup "additionalProperties" = none) ∧
      (Subschema .searched (strict s) p (.object ms) →
        ms.lookup "additionalProperties" ≠ none) := by
  refine ⟨?_, fun p ms hobject => ⟨⟨?_, ?_⟩, fun h => lookup_ne_none_of_searched h hobject⟩⟩
  · rw [registerValue, if_pos hg]
    rfl
  · rintro ⟨h, hnone⟩
    rcases h.searched_or_unsearched with h | h
    · exact absurd hnone (lookup_ne_none_of_searched h hobject)
    · exact ⟨unsearched_strict.mp h, hnone⟩
  · rintro ⟨h, hnone⟩
    exact ⟨(unsearched_strict.mpr h).subschema, hnone⟩

/-- A schema with an open object schema for one property and for the properties of a pattern. -/
def halfSearched : Json :=
  .object [("patternProperties", .object [("^", openObject)]),
    ("properties", .object [("a", openObject)])]

theorem strict_closes_searched_half :
    (empty { strictMode := true }).config.strictMode = true ∧
    (∃ h, (empty { strictMode := true }).registerValue .createDatabase halfSearched = .ok h) ∧
    Subschema .draft2020 (strict halfSearched) [.key "patternProperties", .key "^"] openObject ∧
    ∃ ms, Subschema .searched (strict halfSearched) [.key "properties", .key "a"] (.object ms) ∧
      ms.lookup "additionalProperties" ≠ none := by
  obtain ⟨hregistered, hopen⟩ :=
    strict_closes_searched (empty { strictMode := true }) rfl .createDatabase halfSearched
  have hcompiled : (Contract.ofDocument? (strict halfSearched)).isSome = true := by
    decide +kernel
  obtain ⟨c, hc⟩ := Option.isSome_iff_exists.mp hcompiled
  have hpattern : Unsearched halfSearched [.key "patternProperties", .key "^"] openObject :=
    .below .root (.named (by decide : "patternProperties" ∈ Holders.passedBy.named) rfl rfl) .root
  have hproperty : Subschema .searched halfSearched [.key "properties", .key "a"] openObject :=
    .part .root (.named (by decide) rfl rfl)
  refine ⟨rfl, ?_, ((hopen _ _ rfl).1.mpr ⟨hpattern, rfl⟩).1, _, hproperty.made_strict, ?_⟩
  · rw [hregistered, hc]
    exact ⟨_, rfl⟩
  · exact (hopen _ _ rfl).2 hproperty.made_strict

/-- Below each of the keywords that are passed by, a registry in strict mode leaves an object schema
open. -/
theorem strict_leaves_some_open :
    (∀ name ∈ Holders.passedBy.single,
      (∃ h, (empty { strictMode := true }).registerValue .createDatabase
        (.object [(name, openObject)]) = .ok h) ∧
        ¬Closed (strict (.object [(name, openObject)]))) ∧
    ∀ name ∈ Holders.passedBy.named,
      (∃ h, (empty { strictMode := true }).registerValue .createDatabase
        (.object [(name, .object [("^", openObject)])]) = .ok h) ∧
        ¬Closed (strict (.object [(name, .object [("^", openObject)])])) := by
  have hopen {s : Json} {p : Field} (h : Unsearched s p openObject) : ¬Closed (strict s) :=
    fun hclosed => hclosed p _ (unsearched_strict.mpr h).subschema rfl rfl
  have hcompiled {s : Json} (h : (contract? { strictMode := true } s).isSome = true) :
      ∃ h, (empty { strictMode := true }).registerValue .createDatabase s = .ok h := by
    obtain ⟨c, hc⟩ := Option.isSome_iff_exists.mp h
    exact ⟨_, registerValue_eq_ok.mpr ⟨c, hc, rfl⟩⟩
  have hsingle : ∀ name ∈ Holders.passedBy.single,
      (contract? { strictMode := true } (.object [(name, openObject)])).isSome = true := by
    decide +kernel
  have hnamed : ∀ name ∈ Holders.passedBy.named, (contract? { strictMode := true }
      (.object [(name, .object [("^", openObject)])])).isSome = true := by
    decide +kernel
  refine ⟨fun name hname => ⟨hcompiled (hsingle name hname), ?_⟩,
    fun name hname => ⟨hcompiled (hnamed name hname), ?_⟩⟩
  · exact hopen (.below .root (.single hname List.lookup_cons_self) .root)
  · exact hopen (.below .root (.named hname List.lookup_cons_self List.lookup_cons_self) .root)

end Registry
end Catalog
