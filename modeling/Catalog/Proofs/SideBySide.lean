import Catalog.Proofs.PairedKeywords
import Catalog.Proofs.StrictDocuments

/-! A document and its strict version side by side. A check of the two comes to corresponding
schemas, of which the second is the first or its strict version. -/

namespace Catalog.Schema
variable {draft : Draft}

/-- How a keyword holds schemas. -/
inductive Form where
  | one
  | list
  | named
deriving DecidableEq

/-- The schemas in a member. -/
def Form.schemas : Form → Json → List Json
  | .one, w => [w]
  | .list, .array vs => vs
  | .named, .object ms => ms.map Prod.snd
  | _, _ => []

/-- How the schemas under a keyword are asked: for parts of the value or for the value itself, or so
that refusing counts. -/
inductive Turn where
  | part
  | beside
  | opposite
deriving DecidableEq

/-- What matters under the keyword, with a view of the keywords around it. -/
def Turn.view (around : View) : Turn → View
  | .part => around.part
  | .beside => around
  | .opposite => around.opposite

/-- A keyword under which schemas stand. -/
structure Applicator where
  key : String
  form : Form
  turn : Turn
deriving DecidableEq

/-- The applicators of either draft. -/
def sharedApplicators : List Applicator :=
  [⟨"properties", .named, .part⟩, ⟨"patternProperties", .named, .part⟩,
    ⟨"additionalProperties", .one, .part⟩, ⟨"propertyNames", .one, .part⟩, ⟨"items", .one, .part⟩,
    ⟨"contains", .one, .part⟩, ⟨"allOf", .list, .beside⟩, ⟨"anyOf", .list, .beside⟩,
    ⟨"oneOf", .list, .beside⟩, ⟨"oneOf", .list, .opposite⟩, ⟨"not", .one, .opposite⟩,
    ⟨"if", .one, .beside⟩, ⟨"if", .one, .opposite⟩, ⟨"then", .one, .beside⟩,
    ⟨"else", .one, .beside⟩]

def applicators (draft : Draft) : List Applicator :=
  sharedApplicators ++
  match draft with
  | .draft2020 => [⟨"prefixItems", .list, .part⟩, ⟨"contains", .one, .opposite⟩,
      ⟨"dependentSchemas", .named, .beside⟩, ⟨"unevaluatedItems", .one, .part⟩,
      ⟨"unevaluatedProperties", .one, .part⟩]
  | .draft7 => [⟨"items", .list, .part⟩, ⟨"additionalItems", .one, .part⟩,
      ⟨"dependencies", .named, .beside⟩]

/-- There is a keyword that looks at what the others evaluate. -/
def looks (draft : Draft) (ms : Entries Json) : Bool :=
  draft = .draft2020 &&
    ((ms.lookup "unevaluatedItems").isSome || (ms.lookup "unevaluatedProperties").isSome)

/-- What matters around the keywords of a schema. -/
def around (draft : Draft) (w : View) (ms : Entries Json) : View :=
  w.beside (looks draft ms)

/-- Keywords that work with others serve them, if they are there. The schema for one outcome waits
for a condition. A condition is excluded for the one outcome and kept for the other, and where it
matters what is evaluated, it is kept for what it evaluates and excluded for the other outcome. Items
are excluded if there are to be only so many. -/
def Applicator.serves (w : View) (ms : Entries Json) (a : Applicator) : Bool :=
  match a.key, a.turn with
  | "then", _ => (ms.lookup "if").isSome
  | "else", _ => (ms.lookup "if").isSome
  | "if", .opposite => (ms.lookup "then").isSome || w.watched && (ms.lookup "else").isSome
  | "if", _ => (ms.lookup "else").isSome || (ms.lookup "then").isNone || w.watched
  | "contains", .opposite => (ms.lookup "maxContains").isSome
  | "additionalItems", _ => (ms.lookup "items").any (·.shape = .array)
  | _, _ => true

/-- The keyword counts: no reference stands for the whole schema, and there is what it serves. -/
def heeded (draft : Draft) (w : View) (ms : Entries Json) (a : Applicator) : Bool :=
  (draft = .draft2020 || (ms.lookup "$ref").isNone) && a.serves w ms

theorem heeded_of_whole {w : View} {ms : Entries Json} {a : Applicator}
    (hwhole : draft = .draft2020 ∨ ms.lookup "$ref" = none) (hserves : a.serves w ms = true) :
    heeded draft w ms a = true := by
  rw [heeded, hserves, Bool.and_true]
  rcases hwhole with h | h <;> simp [h]

/-- The schema refers to what the pointer leads to. -/
def Refers (draft : Draft) (ms : Entries Json) (p : String) : Prop :=
  ms.lookup "$ref" = some (.string p) ∨
    draft = .draft2020 ∧ ms.lookup "$dynamicRef" = some (.string p)

/-- A check of the documents `D` and `D'` side by side comes to `T` in the one and to `T'` in the
other, with a view of what matters of them. At the root it is that all that `D'` accepts is accepted
by `D`. -/
inductive Counterpart (draft : Draft) (D D' : Json) : (w : View) → (T T' : Json) → Prop where
  | root : Counterpart draft D D' ⟨true, false⟩ D D'
  | part {w : View} {ms ms' : Entries Json} {a : Applicator} {u u' T T' : Json}
    (h : Counterpart draft D D' w (.object ms) (.object ms')) (ha : a ∈ applicators draft)
    (hheeded : heeded draft (around draft w ms) ms a = true) (hu : ms.lookup a.key = some u)
    (hu' : ms'.lookup a.key = some u')
    (hT : (T, T') ∈ (a.form.schemas u).zip (a.form.schemas u')) :
    Counterpart draft D D' (a.turn.view (around draft w ms)) T T'
  | reference {w : View} {ms ms' : Entries Json} {p : String} {T T' : Json}
    (h : Counterpart draft D D' w (.object ms) (.object ms')) (hr : Refers draft ms p)
    (hr' : Refers draft ms' p) (hT : Pointer.resolve? D p = some T)
    (hT' : Pointer.resolve? D' p = some T') : Counterpart draft D D' (around draft w ms) T T'

/-- Below every schema stand its parts, so a statement holds of all schemas if it holds wherever it
holds of the parts. -/
theorem induction_on_parts {P : Json → Prop}
    (h : ∀ T, (∀ ms, T = .object ms → ∀ e ∈ ms, ∀ form : Form, ∀ U ∈ form.schemas e.2, P U) → P T)
    (T : Json) : P T := by
  -- The parts of a member may stand in it one level deeper, so all of them are kept in view.
  have hall : ∀ form : Form, ∀ U ∈ form.schemas T, P U := by
    induction T using Json.induction with
    | null | bool | number | string =>
      intro form U hU
      cases form with
      | one =>
        rw [Form.schemas, List.mem_singleton] at hU
        subst hU
        exact h _ fun ms hms => by cases hms
      | list | named => simp [Form.schemas] at hU
    | array vs ih =>
      intro form U hU
      cases form with
      | one =>
        rw [Form.schemas, List.mem_singleton] at hU
        subst hU
        exact h _ fun ms hms => by cases hms
      | list => exact ih U hU .one U (by simp [Form.schemas])
      | named => simp [Form.schemas] at hU
    | object ms ih =>
      intro form U hU
      cases form with
      | one =>
        rw [Form.schemas, List.mem_singleton] at hU
        subst hU
        refine h _ fun ms' hms => ?_
        cases hms
        exact ih
      | list => simp [Form.schemas] at hU
      | named =>
        obtain ⟨e, he, rfl⟩ := List.mem_map.mp hU
        exact ih e he .one e.2 (by simp [Form.schemas])
  exact hall .one T (by simp [Form.schemas])

/-- What may stand in the place of a schema: itself or its strict version. -/
def InPlace (T T' : Json) : Prop :=
  T' = T ∨ T' = strict T

/-- Either of the two ways in which schemas are carried over to the strict document. -/
def Placing (g : Json → Json) : Prop :=
  g = id ∨ g = strict

theorem Placing.inPlace {g : Json → Json} (h : Placing g) (T : Json) : InPlace T (g T) := by
  rcases h with rfl | rfl
  · exact Or.inl rfl
  · exact Or.inr rfl

section Members
variable {ms ms' : Entries Json} {key : String}

/-- Members are kept, or become what they are in a strict document. -/
theorem InPlace.lookup (h : InPlace (.object ms) (.object ms'))
    (hk : isOpen ms = true → key ≠ "additionalProperties") :
    ms'.lookup key = ms.lookup key ∨ ms'.lookup key = (ms.lookup key).map (strictMember key) := by
  rcases h with h | h
  · rw [Json.object.injEq] at h
    exact Or.inl (h ▸ rfl)
  · rw [strict_object, Json.object.injEq] at h
    rw [h]
    exact Or.inr (lookup_strictObject_of_kept hk)

theorem InPlace.lookup_eq_none (h : InPlace (.object ms) (.object ms'))
    (hk : isOpen ms = true → key ≠ "additionalProperties") :
    ms'.lookup key = none ↔ ms.lookup key = none := by
  rcases h.lookup hk with h | h <;> simp [h]

theorem InPlace.lookup_one (h : InPlace (.object ms) (.object ms'))
    (hk : isOpen ms = true → key ≠ "additionalProperties") (hm : mapKeywords.contains key = false)
    (hl : listKeywords.contains key = false) {w : Json} (hw : ms.lookup key = some w) :
    ∃ g, Placing g ∧ ms'.lookup key = some (g w) := by
  rcases h.lookup hk with h | h
  · exact ⟨id, Or.inl rfl, h.trans hw⟩
  · rw [hw, Option.map_some] at h
    by_cases hs : schemaKeywords.contains key = true
    · refine ⟨strict, Or.inr rfl, ?_⟩
      unfold strictMember at h
      rw [h, if_pos hs]
    · refine ⟨id, Or.inl rfl, ?_⟩
      rw [h, strictMember_of_plain w (by simpa using hs) hm hl, id]

theorem InPlace.lookup_list (h : InPlace (.object ms) (.object ms'))
    (hk : isOpen ms = true → key ≠ "additionalProperties") {vs : List Json}
    (hw : ms.lookup key = some (.array vs)) :
    ∃ g, Placing g ∧ ms'.lookup key = some (.array (vs.map g)) := by
  have hstrict : strict (.array vs) = .array (vs.map strict) := by rw [strict, strictItems_eq_map]
  rcases h.lookup hk with h | h
  · exact ⟨id, Or.inl rfl, by rw [h, hw, List.map_id]⟩
  · rw [hw, Option.map_some, strictMember, hstrict, strictItems_eq_map] at h
    by_cases hs : schemaKeywords.contains key = true
    · exact ⟨strict, Or.inr rfl, by rw [h, if_pos hs]⟩
    · rw [if_neg hs] at h
      by_cases hl : listKeywords.contains key = true
      · exact ⟨strict, Or.inr rfl, by rw [h, if_pos hl]⟩
      · exact ⟨id, Or.inl rfl, by rw [h, if_neg hl, List.map_id]⟩

theorem InPlace.lookup_named (h : InPlace (.object ms) (.object ms'))
    (hk : isOpen ms = true → key ≠ "additionalProperties")
    (hs : schemaKeywords.contains key = false)
    {children : Entries Json} (hw : ms.lookup key = some (.object children)) :
    ∃ g, Placing g ∧ ms'.lookup key = some (.object (children.map fun e => (e.1, g e.2))) := by
  rcases h.lookup hk with h | h
  · exact ⟨id, Or.inl rfl, by rw [h, hw]; simp⟩
  · rw [hw, Option.map_some, strictMember, if_neg (Bool.eq_false_iff.mp hs),
      strictChildren_eq_map] at h
    by_cases hm : mapKeywords.contains key = true
    · exact ⟨strict, Or.inr rfl, by rw [h, if_pos hm]⟩
    · exact ⟨id, Or.inl rfl, by rw [h, if_neg hm]; simp⟩

/-- A keyword that holds no schemas says the same. -/
theorem InPlace.plain (h : InPlace (.object ms) (.object ms'))
    (hk : isOpen ms = true → key ≠ "additionalProperties")
    (hs : schemaKeywords.contains key = false)
    (hm : mapKeywords.contains key = false) (hl : listKeywords.contains key = false) {α : Type}
    {read : Json → Option α} {x x' : Option α} (hx : Reads ms key read x)
    (hx' : Reads ms' key read x') : x' = x := by
  have hkept : ms'.lookup key = ms.lookup key := by
    rcases h.lookup hk with h | h
    · exact h
    · rw [h]
      cases ms.lookup key with
      | none => rfl
      | some w => rw [Option.map_some, strictMember_of_plain w hs hm hl]
  rw [Reads, hkept, hx] at hx'
  cases x <;> cases x' <;> simp_all

end Members

end Catalog.Schema
