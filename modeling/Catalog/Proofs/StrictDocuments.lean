import Catalog.Proofs.ContractTargets
import Catalog.Schema.Strict

/-! Strict documents member by member. Every member is kept under its name, with its schemas made
strict in turn, and the one member that may be new closes the object schema that holds it. -/

namespace Catalog

namespace Schema

/-- What a member of a schema becomes. -/
def strictMember (k : String) (v : Json) : Json :=
  if schemaKeywords.contains k then strict v
  else match v with
    | .object children => if mapKeywords.contains k then .object (strictChildren children) else v
    | .array children => if listKeywords.contains k then .array (strictItems children) else v
    | v => v

theorem strictMembers_eq_map (ms : Entries Json) :
    strictMembers ms = ms.map fun e => (e.1, strictMember e.1 e.2) := by
  induction ms with
  | nil => rfl
  | cons e ms ih =>
    obtain ⟨k, v⟩ := e
    cases v <;> simp only [strictMembers, strictMember, ih, List.map_cons]

theorem lookup_strictMembers (ms : Entries Json) (k : String) :
    (strictMembers ms).lookup k = (ms.lookup k).map (strictMember k) := by
  rw [strictMembers_eq_map, Entries.lookup_map_keyed]

theorem keys_strictMembers (ms : Entries Json) :
    Entries.keys (strictMembers ms) = Entries.keys ms := by
  rw [strictMembers_eq_map, Entries.keys_map_keyed]

theorem strictChildren_eq_map (ms : Entries Json) :
    strictChildren ms = ms.map fun e => (e.1, strict e.2) := by
  induction ms with
  | nil => rfl
  | cons e ms ih => rw [strictChildren, ih, List.map_cons]

theorem strictItems_eq_map (vs : List Json) : strictItems vs = vs.map strict := by
  induction vs with
  | nil => rfl
  | cons v vs ih => rw [strictItems, ih, List.map_cons]

/-- The members of a strict object schema. -/
def strictObject (ms : Entries Json) : Entries Json :=
  if isOpen ms then Entries.insert "additionalProperties" (.bool false) (strictMembers ms)
  else strictMembers ms

theorem strict_object (ms : Entries Json) : strict (.object ms) = .object (strictObject ms) := by
  rw [strict, strictObject]
  split <;> rfl

/-- An open schema is closed, and every other member is there exactly if it was there before. -/
theorem lookup_strictObject (ms : Entries Json) (k : String) :
    (strictObject ms).lookup k =
      if isOpen ms = true ∧ k = "additionalProperties" then some (.bool false)
      else (ms.lookup k).map (strictMember k) := by
  unfold strictObject
  split
  · next ho =>
    rw [Entries.lookup_insert, lookup_strictMembers]
    simp [ho]
  · next ho => simp [ho, lookup_strictMembers]

theorem lookup_strictObject_of_kept {ms : Entries Json} {k : String}
    (h : isOpen ms = true → k ≠ "additionalProperties") :
    (strictObject ms).lookup k = (ms.lookup k).map (strictMember k) := by
  rw [lookup_strictObject, if_neg fun hk => h hk.1 hk.2]

theorem lookup_strictObject_of_ne {ms : Entries Json} {k : String}
    (h : k ≠ "additionalProperties") :
    (strictObject ms).lookup k = (ms.lookup k).map (strictMember k) :=
  lookup_strictObject_of_kept fun _ => h

theorem lookup_strictObject_of_open {ms : Entries Json} (h : isOpen ms = true) :
    (strictObject ms).lookup "additionalProperties" = some (.bool false) := by
  rw [lookup_strictObject, if_pos ⟨h, rfl⟩]

/-- A member under a name that is no keyword for schemas is left as it is. -/
theorem strictMember_of_plain {k : String} (v : Json) (hs : schemaKeywords.contains k = false)
    (hm : mapKeywords.contains k = false) (hl : listKeywords.contains k = false) :
    strictMember k v = v := by
  unfold strictMember
  cases v <;> simp only [hs, hm, hl, Bool.false_eq_true, ↓reduceIte]

theorem isOpen_eq_true {ms : Entries Json} :
    isOpen ms = true ↔
      isObjectSchema ms = true ∧ ms.lookup "additionalProperties" = none := by
  rw [isOpen, Bool.and_eq_true, Option.isNone_iff_eq_none]

theorem lookup_strictMembers_of_open {ms : Entries Json} (h : isOpen ms = true) :
    (strictMembers ms).lookup "additionalProperties" = none := by
  rw [lookup_strictMembers, (isOpen_eq_true.mp h).2, Option.map_none]

theorem shape_strict (v : Json) : (strict v).shape = v.shape := by
  cases v with
  | object ms =>
    rw [strict_object]
    rfl
  | array vs =>
    rw [strict]
    rfl
  | _ => rfl

theorem shape_strictMember (k : String) (v : Json) : (strictMember k v).shape = v.shape := by
  unfold strictMember
  split
  · exact shape_strict v
  · split
    · split <;> rfl
    · split <;> rfl
    · rfl

/-- Which draft a document is written in does not change. -/
theorem ofDocument_strict (d : Json) : Draft.ofDocument (strict d) = Draft.ofDocument d := by
  cases d with
  | object ms =>
    have hplain (v : Json) : strictMember "$schema" v = v :=
      strictMember_of_plain v (by decide) (by decide) (by decide)
    rw [strict_object, Draft.ofDocument, Draft.ofDocument, Draft.ofDocument?, Draft.ofDocument?,
      lookup_strictObject_of_ne (by decide)]
    cases ms.lookup "$schema" with
    | none => rfl
    | some v => rw [Option.map_some, hplain]
  | _ => rfl

end Schema
end Catalog
