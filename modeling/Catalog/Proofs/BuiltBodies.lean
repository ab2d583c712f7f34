import Catalog.Proofs.Bodies

/-! Bodies whose fields hold values of their types. All that can still be wrong with such a body is
what the constructors look for. Decoding makes some of their checks on the way, but these are the
ones that the constructors make first, so the errors are theirs. -/

namespace Catalog

/-- The violation as it is seen from outside the field that holds what was checked. -/
def Violation.inside (name : String) (v : Violation) : Violation :=
  ⟨.ofKey name ++ v.field, v.reason⟩

theorem Identifier.new_eq_error {database object : String} {v : Violation} :
    new database object = .error v ↔ database = "" ∧ v = ⟨.ofKey "database_name", .empty⟩ ∨
      database ≠ "" ∧ object = "" ∧ v = ⟨.ofKey "object_name", .empty⟩ := by
  unfold new
  by_cases hd : database = ""
  · simp [hd, eq_comm]
  · by_cases ho : object = "" <;> simp [hd, ho, eq_comm]

/-- Seen from outside, the place of what is wrong with a name is written behind the field. -/
theorem Identifier.text_inside {database object : String} {v : Violation}
    (h : new database object = .error v) {name : String} (hname : name ≠ "") :
    (v.inside name).field.text = name ++ "." ++ v.field.text := by
  rcases new_eq_error.mp h with ⟨-, rfl⟩ | ⟨-, -, rfl⟩ <;>
    simp [Violation.inside, Field.ofKey, Field.text, Field.extend, hname]

theorem CreateDatabase.new_of_breach {rules : NamingRules} {name : String} {r : Reason}
    (h : rules.breach? name = some r) (properties : KeyMap String) :
    new rules name properties = .error ⟨.ofKey "name", r⟩ := by
  unfold new
  split
  · next b hb =>
    cases h.symm.trans hb
    rfl
  · next hn => cases h.symm.trans hn

theorem AlterDatabase.new_of_emptyRemoval {removals : List String} {i : Nat}
    (h : emptyRemoval? removals = some i) (updates : KeyMap String) :
    new removals updates = .error ⟨removalField i, .empty⟩ :=
  (Verdict.emptyRemoval (emptyRemoval?_eq_some_iff.mp h)).new_eq

namespace RenameTable

/-- The renaming between two tables by their names. The source is made before the destination, and
what is wrong with a name is blamed inside its field. -/
def ofNames (sourceDatabase sourceObject database object : String) :
    Except Violation RenameTable := do
  let source ← (Identifier.new sourceDatabase sourceObject).mapError (.inside "source")
  let destination ← (Identifier.new database object).mapError (.inside "destination")
  new source destination

theorem ofNames_of_identifiers (source destination : Identifier) :
    ofNames source.database source.object destination.database destination.object =
      new source destination := by
  simp only [ofNames, Identifier.new_eq_ok.mpr ⟨rfl, rfl⟩]
  rfl

end RenameTable

namespace Scope
variable {s : Scope} {name : String}

theorem value_of_once (ho : s.Once name) :
    s.value name = (s.members.lookup name).elim (.error ⟨s.field name, .missing⟩) .ok := by
  cases hv : s.members.lookup name with
  | some v => exact value_eq_ok.mpr ⟨ho, hv⟩
  | none =>
    have hany : (s.repeats.any fun r => r.place.text = s.place.text && r.key = name) = false := by
      simpa [Once] using ho
    simp only [value, hany, hv, Bool.false_eq_true, ↓reduceIte, Option.elim_none]

theorem Unrepeated.once (h : s.Unrepeated s.place) (name : String) : s.Once name :=
  fun r hr hp => absurd hp (h r hr)

/-- The members of a field that has no others than those of an identifier are read one after the
other, and only then made an identifier. -/
theorem identifier_of_pair (ho : s.Once name) (hu : s.Unrepeated (s.field name)) {x y : Json}
    (hv : s.members.lookup name =
      some (.object [("database_name", x), ("object_name", y)])) :
    s.identifier name = (do
      let database ← asText ((s.field name).child (.key "database_name")) x
      let object ← asText ((s.field name).child (.key "object_name")) y
      (Identifier.new database object).mapError fun v => ⟨s.field name ++ v.field, v.reason⟩) := by
  let inner : Scope := ⟨s.field name, [("database_name", x), ("object_name", y)], s.repeats⟩
  have hinner : inner.Unrepeated inner.place := hu
  have hdatabase : inner.text "database_name" =
      asText ((s.field name).child (.key "database_name")) x := by
    rw [text, value_of_once (hinner.once _)]
    rfl
  have hobject : inner.text "object_name" =
      asText ((s.field name).child (.key "object_name")) y := by
    rw [text, value_of_once (hinner.once _)]
    rfl
  have hknown : (Entries.keys [("database_name", x), ("object_name", y)]).find?
      (fun k => !identifierFields.contains k) = none :=
    find_unknown_eq_none.mpr (by simp [Entries.keys])
  simp only [identifier, value_eq_ok.mpr ⟨ho, hv⟩, hknown, bind, Except.bind]
  rw [hdatabase]
  cases asText ((s.field name).child (.key "database_name")) x with
  | error v => rfl
  | ok database =>
    simp only
    rw [hobject]
    cases asText ((s.field name).child (.key "object_name")) y with
    | error v => rfl
    | ok object => cases h : Identifier.new database object <;> simp only [h] <;> rfl

theorem identifier_of_names (ho : s.Once name) (hu : s.Unrepeated (s.field name))
    {database object : String} (hv : s.members.lookup name =
      some (.object [("database_name", .string database), ("object_name", .string object)])) :
    s.identifier name =
      (Identifier.new database object).mapError fun v => ⟨s.field name ++ v.field, v.reason⟩ :=
  identifier_of_pair ho hu hv

end Scope

namespace Request
variable {rules : NamingRules} {v : Json}

/-- A body with a name and a map of texts is decided by the constructor. -/
theorem ofValue_createDatabase {name : String} {properties : KeyMap String}
    (hv : v.collapse = .object [("name", .string name), ("properties", .ofTexts properties)]) :
    ofValue rules v =
      ((CreateDatabase.new rules name properties).map .create).mapError .violation := by
  have hs := settled_of_collapse hv
  have hname : Scope.text ⟨[], _, []⟩ "name" = .ok name := hs.text_eq_ok.mpr (by simp)
  have hproperties : Scope.textMap ⟨[], _, []⟩ "properties" = .ok properties :=
    hs.textMap_eq_ok.mpr (by simp [Entries.lookup_cons])
  rw [ofValue, ofScanned_eq_ofScope (k := .createDatabase) hv rfl]
  simp only [Json.Scanned.ofValue, ofScope, hname, hproperties, bind, Except.bind,
    NamingRules.check]
  cases hb : rules.breach? name with
  | some r =>
    rw [CreateDatabase.new_of_breach hb]
    rfl
  | none => cases CreateDatabase.new rules name properties <;> rfl

/-- A body with a list and a map of texts is decided by the constructor. -/
theorem ofValue_alterDatabase {removals : List String} {updates : KeyMap String}
    (hv : v.collapse = .object [("removals", .array (removals.map .string)),
      ("updates", .ofTexts updates)]) :
    ofValue rules v = ((AlterDatabase.new removals updates).map .alter).mapError .violation := by
  have hs := settled_of_collapse hv
  have hl : Scope.textList ⟨[], _, []⟩ "removals" = .ok removals :=
    hs.textList_eq_ok.mpr (by simp)
  have hu : Scope.textMap ⟨[], _, []⟩ "updates" = .ok updates :=
    hs.textMap_eq_ok.mpr (by simp [Entries.lookup_cons])
  rw [ofValue, ofScanned_eq_ofScope (k := .alterDatabase) hv rfl]
  simp only [Json.Scanned.ofValue, ofScope, hl, hu, bind, Except.bind]
  cases he : AlterDatabase.emptyRemoval? removals with
  | some i =>
    rw [AlterDatabase.new_of_emptyRemoval he]
    rfl
  | none => cases AlterDatabase.new removals updates <;> rfl

/-- A body with the names of two tables is decided by the constructors of their identifiers and of
the renaming. -/
theorem ofValue_renameTable {sourceDatabase sourceObject database object : String}
    (hv : v.collapse = .object [
      ("destination", .object [("database_name", .string database), ("object_name", .string object)]),
      ("source", .object [("database_name", .string sourceDatabase),
        ("object_name", .string sourceObject)])]) :
    ofValue rules v = ((RenameTable.ofNames sourceDatabase sourceObject database object).map
      .rename).mapError .violation := by
  have hs := settled_of_collapse hv
  have hsource : Scope.identifier ⟨[], _, []⟩ "source" =
      (Identifier.new sourceDatabase sourceObject).mapError (.inside "source") :=
    Scope.identifier_of_names (hs.once _) (hs.unrepeated _) (by simp [Entries.lookup_cons])
  have hdestination : Scope.identifier ⟨[], _, []⟩ "destination" =
      (Identifier.new database object).mapError (.inside "destination") :=
    Scope.identifier_of_names (hs.once _) (hs.unrepeated _) (by simp)
  rw [ofValue, ofScanned_eq_ofScope (k := .renameTable) hv rfl]
  simp only [Json.Scanned.ofValue, ofScope, hsource, hdestination, RenameTable.ofNames, bind,
    Except.bind]
  cases (Identifier.new sourceDatabase sourceObject).mapError (Violation.inside "source") with
  | error e => rfl
  | ok source =>
    cases (Identifier.new database object).mapError (Violation.inside "destination") with
    | error e => rfl
    | ok destination =>
      simp only
      cases RenameTable.new source destination <;> rfl

end Request
end Catalog
