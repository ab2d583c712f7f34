import Catalog.Proofs.Construction
import Catalog.Proofs.Values
import Catalog.Request.Decode

/-! When a body is read, and as what. Each reader of a part of a body gets the rule for what it
accepts, with what the text of the body repeats; the rules add up to the encoding of requests. -/

namespace Catalog

theorem Kind.ofFields_eq_some {names : List String} {k : Kind} :
    Kind.ofFields? names = some k ↔ names = k.fields := by
  constructor
  · intro h
    have hk := List.find?_some h
    exact (of_decide_eq_true hk).symm
  · rintro rfl
    cases k <;> decide

theorem Kind.classify_eq_ok {v : Json} {k : Kind} :
    Kind.classify v = .ok k ↔ ∃ members, v = .object members ∧ Entries.keys members = k.fields := by
  cases v with
  | object members =>
    simp only [Kind.classify, Json.object.injEq, ← Kind.ofFields_eq_some]
    constructor
    · intro h
      split at h
      · next k' hk =>
        cases h
        exact ⟨members, rfl, hk⟩
      · cases h
    · rintro ⟨_, rfl, hk⟩
      rw [hk]
  | _ => simp [Kind.classify]

/-- The tree is an object whose keys, taken as a set, are the fields of the kind. -/
def Kind.Fits (k : Kind) (t : Json) : Prop :=
  ∃ members, t = .object members ∧ ∀ name, name ∈ Entries.keys members ↔ name ∈ k.fields

theorem Kind.fields_pairwise (k : Kind) : k.fields.Pairwise (· < ·) := by
  cases k <;> decide

/-- A value is classified by its set of keys. -/
theorem Kind.classify_collapse_eq_ok {t : Json} {k : Kind} :
    Kind.classify t.collapse = .ok k ↔ k.Fits t := by
  rw [Kind.classify_eq_ok]
  cases t with
  | object ms =>
    simp only [Kind.Fits, Json.collapse_object, Json.object.injEq]
    have hkeys : Entries.keys ((Entries.collect ms).map fun e => (e.1, e.2.collapse)) =
        Entries.keys (Entries.collect ms) :=
      Entries.keys_map_keyed (fun _ => Json.collapse) _
    constructor
    · rintro ⟨members, rfl, hf⟩
      refine ⟨ms, rfl, fun name => ?_⟩
      rw [← hf, hkeys, Entries.mem_keys_collect]
    · rintro ⟨members, rfl, hf⟩
      refine ⟨_, rfl, ?_⟩
      rw [hkeys]
      apply Entries.pairwise_lt_ext (Entries.ordered_collect ms).keys_pairwise k.fields_pairwise
      intro name
      rw [Entries.mem_keys_collect, hf]
  | _ => simp [Kind.Fits]

namespace Scope
variable {s : Scope} {name : String}

/-- The text of the body gives the field not more than once. -/
def Once (s : Scope) (name : String) : Prop :=
  ∀ r ∈ s.repeats, r.place.text = s.place.text → r.key ≠ name

/-- The text of the body repeats no key in the object at `place`. -/
def Unrepeated (s : Scope) (place : Field) : Prop :=
  ∀ r ∈ s.repeats, r.place.text ≠ place.text

theorem value_eq_ok {v : Json} :
    s.value name = .ok v ↔ s.Once name ∧ s.members.lookup name = some v := by
  have hany : (s.repeats.any fun r => r.place.text = s.place.text && r.key = name) = false ↔
      s.Once name := by simp [Once]
  unfold value
  rw [← hany]
  cases hr : s.repeats.any fun r => r.place.text = s.place.text && r.key = name with
  | true => simp
  | false => cases hv : List.lookup name s.members <;> simp

theorem asText_eq_ok {place : Field} {v : Json} {t : String} :
    asText place v = .ok t ↔ v = .string t := by
  cases v <;> simp [asText]

theorem text_eq_ok {t : String} :
    s.text name = .ok t ↔ s.Once name ∧ s.members.lookup name = some (.string t) := by
  simp only [text, bind_eq_ok, value_eq_ok, asText_eq_ok]
  constructor
  · rintro ⟨v, ⟨ho, hv⟩, rfl⟩
    exact ⟨ho, hv⟩
  · rintro ⟨ho, hv⟩
    exact ⟨_, ⟨ho, hv⟩, rfl⟩

theorem firstRepeat_eq_none {place : Field} :
    s.firstRepeat? place = none ↔ s.Unrepeated place := by
  simp [firstRepeat?, Unrepeated]

theorem textEntries_eq_ok {place : Field} {members : Entries Json} {es : Entries String} :
    textEntries place members = .ok es ↔ members = es.map fun e => (e.1, .string e.2) := by
  induction members generalizing es with
  | nil => cases es <;> simp [textEntries]
  | cons e ms ih =>
    obtain ⟨k, v⟩ := e
    simp only [textEntries, bind_eq_ok, asText_eq_ok, ih, pure_eq_ok]
    constructor
    · rintro ⟨t, rfl, rest, rfl, rfl⟩
      rfl
    · intro h
      cases es with
      | nil => cases h
      | cons e es =>
        obtain ⟨he, rfl⟩ := List.cons.inj h
        cases he
        exact ⟨e.2, rfl, es, rfl, rfl⟩

theorem textMap_eq_ok {m : KeyMap String} :
    s.textMap name = .ok m ↔ s.Once name ∧ s.Unrepeated (s.field name) ∧
      ∃ es, s.members.lookup name = some (.object (es.map fun e => (e.1, .string e.2))) ∧
        KeyMap.ofEntries es = m := by
  simp only [textMap, bind_eq_ok, value_eq_ok]
  constructor
  · rintro ⟨v, ⟨ho, hv⟩, h⟩
    cases v with
    | object members =>
      simp only at h
      split at h
      · cases h
      · next hf =>
        obtain ⟨es, hes, rfl⟩ := map_eq_ok.mp h
        rw [textEntries_eq_ok.mp hes] at hv
        exact ⟨ho, firstRepeat_eq_none.mp hf, es, hv, rfl⟩
    | _ => cases h
  · rintro ⟨ho, hu, es, hv, rfl⟩
    refine ⟨_, ⟨ho, hv⟩, ?_⟩
    simp only [firstRepeat_eq_none.mpr hu, textEntries_eq_ok.mpr rfl]
    rfl

theorem textItems_eq_ok {place : Field} {i : Nat} {items : List Json} {l : List String} :
    textItems place i items = .ok l ↔ items = l.map .string := by
  induction items generalizing i l with
  | nil => cases l <;> simp [textItems]
  | cons v vs ih =>
    simp only [textItems, bind_eq_ok, asText_eq_ok, ih, pure_eq_ok]
    constructor
    · rintro ⟨t, rfl, rest, rfl, rfl⟩
      rfl
    · intro h
      cases l with
      | nil => cases h
      | cons t ts =>
        obtain ⟨rfl, rfl⟩ := List.cons.inj h
        exact ⟨t, rfl, ts, rfl, rfl⟩

theorem textList_eq_ok {l : List String} :
    s.textList name = .ok l ↔
      s.Once name ∧ s.members.lookup name = some (.array (l.map .string)) := by
  simp only [textList, bind_eq_ok, value_eq_ok]
  constructor
  · rintro ⟨v, ⟨ho, hv⟩, h⟩
    cases v with
    | array items => exact ⟨ho, textItems_eq_ok.mp h ▸ hv⟩
    | _ => cases h
  · rintro ⟨ho, hv⟩
    exact ⟨_, ⟨ho, hv⟩, textItems_eq_ok.mpr rfl⟩

/-- The scope of the object that is the value of a field. -/
def inside (s : Scope) (name : String) (members : Entries Json) : Scope :=
  ⟨s.field name, members, s.repeats⟩

theorem find_unknown_eq_none {members : Entries Json} :
    (Entries.keys members).find? (fun k => !identifierFields.contains k) = none ↔
      ∀ k ∈ Entries.keys members, k = "database_name" ∨ k = "object_name" := by
  simp [identifierFields, Decidable.or_iff_not_imp_left]

theorem identifier_eq_ok {id : Identifier} :
    s.identifier name = .ok id ↔ s.Once name ∧
      ∃ members, s.members.lookup name = some (.object members) ∧
        (∀ k ∈ Entries.keys members, k = "database_name" ∨ k = "object_name") ∧
        (s.inside name members).text "database_name" = .ok id.database ∧
        (s.inside name members).text "object_name" = .ok id.object := by
  simp only [identifier, bind_eq_ok, value_eq_ok]
  constructor
  · rintro ⟨v, ⟨ho, hv⟩, h⟩
    cases v with
    | object members =>
      simp only at h
      split at h
      · cases h
      · next hf =>
        obtain ⟨database, hd, h⟩ := bind_eq_ok.mp h
        obtain ⟨object, hb, h⟩ := bind_eq_ok.mp h
        split at h
        · next id' hn =>
          cases h
          obtain ⟨rfl, rfl⟩ := Identifier.new_eq_ok.mp hn
          exact ⟨ho, members, hv, find_unknown_eq_none.mp hf, hd, hb⟩
        · cases h
    | _ => cases h
  · rintro ⟨ho, members, hv, hk, hd, hb⟩
    refine ⟨_, ⟨ho, hv⟩, ?_⟩
    simp only [find_unknown_eq_none.mpr hk]
    refine bind_eq_ok.mpr ⟨id.database, hd, bind_eq_ok.mpr ⟨id.object, hb, ?_⟩⟩
    simp only [Identifier.new_eq_ok.mpr ⟨rfl, rfl⟩]

end Scope

namespace Request
variable {rules : NamingRules} {s : Scope}

theorem ofScope_create_eq_ok {r : Request} :
    ofScope rules s .createDatabase = .ok r ↔ ∃ c : CreateDatabase, r = .create c ∧
      s.text "name" = .ok c.name ∧ s.textMap "properties" = .ok c.properties ∧
      rules.breach? c.name = none := by
  simp only [ofScope, bind_eq_ok, NamingRules.check_eq_ok, CreateDatabase.new_eq_ok, pure_eq_ok]
  constructor
  · rintro ⟨name, hn, -, hb, m, hm, c, ⟨rfl, rfl, -⟩, rfl⟩
    exact ⟨c, rfl, hn, hm, hb⟩
  · rintro ⟨c, rfl, hn, hm, hb⟩
    exact ⟨c.name, hn, (), hb, c.properties, hm, c, ⟨rfl, rfl, hb⟩, rfl⟩

theorem ofScope_alter_eq_ok {r : Request} :
    ofScope rules s .alterDatabase = .ok r ↔ ∃ a : AlterDatabase, r = .alter a ∧
      s.textList "removals" = .ok a.removals ∧ s.textMap "updates" = .ok a.updates := by
  simp only [ofScope, bind_eq_ok]
  constructor
  · rintro ⟨removals, hl, h⟩
    split at h
    · cases h
    · obtain ⟨updates, hm, hnew⟩ := bind_eq_ok.mp h
      obtain ⟨a, ha, hr⟩ := bind_eq_ok.mp hnew
      obtain ⟨rfl, rfl⟩ := AlterDatabase.new_eq_ok.mp ha
      exact ⟨a, (pure_eq_ok.mp hr).symm, hl, hm⟩
  · rintro ⟨a, rfl, hl, hm⟩
    refine ⟨a.removals, hl, ?_⟩
    simp only [AlterDatabase.emptyRemoval_eq_none a.keys_ne.1, bind_eq_ok, AlterDatabase.new_eq_ok, pure_eq_ok]
    exact ⟨a.updates, hm, a, ⟨rfl, rfl⟩, rfl⟩

theorem ofScope_rename_eq_ok {r : Request} :
    ofScope rules s .renameTable = .ok r ↔ ∃ t : RenameTable, r = .rename t ∧
      s.identifier "source" = .ok t.source ∧ s.identifier "destination" = .ok t.destination := by
  simp only [ofScope, bind_eq_ok, RenameTable.new_eq_ok, pure_eq_ok]
  constructor
  · rintro ⟨source, hs, destination, hd, t, ⟨rfl, rfl⟩, rfl⟩
    exact ⟨t, rfl, hs, hd⟩
  · rintro ⟨t, rfl, hs, hd⟩
    exact ⟨t.source, hs, t.destination, hd, t, ⟨rfl, rfl⟩, rfl⟩

/-- Once its kind is known, what becomes of a body is decided by its fields. -/
theorem ofScanned_eq_ofScope {body : Json.Scanned} {k : Kind} {members : Entries Json}
    (hv : body.value = .object members) (hk : Entries.keys members = k.fields) :
    ofScanned rules body =
      (ofScope rules ⟨[], members, body.repeats⟩ k).mapError .violation := by
  simp only [ofScanned, hv, Kind.classify_eq_ok.mpr ⟨members, rfl, hk⟩]

/-- A body is read as the kind whose fields it has. -/
theorem ofScanned_eq_ok {body : Json.Scanned} {r : Request} :
    ofScanned rules body = .ok r ↔ ∃ k members, body.value = .object members ∧
      Entries.keys members = k.fields ∧
      ofScope rules ⟨[], members, body.repeats⟩ k = .ok r := by
  constructor
  · intro h
    unfold ofScanned at h
    split at h
    · next k members hk hv =>
      obtain ⟨ms, hms, hf⟩ := Kind.classify_eq_ok.mp hk
      rw [hv, Json.object.injEq] at hms
      exact ⟨k, members, hv, hms ▸ hf, mapError_eq_ok.mp h⟩
    · cases h
    · cases h
  · rintro ⟨k, members, hv, hf, h⟩
    rw [ofScanned_eq_ofScope hv hf, mapError_eq_ok]
    exact h

/-- A body of the shape of a kind has the fields of the kind as its members, and is decided by
them. -/
theorem ofScanned_eq_of_fits (rules : NamingRules) {t : Json} {k : Kind} (h : k.Fits t)
    (repeats : List Json.Repeat) :
    ∃ members, t.collapse = .object members ∧ Entries.keys members = k.fields ∧
      ofScanned rules ⟨t.collapse, repeats⟩ =
        (ofScope rules ⟨[], members, repeats⟩ k).mapError .violation := by
  obtain ⟨members, hv, hk⟩ := Kind.classify_eq_ok.mp (Kind.classify_collapse_eq_ok.mpr h)
  exact ⟨members, hv, hk, ofScanned_eq_ofScope hv hk⟩

/-- A body of the shape of a kind is read or blamed at a place. -/
theorem ofScanned_of_fits {t : Json} {k : Kind} (h : k.Fits t) (repeats : List Json.Repeat) :
    (∃ r, ofScanned rules ⟨t.collapse, repeats⟩ = .ok r) ∨
      ∃ v, ofScanned rules ⟨t.collapse, repeats⟩ = .error (.violation v) := by
  obtain ⟨members, -, -, hb⟩ := ofScanned_eq_of_fits rules h repeats
  rw [hb]
  cases ofScope rules ⟨[], members, repeats⟩ k with
  | ok r => exact Or.inl ⟨r, rfl⟩
  | error v => exact Or.inr ⟨v, rfl⟩

/-- A body of the shape of no kind is a mismatch. -/
theorem ofScanned_of_not_fits {t : Json} (h : ¬∃ k : Kind, k.Fits t) (repeats : List Json.Repeat) :
    ∃ m, ofScanned rules ⟨t.collapse, repeats⟩ = .error (.mismatch m) := by
  cases hk : Kind.classify t.collapse with
  | ok k => exact absurd ⟨k, Kind.classify_collapse_eq_ok.mp hk⟩ h
  | error m =>
    refine ⟨m, ?_⟩
    simp only [ofScanned, hk]

end Request
end Catalog
