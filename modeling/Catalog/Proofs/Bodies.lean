import Catalog.Proofs.Decoding

/-! Decoding as the inverse of encoding. In a body that is a value each reader of a part accepts one
value only, the one that encoding writes there; so a value is read as a request exactly when it is
the body of that request. -/

namespace Catalog

namespace Json

theorem collapse_pair {a b : String} (h : a < b) (x y : Json) :
    (object [(a, x), (b, y)]).collapse = .object [(a, x.collapse), (b, y.collapse)] := by
  have ho : Entries.Ordered [(a, x), (b, y)] := by simpa [Entries.Ordered] using h
  rw [collapse_object, Entries.collect_of_ordered ho]
  rfl

theorem collapse_pair_swap {a b : String} (h : b < a) (x y : Json) :
    (object [(a, x), (b, y)]).collapse = .object [(b, y.collapse), (a, x.collapse)] := by
  have hc : Entries.collect [(a, x), (b, y)] = [(b, y), (a, x)] := by
    simp [Entries.collect, Entries.insert, h]
  rw [collapse_object, hc]
  rfl

theorem collapse_of_member {v : Json} {members : Entries Json} (h : v.collapse = .object members)
    {e : String × Json} (he : e ∈ members) : e.2.collapse = e.2 := by
  cases v with
  | object ms =>
    rw [collapse_object, object.injEq] at h
    rw [← h] at he
    obtain ⟨e', -, rfl⟩ := List.mem_map.mp he
    exact collapse_collapse e'.2
  | _ => simp at h

/-- An object of texts that is a value is written by one map. -/
theorem object_eq_ofTexts {es : Entries String} {m : KeyMap String}
    (ho : Entries.Ordered (es.map fun e => (e.1, string e.2))) (h : KeyMap.ofEntries es = m) :
    object (es.map fun e => (e.1, string e.2)) = ofTexts m := by
  have he : m.entries = es := by
    rw [← h]
    exact Entries.collect_of_ordered (Entries.ordered_map.mp ho)
  rw [ofTexts, he]

end Json

theorem Identifier.collapse_encode (id : Identifier) : id.encode.collapse = id.encode :=
  Json.collapse_pair (by decide) _ _

theorem CreateDatabase.collapse_encode (c : CreateDatabase) : c.encode.collapse = c.encode := by
  rw [CreateDatabase.encode, Json.collapse_pair (by decide), Json.collapse_ofTexts,
    Json.collapse_string]

theorem AlterDatabase.collapse_encode (a : AlterDatabase) : a.encode.collapse = a.encode := by
  rw [AlterDatabase.encode, Json.collapse_pair (by decide), Json.collapse_ofTexts]
  simp

theorem RenameTable.collapse_encode (t : RenameTable) :
    t.encode.collapse =
      .object [("destination", t.destination.encode), ("source", t.source.encode)] := by
  rw [RenameTable.encode, Json.collapse_pair_swap (by decide), Identifier.collapse_encode,
    Identifier.collapse_encode]

namespace Scope
variable {s : Scope} {name : String}

/-- The members are values, and come from no text that repeats a key. -/
structure Settled (s : Scope) : Prop where
  repeats : s.repeats = []
  values : ∀ e ∈ s.members, e.2.collapse = e.2

theorem Settled.once (h : s.Settled) (name : String) : s.Once name := by
  simp [Once, h.repeats]

theorem Settled.unrepeated (h : s.Settled) (place : Field) : s.Unrepeated place := by
  simp [Unrepeated, h.repeats]

theorem Settled.value (h : s.Settled) {v : Json} (hv : s.members.lookup name = some v) :
    v.collapse = v :=
  h.values (name, v) (Entries.mem_of_lookup hv)

theorem Settled.inside (h : s.Settled) {members : Entries Json}
    (hv : s.members.lookup name = some (.object members)) : (s.inside name members).Settled :=
  ⟨h.repeats, fun _ he => Json.collapse_of_member (h.value hv) he⟩

theorem Settled.text_eq_ok (h : s.Settled) {t : String} :
    s.text name = .ok t ↔ s.members.lookup name = some (.string t) := by
  simp [Scope.text_eq_ok, h.once]

theorem Settled.textList_eq_ok (h : s.Settled) {l : List String} :
    s.textList name = .ok l ↔ s.members.lookup name = some (.array (l.map .string)) := by
  simp [Scope.textList_eq_ok, h.once]

theorem Settled.textMap_eq_ok (h : s.Settled) {m : KeyMap String} :
    s.textMap name = .ok m ↔ s.members.lookup name = some (.ofTexts m) := by
  simp only [Scope.textMap_eq_ok, h.once, h.unrepeated, true_and]
  constructor
  · rintro ⟨es, hv, hm⟩
    rw [hv, Json.object_eq_ofTexts (Json.ordered_of_collapse (h.value hv)) hm]
  · intro hv
    refine ⟨m.entries, hv, ?_⟩
    simp only [KeyMap.ofEntries, Entries.collect_of_ordered m.ordered]

theorem Settled.identifier_eq_ok (h : s.Settled) {id : Identifier} :
    s.identifier name = .ok id ↔ s.members.lookup name = some id.encode := by
  simp only [Scope.identifier_eq_ok, h.once, true_and]
  constructor
  · rintro ⟨members, hv, hk, hd, ho⟩
    rw [(h.inside hv).text_eq_ok] at hd ho
    have hm := (Json.ordered_of_collapse (h.value hv)).eq_pair (by decide) hk hd ho
    rw [hv, hm, Identifier.encode]
  · intro hv
    have hi := h.inside hv
    exact ⟨_, hv, by simp [Entries.keys], hi.text_eq_ok.mpr (by simp [Scope.inside]),
      hi.text_eq_ok.mpr (by simp [Scope.inside, Entries.lookup_cons])⟩

end Scope

namespace Request

/-- The object of a value at the top of a body. -/
theorem settled_of_collapse {v : Json} {members : Entries Json} (h : v.collapse = .object members) :
    Scope.Settled ⟨[], members, []⟩ :=
  ⟨rfl, fun _ he => Json.collapse_of_member h he⟩

theorem ofValue_eq_ok {rules : NamingRules} {v : Json} {r : Request} :
    ofValue rules v = .ok r ↔ ∃ k members, v.collapse = .object members ∧
      Entries.keys members = k.fields ∧ ofScope rules ⟨[], members, []⟩ k = .ok r :=
  ofScanned_eq_ok

/-- Under the naming rules the request may be made; they look at databases to be created only. -/
def Allowed (rules : NamingRules) (r : Request) : Prop :=
  ∀ c, r = .create c → rules.check (.ofKey "name") c.name = .ok ()

theorem allowed_default (r : Request) : r.Allowed {} := by
  rintro c -
  exact NamingRules.check_eq_ok.mpr (NamingRules.breach_default_eq_none.mpr c.name_ne)

/-- What is read as a request is the body of the request. -/
theorem body_of_ofValue {rules : NamingRules} {v : Json} {r : Request}
    (h : ofValue rules v = .ok r) : v.collapse = r.body ∧ r.Allowed rules := by
  obtain ⟨k, members, hv, hk, h⟩ := ofValue_eq_ok.mp h
  have hs := settled_of_collapse hv
  have hm := Json.ordered_of_collapse hv
  -- The two fields of the kind are all the members, and each holds what encoding writes.
  cases k with
  | createDatabase =>
    obtain ⟨c, rfl, hn, hp, hb⟩ := ofScope_create_eq_ok.mp h
    have he := hm.eq_pair (by decide) (by simp [hk, Kind.fields]) (hs.text_eq_ok.mp hn)
      (hs.textMap_eq_ok.mp hp)
    refine ⟨?_, ?_⟩
    · rw [hv, he, body, encode, CreateDatabase.collapse_encode, CreateDatabase.encode]
    · intro c' hc
      cases hc
      exact NamingRules.check_eq_ok.mpr hb
  | alterDatabase =>
    obtain ⟨a, rfl, hl, hu⟩ := ofScope_alter_eq_ok.mp h
    have he := hm.eq_pair (by decide) (by simp [hk, Kind.fields]) (hs.textList_eq_ok.mp hl)
      (hs.textMap_eq_ok.mp hu)
    refine ⟨?_, by simp [Allowed]⟩
    rw [hv, he, body, encode, AlterDatabase.collapse_encode, AlterDatabase.encode]
  | renameTable =>
    obtain ⟨t, rfl, hsrc, hdst⟩ := ofScope_rename_eq_ok.mp h
    have he := hm.eq_pair (by decide) (by simp [hk, Kind.fields]) (hs.identifier_eq_ok.mp hdst)
      (hs.identifier_eq_ok.mp hsrc)
    refine ⟨?_, by simp [Allowed]⟩
    rw [hv, he, body, encode, RenameTable.collapse_encode]

/-- The body of an allowed request is read as that request. -/
theorem ofValue_of_body {rules : NamingRules} {v : Json} {r : Request} (hv : v.collapse = r.body)
    (ha : r.Allowed rules) : ofValue rules v = .ok r := by
  rw [ofValue_eq_ok]
  cases r with
  | create c =>
    rw [body, encode, CreateDatabase.collapse_encode] at hv
    have hs := settled_of_collapse hv
    refine ⟨.createDatabase, _, hv, by simp [Entries.keys, Kind.fields], ?_⟩
    exact ofScope_create_eq_ok.mpr ⟨c, rfl, hs.text_eq_ok.mpr (by simp),
      hs.textMap_eq_ok.mpr (by simp [Entries.lookup_cons]), NamingRules.check_eq_ok.mp (ha c rfl)⟩
  | alter a =>
    rw [body, encode, AlterDatabase.collapse_encode] at hv
    have hs := settled_of_collapse hv
    refine ⟨.alterDatabase, _, hv, by simp [Entries.keys, Kind.fields], ?_⟩
    exact ofScope_alter_eq_ok.mpr ⟨a, rfl, hs.textList_eq_ok.mpr (by simp),
      hs.textMap_eq_ok.mpr (by simp [Entries.lookup_cons])⟩
  | rename t =>
    rw [body, encode, RenameTable.collapse_encode] at hv
    have hs := settled_of_collapse hv
    refine ⟨.renameTable, _, hv, by simp [Entries.keys, Kind.fields], ?_⟩
    exact ofScope_rename_eq_ok.mpr ⟨t, rfl,
      hs.identifier_eq_ok.mpr (by simp [Entries.lookup_cons]),
      hs.identifier_eq_ok.mpr (by simp)⟩

/-- A value is read as a request under some naming rules exactly when it is the body of the request
and the rules let the name of a database to be created pass. -/
theorem ofValue_eq_ok_iff_body (rules : NamingRules) (v : Json) (r : Request) :
    ofValue rules v = .ok r ↔
      v.collapse = r.body ∧
        ∀ c, r = .create c → rules.check (.ofKey "name") c.name = .ok () :=
  ⟨body_of_ofValue, fun h => ofValue_of_body h.1 h.2⟩

end Request
end Catalog
