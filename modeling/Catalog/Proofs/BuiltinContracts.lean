import Mathlib.Data.Set.List
import Catalog.Proofs.Bodies
import Catalog.Proofs.BuiltinDocuments
import Catalog.Proofs.Validity

/-! What the built-in contracts accept: the values with the two fields of the kind, each of them
right on its own. -/

namespace Catalog

namespace Schema
variable {follow : Followed}

theorem issues_string_eq_nil {v : Json} :
    issues follow (.every [.assert (.type [.string])]) v = [] ↔ ∃ s, v = .string s := by
  rw [issues_every_eq_nil]
  simp only [List.mem_singleton, forall_eq, issues_type_eq_nil, exists_eq_left]
  cases v <;> simp [TypeName.admits]

theorem one_le_length_iff {s : String} : 1 ≤ s.length ↔ s ≠ "" := by
  rw [← String.length_toList, Nat.one_le_iff_ne_zero, ne_eq, List.length_eq_zero_iff,
    String.toList_eq_nil_iff]

theorem issues_minLength_one_eq_nil {s : String} :
    issues follow (.every [.assert (.minLength 1)]) (.string s) = [] ↔ s ≠ "" := by
  simp only [issues_every_eq_nil, List.mem_singleton, forall_eq, issues_minLength_eq_nil,
    one_le_length_iff]

theorem issues_textSchema_eq_nil {v : Json} :
    issues follow textSchema v = [] ↔ ∃ s, s ≠ "" ∧ v = .string s := by
  have hrules : issues follow textSchema v = [] ↔
      issues follow (.every [.assert (.type [.string])]) v = [] ∧
        issues follow (.every [.assert (.minLength 1)]) v = [] := by
    simp [textSchema, issues_every_eq_nil]
  rw [hrules, issues_string_eq_nil]
  constructor
  · rintro ⟨⟨s, rfl⟩, hl⟩
    exact ⟨s, issues_minLength_one_eq_nil.mp hl, rfl⟩
  · rintro ⟨s, hs, rfl⟩
    exact ⟨⟨s, rfl⟩, issues_minLength_one_eq_nil.mpr hs⟩

theorem issues_textListSchema_eq_nil {v : Json} :
    issues follow textListSchema v = [] ↔
      ∃ l : List String, (∀ k ∈ l, k ≠ "") ∧ v = .array (l.map .string) := by
  simp only [textListSchema, issues_every_eq_nil, List.mem_cons, List.not_mem_nil, or_false,
    forall_eq_or_imp, forall_eq, issues_type_eq_nil, exists_eq_left]
  constructor
  · rintro ⟨ht, hi⟩
    cases v with
    | array items =>
      rw [issues_items_eq_nil, List.drop_zero] at hi
      have hrange : items ∈ Set.range (List.map Json.string) := by
        rw [Set.range_list_map]
        intro x hx
        obtain ⟨s, -, rfl⟩ := issues_textSchema_eq_nil.mp (hi x hx)
        exact ⟨s, rfl⟩
      obtain ⟨l, rfl⟩ := hrange
      refine ⟨l, fun k hk => ?_, rfl⟩
      obtain ⟨s, hs, he⟩ := issues_textSchema_eq_nil.mp (hi _ (List.mem_map_of_mem hk))
      cases he
      exact hs
    | _ => simp [TypeName.admits] at ht
  · rintro ⟨l, hl, rfl⟩
    refine ⟨rfl, issues_items_eq_nil.mpr fun x hx => ?_⟩
    obtain ⟨k, hk, rfl⟩ := List.mem_map.mp hx
    exact issues_textSchema_eq_nil.mpr ⟨k, hl k hk, rfl⟩

theorem issues_textMapSchema_eq_nil {v : Json} (hv : v.collapse = v) :
    issues follow textMapSchema v = [] ↔
      ∃ m : KeyMap String, m.contains "" = false ∧ v = .ofTexts m := by
  simp only [textMapSchema, issues_every_eq_nil, List.mem_cons, List.not_mem_nil, or_false,
    forall_eq_or_imp, forall_eq, issues_type_eq_nil, exists_eq_left]
  constructor
  · rintro ⟨ht, ho, hn⟩
    cases v with
    | object members =>
      simp only [issues_others_eq_nil, issues_propertyNames_eq_nil, List.not_mem_nil,
        false_implies, implies_true, true_and, List.lookup_nil, forall_const,
        issues_string_eq_nil, issues_minLength_one_eq_nil] at ho hn
      -- The members of a value are in order, so texts under them are the entries of a map.
      have hrange : members ∈
          Set.range (List.map fun e : String × String => (e.1, Json.string e.2)) := by
        rw [Set.range_list_map]
        intro e he
        obtain ⟨s, hs⟩ := ho e he
        exact ⟨(e.1, s), by simp [← hs]⟩
      obtain ⟨es, rfl⟩ := hrange
      have hes : Entries.Ordered es := Entries.ordered_map.mp (Json.ordered_of_collapse hv)
      refine ⟨⟨es, hes⟩, KeyMap.contains_eq_false_iff.mpr fun e he => ?_, rfl⟩
      exact hn _ (List.mem_map_of_mem he)
    | _ => simp [TypeName.admits] at ht
  · rintro ⟨m, hm, rfl⟩
    rw [KeyMap.contains_eq_false_iff] at hm
    refine ⟨rfl, issues_others_eq_nil.mpr fun e he => ?_, issues_propertyNames_eq_nil.mpr ?_⟩
    · obtain ⟨e, -, rfl⟩ := List.mem_map.mp he
      exact ⟨by simp, by simp, fun _ => issues_string_eq_nil.mpr ⟨e.2, rfl⟩⟩
    · intro e he
      obtain ⟨e, hme, rfl⟩ := List.mem_map.mp he
      exact issues_minLength_one_eq_nil.mpr (hm e hme)

theorem issues_pairSchema_eq_nil {required : List String} {a b : String} {sa sb : Schema} {v : Json}
    (hv : v.collapse = v) (hab : a < b) (hr : ∀ name, name ∈ required ↔ name = a ∨ name = b) :
    issues follow (pairSchema required (a, sa) (b, sb)) v = [] ↔
      ∃ x y, v = .object [(a, x), (b, y)] ∧ issues follow sa x = [] ∧ issues follow sb y = [] := by
  have hne : a ≠ b := Entries.ne_of_key_lt hab
  simp only [pairSchema, issues_every_eq_nil, List.mem_cons, List.not_mem_nil, or_false,
    forall_eq_or_imp, forall_eq, issues_type_eq_nil, exists_eq_left]
  constructor
  · rintro ⟨ht, hq, hc⟩
    cases v with
    | object members =>
      rw [issues_required_eq_nil] at hq
      rw [issues_closed_eq_nil] at hc
      -- Both names are required and no others are known, so these two are all the members.
      obtain ⟨x, hx⟩ := Option.isSome_iff_exists.mp (hq a ((hr a).mpr (Or.inl rfl)))
      obtain ⟨y, hy⟩ := Option.isSome_iff_exists.mp (hq b ((hr b).mpr (Or.inr rfl)))
      have hk : ∀ k ∈ Entries.keys members, k = a ∨ k = b := by
        intro k hk
        have hknown := hc.2 k hk
        simp only [Entries.lookup_cons, List.lookup_nil, List.not_mem_nil, false_and,
          exists_false, or_false] at hknown
        by_contra hn
        rw [not_or] at hn
        simp [hn.1, hn.2] at hknown
      have hm := (Json.ordered_of_collapse hv).eq_pair hab hk hx hy
      subst hm
      refine ⟨x, y, rfl, ?_, ?_⟩
      · exact (hc.1 (a, x) (by simp)).1 (a, sa) (by simp) rfl
      · exact (hc.1 (b, y) (by simp)).1 (b, sb) (by simp) rfl
    | _ => simp [TypeName.admits] at ht
  · rintro ⟨x, y, rfl, hx, hy⟩
    refine ⟨rfl, issues_required_eq_nil.mpr fun name hn => ?_, issues_closed_eq_nil.mpr ?_⟩
    · rcases (hr name).mp hn with h | h <;> simp [h, Entries.lookup_cons, Ne.symm hne]
    · simp [Entries.keys, Entries.lookup_cons, hx, hy, hne, Ne.symm hne]

theorem issues_identifierSchema_eq_nil {v : Json} (hv : v.collapse = v) :
    issues follow identifierSchema v = [] ↔ ∃ id : Identifier, v = id.encode := by
  rw [identifierSchema, issues_pairSchema_eq_nil hv (by decide) (by simp)]
  simp only [issues_textSchema_eq_nil]
  constructor
  · rintro ⟨_, _, rfl, ⟨database, hd, rfl⟩, object, ho, rfl⟩
    exact ⟨⟨database, object, hd, ho⟩, rfl⟩
  · rintro ⟨id, rfl⟩
    exact ⟨_, _, rfl, ⟨id.database, id.names_ne.1, rfl⟩, id.object, id.names_ne.2, rfl⟩

/-- A reference to identifiers is followed once, since nothing in their schema refers on. -/
theorem issues_referenceSchema_eq_nil {sa sb : Schema} {budget : Nat} {v : Json}
    (hv : v.collapse = v) :
    issues (Contract.follow ⟨pairSchema ["source", "destination"] ("destination", sa)
      ("source", sb), [(identifierPointer, identifierSchema)]⟩ (budget + 1)) referenceSchema v = [] ↔
      ∃ id : Identifier, v = id.encode := by
  rw [referenceSchema, issues_every_eq_nil]
  simp only [List.mem_singleton, forall_eq, issues, Contract.follow, List.lookup_cons_self]
  exact issues_identifierSchema_eq_nil hv

end Schema

/-- The value has the two fields of the kind and no others, and neither field is at fault when it is
looked at on its own. -/
inductive Kind.Shaped : Kind → Json → Prop where
  | createDatabase {name : String} {properties : KeyMap String} (hn : name ≠ "")
    (hp : properties.contains "" = false) :
    Shaped .createDatabase (.object [("name", .string name), ("properties", .ofTexts properties)])
  | alterDatabase {removals : List String} {updates : KeyMap String} (hr : ∀ k ∈ removals, k ≠ "")
    (hu : updates.contains "" = false) :
    Shaped .alterDatabase (.object [("removals", .array (removals.map .string)),
      ("updates", .ofTexts updates)])
  | renameTable (source destination : Identifier) :
    Shaped .renameTable (.object [("destination", destination.encode), ("source", source.encode)])

theorem Contract.issues_builtinContract_eq_nil {k : Kind} {v : Json} (hv : v.collapse = v) :
    (Schema.builtinContract k).issues v = [] ↔ k.Shaped v := by
  have hmember {a b : String} {x y : Json} (h : v = .object [(a, x), (b, y)]) :
      x.collapse = x ∧ y.collapse = y :=
    ⟨Json.collapse_of_member (hv.trans h) (e := (a, x)) (by simp),
      Json.collapse_of_member (hv.trans h) (e := (b, y)) (by simp)⟩
  cases k with
  | createDatabase =>
    rw [Contract.issues, Schema.builtinContract,
      Schema.issues_pairSchema_eq_nil hv (by decide) (by simp)]
    constructor
    · rintro ⟨x, y, he, hx, hy⟩
      obtain ⟨name, hn, rfl⟩ := Schema.issues_textSchema_eq_nil.mp hx
      obtain ⟨m, hm, rfl⟩ := (Schema.issues_textMapSchema_eq_nil (hmember he).2).mp hy
      exact he ▸ .createDatabase hn hm
    · intro h
      cases h with
      | @createDatabase name m hn hm =>
        exact ⟨_, _, rfl, Schema.issues_textSchema_eq_nil.mpr ⟨name, hn, rfl⟩,
          (Schema.issues_textMapSchema_eq_nil (hmember rfl).2).mpr ⟨m, hm, rfl⟩⟩
  | alterDatabase =>
    rw [Contract.issues, Schema.builtinContract,
      Schema.issues_pairSchema_eq_nil hv (by decide) (by simp)]
    constructor
    · rintro ⟨x, y, he, hx, hy⟩
      obtain ⟨l, hl, rfl⟩ := Schema.issues_textListSchema_eq_nil.mp hx
      obtain ⟨m, hm, rfl⟩ := (Schema.issues_textMapSchema_eq_nil (hmember he).2).mp hy
      exact he ▸ .alterDatabase hl hm
    · intro h
      cases h with
      | @alterDatabase l m hl hm =>
        exact ⟨_, _, rfl, Schema.issues_textListSchema_eq_nil.mpr ⟨l, hl, rfl⟩,
          (Schema.issues_textMapSchema_eq_nil (hmember rfl).2).mpr ⟨m, hm, rfl⟩⟩
  | renameTable =>
    -- The budget is that of one target, which leaves a step for the reference of either field.
    have hbudget : (v.depth + 1) * 2 = v.depth * 2 + 1 + 1 := by omega
    simp only [Contract.issues, Schema.builtinContract, List.length_singleton, hbudget]
    rw [Schema.issues_pairSchema_eq_nil hv (by decide) (by simp [or_comm])]
    constructor
    · rintro ⟨x, y, he, hx, hy⟩
      obtain ⟨destination, rfl⟩ := (Schema.issues_referenceSchema_eq_nil (hmember he).1).mp hx
      obtain ⟨source, rfl⟩ := (Schema.issues_referenceSchema_eq_nil (hmember he).2).mp hy
      exact he ▸ .renameTable source destination
    · intro h
      cases h with
      | renameTable source destination =>
        exact ⟨_, _, rfl, (Schema.issues_referenceSchema_eq_nil (hmember rfl).1).mpr ⟨_, rfl⟩,
          (Schema.issues_referenceSchema_eq_nil (hmember rfl).2).mpr ⟨_, rfl⟩⟩

end Catalog
