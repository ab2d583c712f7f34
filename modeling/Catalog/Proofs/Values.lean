import Catalog.Json.Basic
import Catalog.Proofs.Entries

/-! The value that a tree stands for. A tree is a value of its own when collapsing leaves it as it
is, and that is so exactly when all its objects have their keys in order. -/

namespace Catalog

/-- An ordered list without other keys than two that it has is the list of these two. -/
theorem Entries.Ordered.eq_pair {α : Type} {l : Entries α} (hl : l.Ordered) {a b : String} {x y : α}
    (hab : a < b) (hk : ∀ k ∈ l.keys, k = a ∨ k = b) (ha : l.lookup a = some x)
    (hb : l.lookup b = some y) : l = [(a, x), (b, y)] := by
  have hp : Entries.Ordered [(a, x), (b, y)] := by simpa [Entries.Ordered] using hab
  apply hl.ext hp
  intro k
  by_cases hka : k = a
  · simp [hka, ha]
  · by_cases hkb : k = b
    · simp [Entries.lookup_cons, hkb, hb, Ne.symm (Entries.ne_of_key_lt hab)]
    · have hn : k ∉ l.keys := fun h => (hk k h).elim hka hkb
      rw [Entries.mem_keys_iff, Option.not_isSome_iff_eq_none] at hn
      simp [Entries.lookup_cons, hka, hkb, hn]

namespace Json

/-- Induction over a value and the values inside it. -/
@[elab_as_elim]
theorem induction {motive : Json → Prop} (null : motive .null) (bool : ∀ b, motive (.bool b))
    (number : ∀ n, motive (.number n)) (string : ∀ s, motive (.string s))
    (array : ∀ items, (∀ v ∈ items, motive v) → motive (.array items))
    (object : ∀ members : Entries Json, (∀ e ∈ members, motive e.2) → motive (.object members))
    (v : Json) : motive v := by
  -- The recursor of the nested type has a motive for item lists, member lists and members too.
  refine @Json.rec motive (fun items => ∀ v ∈ items, motive v)
    (fun members => ∀ e ∈ members, motive e.2) (fun e => motive e.2)
    null bool number string array object ?_ ?_ ?_ ?_ ?_ v
  · simp
  · intro v items hv hs
    simpa using ⟨hv, hs⟩
  · simp
  · intro e members he hs e' hm
    rcases List.mem_cons.mp hm with rfl | hm
    · exact he
    · exact hs e' hm
  · intro k v hv
    exact hv

theorem collapseItems_eq_map (items : List Json) : collapseItems items = items.map collapse := by
  induction items with
  | nil => rfl
  | cons v vs ih => simp [collapseItems, ih]

theorem collapseMembers_eq_map (members : Entries Json) :
    collapseMembers members = members.map fun e => (e.1, e.2.collapse) := by
  induction members with
  | nil => rfl
  | cons e ms ih => simp [collapseMembers, ih]

@[simp]
theorem collapse_null : null.collapse = .null := rfl

@[simp]
theorem collapse_bool (b : Bool) : (bool b).collapse = .bool b := rfl

@[simp]
theorem collapse_number (n : Number) : (number n).collapse = .number n := rfl

@[simp]
theorem collapse_string (s : String) : (string s).collapse = .string s := rfl

@[simp]
theorem collapse_array (items : List Json) : (array items).collapse = .array (items.map collapse) := by
  rw [collapse, collapseItems_eq_map]

@[simp]
theorem collapse_object (members : Entries Json) :
    (object members).collapse = .object (members.collect.map fun e => (e.1, e.2.collapse)) := by
  rw [collapse, collapseMembers_eq_map, Entries.collect_map]

/-- The value of a value is itself. -/
@[simp]
theorem collapse_collapse (v : Json) : v.collapse.collapse = v.collapse := by
  induction v using Json.induction with
  | null | bool | number | string => rfl
  | array items ih =>
    simp only [collapse_array, List.map_map, array.injEq]
    exact List.map_congr_left ih
  | object members ih =>
    rw [collapse_object, collapse_object, Entries.collect_map,
      Entries.collect_of_ordered (Entries.ordered_collect members), List.map_map]
    simp only [object.injEq]
    apply List.map_congr_left
    intro e he
    simp only [Function.comp_apply, ih e (Entries.mem_of_mem_collect he)]

theorem ordered_of_collapse {v : Json} {members : Entries Json} (h : v.collapse = .object members) :
    members.Ordered := by
  have hs := collapse_collapse v
  rw [h, collapse_object, object.injEq] at hs
  rw [← hs]
  exact Entries.ordered_map.mpr (Entries.ordered_collect members)

theorem collapse_of_mem_object {xs : Entries Json} (h : (object xs).collapse = .object xs)
    {e : String × Json} (he : e ∈ xs) : e.2.collapse = e.2 := by
  rw [collapse_object, object.injEq] at h
  rw [← h] at he
  obtain ⟨e', -, rfl⟩ := List.mem_map.mp he
  exact collapse_collapse e'.2

theorem collapse_of_mem_array {xs : List Json} (h : (array xs).collapse = .array xs)
    {x : Json} (hx : x ∈ xs) : x.collapse = x := by
  rw [collapse_array, array.injEq] at h
  rw [← h] at hx
  obtain ⟨x', -, rfl⟩ := List.mem_map.mp hx
  exact collapse_collapse x'

/-- A tree stands for a text only if it is that text. -/
theorem collapse_eq_string {v : Json} {s : String} : v.collapse = .string s ↔ v = .string s := by
  cases v <;> simp

theorem collapse_ofTexts (m : KeyMap String) : (ofTexts m).collapse = ofTexts m := by
  have ho : Entries.Ordered (m.entries.map fun e => (e.1, string e.2)) :=
    Entries.ordered_map.mpr m.ordered
  rw [ofTexts, collapse_object, Entries.collect_of_ordered ho, List.map_map]
  rfl

mutual

/-- Equality of trees as a test. -/
def same : Json → Json → Bool
  | .null, .null => true
  | .bool a, .bool b => a = b
  | .number a, .number b => a = b
  | .string a, .string b => a = b
  | .array xs, .array ys => sameItems xs ys
  | .object xs, .object ys => sameMembers xs ys
  | _, _ => false

def sameItems : List Json → List Json → Bool
  | [], [] => true
  | x :: xs, y :: ys => x.same y && sameItems xs ys
  | _, _ => false

def sameMembers : List (String × Json) → List (String × Json) → Bool
  | [], [] => true
  | (k, x) :: xs, (l, y) :: ys => k = l && x.same y && sameMembers xs ys
  | _, _ => false

end

theorem same_iff (v : Json) : ∀ w, v.same w = true ↔ v = w := by
  induction v using Json.induction with
  | null | bool | number | string =>
    intro w
    cases w <;> simp [same]
  | array xs ih =>
    intro w
    cases w with
    | array ys =>
      rw [same, array.injEq]
      induction xs generalizing ys with
      | nil => cases ys <;> simp [sameItems]
      | cons x xs ihx =>
        have hx := ih x List.mem_cons_self
        have hxs := ihx fun v hv => ih v (List.mem_cons_of_mem _ hv)
        cases ys <;> simp [sameItems, hx, hxs]
    | _ => simp [same]
  | object xs ih =>
    intro w
    cases w with
    | object ys =>
      rw [same, object.injEq]
      induction xs generalizing ys with
      | nil => cases ys <;> simp [sameMembers]
      | cons x xs ihx =>
        have hx := ih x List.mem_cons_self
        have hxs := ihx fun v hv => ih v (List.mem_cons_of_mem _ hv)
        cases ys <;> simp [sameMembers, hx, hxs, Prod.ext_iff]
    | _ => simp [same]

instance : DecidableEq Json := fun v w => decidable_of_iff _ (same_iff v w)

end Json
end Catalog
