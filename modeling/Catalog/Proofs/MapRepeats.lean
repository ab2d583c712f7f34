import Catalog.Proofs.FirstField

/-! Repeats in the field that holds a map of texts. The repeats of a body stand in one list, those of
inner values in front of those of the object around them, and are told apart by how their places are
written. A place inside a map is written longer than the place of the map, so of all repeats those of
the map itself are found, and the first of them is the one that the text gives first. -/

namespace Catalog

/-- Inside a place that is not the body, every place is written longer. -/
theorem Field.text_child {f : Field} (h : f.text ≠ "") (step : Step) :
    ∃ w, w ≠ "" ∧ (f.child step).text = f.text ++ w := by
  have hextend : (f.child step).text = extend f.text step := by
    simp only [text, child, List.foldl_append, List.foldl_cons, List.foldl_nil]
  rw [hextend]
  cases step with
  | key k => exact ⟨"." ++ k, by simp, by simp [extend, h, String.append_assoc]⟩
  | index i => exact ⟨"[" ++ toString i ++ "]", by simp, by simp [extend, String.append_assoc]⟩

/-- Of keys in the order of a text, `key` is the first that was given before. -/
inductive FirstRepeated : List String → String → Prop where
  | split {before after : List String} {key : String} (fresh : before.Nodup)
    (again : key ∈ before) : FirstRepeated (before ++ key :: after) key

theorem exists_firstRepeated {keys : List String} (h : ¬keys.Nodup) :
    ∃ key, FirstRepeated keys key := by
  -- From the end: the last key is the first one repeated if nothing in front of it is.
  induction keys using List.reverseRecOn with
  | nil => exact absurd List.nodup_nil h
  | append_singleton keys last ih =>
    by_cases hn : keys.Nodup
    · have hlast : last ∈ keys := by
        by_contra hnot
        exact h (List.nodup_append'.mpr
          ⟨hn, List.nodup_singleton last, List.disjoint_singleton.mpr hnot⟩)
      exact ⟨last, .split hn hlast⟩
    · obtain ⟨key, hkey⟩ := ih hn
      cases hkey with
      | @split before after _ fresh again =>
        rw [List.append_assoc, List.cons_append]
        exact ⟨key, .split fresh again⟩

namespace Json
variable {place : Field} {seen before after : List String} {key : String} {members : Entries Json}

/-- No repeat inside a member or item is written at the place around it. -/
theorem find?_repeats_child (hplace : place.text ≠ "") (v : Json) (step : Step) :
    (v.repeats (place.child step)).find? (·.place.text = place.text) = none := by
  apply List.find?_eq_none.mpr
  intro r hr htext
  obtain ⟨w, hw, hchild⟩ := Field.text_child hplace step
  obtain ⟨w', hw'⟩ := text_of_mem_repeats hr
  have hwritten : place.text ++ (w ++ w') = place.text := by
    calc place.text ++ (w ++ w')
        = (place.child step).text ++ w' := by rw [hchild, String.append_assoc]
      _ = r.place.text := hw'.symm
      _ = place.text := of_decide_eq_true htext
  have hempty : w ++ w' = "" := by simpa using hwritten
  exact hw (String.append_eq_empty_iff.mp hempty).1

/-- Of the repeats that are written at the place of an object, the first is that of the first key
that was given before. -/
theorem find?_repeatsMembers (hplace : place.text ≠ "")
    (hkeys : Entries.keys members = before ++ key :: after) (fresh : before.Nodup)
    (hnew : ∀ k ∈ before, k ∉ seen) (again : key ∈ seen ∨ key ∈ before) :
    (repeatsMembers place seen members).find? (·.place.text = place.text) =
      some ⟨place, key⟩ := by
  -- On the keys in front of `key`: none of them is a repeat, and all of them are seen afterwards.
  induction before generalizing seen members with
  | nil =>
    cases members with
    | nil => cases hkeys
    | cons e ms =>
      obtain ⟨k, v⟩ := e
      obtain ⟨rfl, -⟩ := List.cons.inj hkeys
      have hseen : seen.contains k = true := by simpa using again
      simp only [repeatsMembers, hseen, ↓reduceIte, List.find?_append,
        find?_repeats_child hplace, Option.none_or]
      simp
  | cons k₁ before ih =>
    cases members with
    | nil => cases hkeys
    | cons e ms =>
      obtain ⟨k, v⟩ := e
      obtain ⟨rfl, hrest⟩ := List.cons.inj hkeys
      obtain ⟨hk, hfresh⟩ := List.nodup_cons.mp fresh
      have hseen : seen.contains k = false := by simpa using hnew k List.mem_cons_self
      have hnew' : ∀ k' ∈ before, k' ∉ k :: seen := by
        intro k' hk' hmem
        rcases List.mem_cons.mp hmem with rfl | hmem
        · exact hk hk'
        · exact hnew k' (List.mem_cons_of_mem _ hk') hmem
      have again' : key ∈ k :: seen ∨ key ∈ before := by
        rcases again with h | h
        · exact Or.inl (List.mem_cons_of_mem _ h)
        · rcases List.mem_cons.mp h with rfl | h
          · exact Or.inl List.mem_cons_self
          · exact Or.inr h
      simp only [repeatsMembers, hseen, Bool.false_eq_true, ↓reduceIte, List.append_nil,
        List.find?_append, find?_repeats_child hplace, Option.none_or]
      exact ih hrest hfresh hnew' again'

theorem find?_repeats_object (hplace : place.text ≠ "")
    (h : FirstRepeated (Entries.keys members) key) :
    ((object members).repeats place).find? (·.place.text = place.text) = some ⟨place, key⟩ := by
  generalize hkeys : Entries.keys members = keys at h
  cases h with
  | split fresh again =>
    exact find?_repeatsMembers hplace hkeys fresh (fun _ _ => List.not_mem_nil) (Or.inr again)

end Json

namespace Kind
variable {k : Kind} {x : Json} {ms inner : Entries Json} {rules : NamingRules}

/-- The value is acceptable in the first field of a kind whose second field is a map: a name that
the rules allow, or removals of which none is empty. -/
inductive AcceptsFirst (rules : NamingRules) : Kind → Json → Prop where
  | name {name : String} (allowed : rules.Allows name) :
    AcceptsFirst rules .createDatabase (.string name)
  | removals {removals : List String} (named : ∀ k ∈ removals, k ≠ "") :
    AcceptsFirst rules .alterDatabase (.array (removals.map .string))

theorem AcceptsFirst.collapse (h : k.AcceptsFirst rules x) : x.collapse = x := by
  cases h with
  | name => rw [Json.collapse_string]
  | removals => simp

theorem AcceptsFirst.not_repeatsKey (h : k.AcceptsFirst rules x) : ¬x.RepeatsKey := by
  have hcollapse := h.collapse
  cases h with
  | name => exact Json.not_repeatsKey_of_text hcollapse
  | removals => exact Json.not_repeatsKey_of_texts hcollapse

/-- The members `ms` of a body of the kind give both fields once, in the first an acceptable value
and in the second an object with the members `inner`. -/
structure MapBody (k : Kind) (rules : NamingRules) (inner ms : Entries Json) : Prop where
  fields : ∀ name, name ∈ Entries.keys ms ↔ name ∈ k.fields
  first : ∃ x, (k.first, x) ∈ ms ∧ k.AcceptsFirst rules x
  first_once : (Entries.keys ms).count k.first = 1
  map : (k.second, .object inner) ∈ ms
  map_once : (Entries.keys ms).count k.second = 1

theorem MapBody.keys_nodup (h : k.MapBody rules inner ms) : (Entries.keys ms).Nodup := by
  rw [List.nodup_iff_count_le_one]
  intro name
  by_cases hm : name ∈ Entries.keys ms
  · rcases mem_fields.mp ((h.fields name).mp hm) with rfl | rfl
    · exact h.first_once.le
    · exact h.map_once.le
  · rw [List.count_eq_zero.mpr hm]
    exact Nat.zero_le 1

/-- All that such a body repeats, it repeats in the map. -/
theorem MapBody.repeats (h : k.MapBody rules inner ms) :
    (Json.object ms).repeats [] = (Json.object inner).repeats (.ofKey k.second) := by
  obtain ⟨x, hx, haccepts⟩ := h.first
  have hfirst (place : Field) : x.repeats place = [] :=
    (Json.repeats_eq_nil_iff x place).mpr haccepts.not_repeatsKey
  have hplace : Field.child [] (.key k.second) = .ofKey k.second := rfl
  have hname : ∀ name ∈ Entries.keys ms, name = k.first ∨ name = k.second := fun name hm =>
    mem_fields.mp ((h.fields name).mp hm)
  rcases Entries.eq_pair_of_nodup k.first_ne.2 h.keys_nodup hname hx h.map with rfl | rfl
  · simp [Json.repeats, Json.repeatsMembers, hfirst, hplace, k.first_ne.2.symm]
  · simp [Json.repeats, Json.repeatsMembers, hfirst, hplace, k.first_ne.2]

end Kind

namespace Scope
variable {s : Scope} {name key : String}

/-- A repeat in a map is blamed before its values are looked at. -/
theorem textMap_of_repeat {members : Entries Json} (hv : s.value name = .ok (.object members))
    (hr : s.firstRepeat? (s.field name) = some key) :
    s.textMap name = .error ⟨s.field name, .duplicateKey key⟩ := by
  simp only [textMap, hv, bind, Except.bind, hr]

end Scope

namespace Request
variable {rules : NamingRules} {k : Kind} {x : Json} {ms inner : Entries Json} {s : Scope}
  {v : Violation}

/-- Behind an acceptable first field, a fault of the map is the fault of the body. -/
theorem ofScope_of_textMap (hx : k.AcceptsFirst rules x) (hfirst : s.value k.first = .ok x)
    (hmap : s.textMap k.second = .error v) : ofScope rules s k = .error v := by
  cases hx with
  | @name name allowed =>
    have hname : s.text "name" = .ok name := Scope.text_eq_ok.mpr (Scope.value_eq_ok.mp hfirst)
    have hcheck : rules.check (s.field "name") name = .ok () :=
      NamingRules.check_eq_ok.mpr (NamingRules.breach_eq_none.mpr allowed)
    have hproperties : s.textMap "properties" = .error v := hmap
    simp only [ofScope, hname, hcheck, hproperties, bind, Except.bind]
  | @removals removals named =>
    have hlist : s.textList "removals" = .ok removals :=
      Scope.textList_eq_ok.mpr (Scope.value_eq_ok.mp hfirst)
    have hnamed : AlterDatabase.emptyRemoval? removals = none :=
      AlterDatabase.emptyRemoval_eq_none named
    have hupdates : s.textMap "updates" = .error v := hmap
    simp only [ofScope, hlist, hnamed, hupdates, bind, Except.bind]

/-- In a text that gives an acceptable first field once and the map once, a map that repeats a key is
blamed for the first key that is given again in it, whatever its values are, and whatever is repeated
behind it or inside the values. -/
theorem map_blamed_for_first_repeat (k : Kind) (rules : NamingRules) (inner ms : Entries Json)
    (source : Json.Source) (ht : Json.IsText (.object ms) source) (hb : k.MapBody rules inner ms)
    (hr : ¬(Entries.keys inner).Nodup) :
    ∃ key, FirstRepeated (Entries.keys inner) key ∧
      ofSource rules source = .error (.violation ⟨.ofKey k.second, .duplicateKey key⟩) := by
  obtain ⟨key, hkey⟩ := exists_firstRepeated hr
  refine ⟨key, hkey, ?_⟩
  obtain ⟨x, hx, haccepts⟩ := hb.first
  obtain ⟨members, hread, hvalue⟩ := ofSource_eq_ofScope rules ht hb.fields
  let body : Scope := ⟨[], members, (Json.object ms).repeats []⟩
  have hfirst : body.value k.first = .ok x := by
    rw [hvalue k.first x hb.first_once hx, haccepts.collapse]
  have hmap : body.value k.second = .ok (Json.object inner).collapse :=
    hvalue k.second (.object inner) hb.map_once hb.map
  have hplace : (Field.ofKey k.second).text ≠ "" := by cases k <;> decide
  have hrepeat : body.firstRepeat? (.ofKey k.second) = some key := by
    simp only [Scope.firstRepeat?, body, hb.repeats, Json.find?_repeats_object hplace hkey,
      Option.map_some]
  have hblamed : body.textMap k.second = .error ⟨.ofKey k.second, .duplicateKey key⟩ := by
    rw [Json.collapse_object] at hmap
    exact Scope.textMap_of_repeat hmap hrepeat
  rw [hread, ofScope_of_textMap haccepts hfirst hblamed]
  rfl

/-- Of its own keys the map repeats two; another is repeated inside its first value. -/
def repeatingProperties : Entries Json :=
  [("a", .object [("b", .string ""), ("b", .string "")]), ("b", .array []), ("a", .string ""),
    ("b", .string "")]

def repeatingText : String :=
  "\x7b\"properties\":\x7b\"a\":\x7b\"b\":\"\",\"b\":\"\"\x7d,\"b\":[],\"a\":\"\",\"b\":\"\"\x7d,"
    ++ "\"name\":\"c\"\x7d"

theorem repeatingText_blamed :
    Json.IsText (.object [("properties", .object repeatingProperties), ("name", .string "c")])
        (.ofText repeatingText) ∧
      Kind.createDatabase.MapBody {} repeatingProperties
        [("properties", .object repeatingProperties), ("name", .string "c")] ∧
      ¬(Entries.keys repeatingProperties).Nodup ∧
      ∃ key, FirstRepeated (Entries.keys repeatingProperties) key ∧
        ofSource {} (.ofText repeatingText) =
          .error (.violation ⟨.ofKey "properties", .duplicateKey key⟩) := by
  have ht : Json.IsText
      (.object [("properties", .object repeatingProperties), ("name", .string "c")])
      (.ofText repeatingText) := Json.parseTree_eq_ok.mp (by cbv)
  have hname : Kind.createDatabase.AcceptsFirst {} (.string "c") :=
    .name (NamingRules.breach_eq_none.mp (by decide))
  have hb : Kind.createDatabase.MapBody {} repeatingProperties
      [("properties", .object repeatingProperties), ("name", .string "c")] :=
    { fields := by simp [Entries.keys, Kind.fields, or_comm]
      first := ⟨_, .tail _ (.head _), hname⟩
      first_once := by decide
      map := .head _
      map_once := by decide }
  have hr : ¬(Entries.keys repeatingProperties).Nodup := by decide
  exact ⟨ht, hb, hr, map_blamed_for_first_repeat .createDatabase {} _ _ _ ht hb hr⟩

example : ofSource {} (.ofText
    "\x7b\"removals\":[],\"updates\":\x7b\"b\":[],\"a\":\"\",\"a\":[],\"b\":\"\"\x7d\x7d") =
      .error (.violation ⟨.ofKey "updates", .duplicateKey "a"⟩) := by cbv

end Request
end Catalog
