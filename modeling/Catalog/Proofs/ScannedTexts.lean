import Catalog.Proofs.OnePass
import Catalog.Proofs.RepeatEnds

/-! What a scan gives of a text. The grammar says which sources are texts, and of which trees; the
value of a tree is told member by member, by the last of repeated keys; and the log of its repeats
is told by where the members of the text end. The scan gives this value and this log, and so does
one pass over the text. -/

namespace Catalog

namespace Entries
variable {α : Type} {k : String} {v : α} {l before after : Entries α}

/-- A key that is given has a last entry. -/
theorem exists_last_of_mem_keys (h : k ∈ keys l) :
    ∃ before v after, l = before ++ (k, v) :: after ∧ k ∉ keys after := by
  induction l using List.reverseRecOn with
  | nil => cases h
  | append_singleton l e ih =>
    obtain ⟨k₁, v₁⟩ := e
    by_cases hk : k = k₁
    · subst hk
      exact ⟨l, v₁, [], rfl, List.not_mem_nil⟩
    · have hmem : k ∈ keys l := by simpa [keys, hk] using h
      obtain ⟨before, v, after, rfl, hafter⟩ := ih hmem
      refine ⟨before, v, after ++ [(k₁, v₁)], by simp, ?_⟩
      have hsplit : keys (after ++ [(k₁, v₁)]) = keys after ++ [k₁] := List.map_append
      rw [hsplit, List.mem_append, List.mem_singleton]
      exact not_or.mpr ⟨hafter, hk⟩

/-- The last entry of a key is the one that collecting keeps. -/
theorem lookup_collect_last (h : k ∉ keys after) :
    (collect (before ++ (k, v) :: after)).lookup k = some v := by
  have hnone : after.reverse.lookup k = none := by
    rw [← Option.not_isSome_iff_eq_none, ← mem_keys_iff, keys, List.map_reverse, List.mem_reverse]
    exact h
  rw [lookup_collect, List.reverse_append, List.reverse_cons, List.lookup_append,
    List.lookup_append, hnone]
  simp

end Entries

namespace Json

/-- The value that a tree stands for. An array has the values of its items. An object has its keys
in order, each with the value of the last member that gives it. -/
inductive StandsFor : Json → Json → Prop where
  | null : StandsFor .null .null
  | bool (b : Bool) : StandsFor (.bool b) (.bool b)
  | number (n : Number) : StandsFor (.number n) (.number n)
  | string (s : String) : StandsFor (.string s) (.string s)
  | array {vs ws : List Json} (length : vs.length = ws.length)
    (items : ∀ (i : Nat) (v w : Json), vs[i]? = some v → ws[i]? = some w → StandsFor v w) :
    StandsFor (.array vs) (.array ws)
  | object {ms ns : Entries Json} (ordered : ns.Ordered)
    (keys : ∀ k, k ∈ Entries.keys ns ↔ k ∈ Entries.keys ms)
    (last : ∀ before k v after w, ms = before ++ (k, v) :: after → k ∉ Entries.keys after →
      (k, w) ∈ ns → StandsFor v w) : StandsFor (.object ms) (.object ns)

theorem standsFor_collapse (t : Json) : t.StandsFor t.collapse := by
  induction t using Json.induction with
  | null => exact .null
  | bool b => exact .bool b
  | number n => exact .number n
  | string s => exact .string s
  | array items ih =>
    rw [collapse_array]
    refine .array (List.length_map _).symm fun i v w hv hw => ?_
    rw [List.getElem?_map, hv, Option.map_some, Option.some.injEq] at hw
    rw [← hw]
    exact ih v (List.mem_of_getElem? hv)
  | object members ih =>
    have hordered := Entries.ordered_collect members
    rw [collapse_object]
    refine .object (Entries.ordered_map.mpr hordered) (fun k => ?_) ?_
    · rw [Entries.keys_map_keyed fun _ => collapse, Entries.mem_keys_collect]
    · rintro before k v after w rfl hafter hw
      obtain ⟨e, hmem, he⟩ := List.mem_map.mp hw
      obtain ⟨hkey, rfl⟩ := Prod.mk.inj he
      have hlookup := hordered.mem_iff.mp hmem
      rw [hkey, Entries.lookup_collect_last hafter, Option.some.injEq] at hlookup
      rw [← hlookup]
      exact ih (k, v) (by simp)

/-- A tree stands for one value. -/
theorem StandsFor.eq_collapse {t v : Json} (h : t.StandsFor v) : v = t.collapse := by
  induction h with
  | null | bool | number | string => rfl
  | @array vs ws length items ih =>
    rw [collapse_array, array.injEq]
    apply List.ext_getElem
    · rw [List.length_map, length]
    · intro i hi hi'
      have hvs : i < vs.length := length ▸ hi
      rw [List.getElem_map]
      exact ih i _ _ (List.getElem?_eq_getElem hvs) (List.getElem?_eq_getElem hi)
  | @object ms ns ordered keys last ih =>
    rw [collapse_object, object.injEq]
    apply ordered.ext (Entries.ordered_map.mpr (Entries.ordered_collect ms))
    intro k
    rw [Entries.lookup_map_keyed fun _ => collapse]
    by_cases hk : k ∈ Entries.keys ms
    · obtain ⟨before, v, after, hms, hafter⟩ := Entries.exists_last_of_mem_keys hk
      obtain ⟨w, hw⟩ := Option.isSome_iff_exists.mp (Entries.mem_keys_iff.mp ((keys k).mpr hk))
      have hvalue : w = v.collapse := ih before k v after w hms hafter (Entries.mem_of_lookup hw)
      rw [hw, hms, Entries.lookup_collect_last hafter, Option.map_some, hvalue]
    · have hns : ns.lookup k = none := by
        rw [← Option.not_isSome_iff_eq_none, ← Entries.mem_keys_iff, keys]
        exact hk
      have hcollect : (Entries.collect ms).lookup k = none := by
        rw [← Option.not_isSome_iff_eq_none, ← Entries.mem_keys_iff, Entries.mem_keys_collect]
        exact hk
      rw [hns, hcollect, Option.map_none]

theorem scan_eq_ok {s : Source} {r : Scanned} :
    scan s = .ok r ↔ ∃ t, IsText t s ∧ .ofTree t = r := by
  simp only [scan, map_eq_ok, parseTree_eq_ok]

theorem parse_eq_ok {s : Source} {v : Json} :
    parse s = .ok v ↔ ∃ t, IsText t s ∧ t.collapse = v := by
  simp only [parse, map_eq_ok, parseTree_eq_ok]

/-- What is kept of a text is told by the grammar. -/
theorem scan_eq_ok_iff_logOf {s : Source} {r : Scanned} :
    scan s = .ok r ↔ ∃ t, IsText t s ∧ t.StandsFor r.value ∧ LogOf t s r.repeats := by
  rw [scan_eq_ok]
  constructor
  · rintro ⟨t, ht, rfl⟩
    exact ⟨t, ht, standsFor_collapse t, logOf_repeats ht⟩
  · rintro ⟨t, ht, hvalue, hlog⟩
    have hrepeats : t.repeats [] = r.repeats := (logOf_repeats ht).unique hlog
    refine ⟨t, ht, ?_⟩
    rw [Scanned.ofTree, hrepeats, ← hvalue.eq_collapse]

/-- A source is scanned exactly when it is parsed, and then for the same value. What is kept of it
is fixed by its text: the value has at every depth the last of repeated keys, and the log has one
entry for each member that gives a key of its object again, also where the value around it is
overwritten later, in the order in which these members end. One pass over the source gives the same
value and log, or fails alike. The log is empty exactly when no object of the text repeats a key. -/
theorem scan_value_and_log (s : Source) :
    scan s = scanOnce s ∧
      (∀ v, parse s = .ok v ↔ ∃ log, scan s = .ok ⟨v, log⟩) ∧
      (∀ r, scan s = .ok r ↔ ∃ t, IsText t s ∧ t.StandsFor r.value ∧ LogOf t s r.repeats) ∧
      ∀ r, scan s = .ok r → (r.repeats = [] ↔ ∀ t, IsText t s → ¬t.RepeatsKey) := by
  refine ⟨scan_eq_scanOnce s, fun v => ?_, fun r => scan_eq_ok_iff_logOf, ?_⟩
  · rw [parse_eq_ok]
    constructor
    · rintro ⟨t, ht, rfl⟩
      exact ⟨t.repeats [], scan_eq_ok.mpr ⟨t, ht, rfl⟩⟩
    · rintro ⟨log, hscan⟩
      obtain ⟨t, ht, he⟩ := scan_eq_ok.mp hscan
      exact ⟨t, ht, congrArg Scanned.value he⟩
  · intro r hscan
    obtain ⟨t, ht, rfl⟩ := scan_eq_ok.mp hscan
    have hempty : t.repeats [] = [] ↔ ¬t.RepeatsKey := repeats_eq_nil_iff t []
    constructor
    · intro hnone t' ht'
      rw [ht'.unique ht]
      exact hempty.mp hnone
    · intro hall
      exact hempty.mpr (hall t ht)

/-- A key that is given three times, and a repeat in a value that is overwritten. -/
example : (scan (.ofText
    "\x7b\"a\":[\x7b\"x\":[],\"x\":[],\"x\":[]\x7d],\"a\":\"\"\x7d")).map Scanned.repeats =
      .ok [⟨[.key "a", .index 0], "x"⟩, ⟨[.key "a", .index 0], "x"⟩, ⟨[], "a"⟩] := by cbv

end Json
end Catalog
