import Mathlib.Data.List.Permutation
import Catalog.Proofs.Bodies

/-! Repeated keys. What a text repeats is kept beside its value; nothing is kept exactly when no
object repeats a key. A body that repeats a key anywhere is never read as a request, since every
object that a reader accepts is asked for its repeats. -/

namespace Catalog
namespace Json

/-- Some object of the tree has a key more than once. -/
inductive RepeatsKey : Json → Prop where
  | here {members : Entries Json} (h : ¬(Entries.keys members).Nodup) : RepeatsKey (.object members)
  | member {members : Entries Json} {e : String × Json} (h : e ∈ members) (hr : RepeatsKey e.2) :
    RepeatsKey (.object members)
  | item {items : List Json} {v : Json} (h : v ∈ items) (hr : RepeatsKey v) :
    RepeatsKey (.array items)

theorem repeatsKey_object {members : Entries Json} :
    (object members).RepeatsKey ↔
      ¬(Entries.keys members).Nodup ∨ ∃ e ∈ members, e.2.RepeatsKey := by
  constructor
  · intro h
    cases h with
    | here h => exact Or.inl h
    | member h hr => exact Or.inr ⟨_, h, hr⟩
  · rintro (h | ⟨e, h, hr⟩)
    · exact .here h
    · exact .member h hr

theorem repeatsKey_array {items : List Json} :
    (array items).RepeatsKey ↔ ∃ v ∈ items, v.RepeatsKey := by
  constructor
  · intro h
    cases h with
    | item h hr => exact ⟨_, h, hr⟩
  · rintro ⟨v, h, hr⟩
    exact .item h hr

theorem not_repeatsKey_string (s : String) : ¬(string s).RepeatsKey := by
  intro h
  cases h

theorem mem_repeatsMembers_of_member {place : Field} {seen : List String} {members : Entries Json}
    {e : String × Json} {r : Repeat} (he : e ∈ members)
    (hr : r ∈ e.2.repeats (place.child (.key e.1))) : r ∈ repeatsMembers place seen members := by
  induction members generalizing seen with
  | nil => simp at he
  | cons e' ms ih =>
    obtain ⟨k, v⟩ := e'
    simp only [repeatsMembers, List.mem_append]
    rcases List.mem_cons.mp he with rfl | he
    · exact Or.inl (Or.inl hr)
    · exact Or.inr (ih he)

/-- Where no member is kept as a repeat, the keys are new and all different. -/
theorem nodup_of_repeatsMembers {place : Field} {seen : List String} {members : Entries Json}
    (h : ∀ k ∈ Entries.keys members, ⟨place, k⟩ ∉ repeatsMembers place seen members) :
    (Entries.keys members).Nodup ∧ ∀ k ∈ Entries.keys members, k ∉ seen := by
  induction members generalizing seen with
  | nil => simp [Entries.keys]
  | cons e ms ih =>
    obtain ⟨k, v⟩ := e
    simp only [repeatsMembers, List.mem_append, not_or] at h
    have hk : k ∉ seen := by
      intro hk
      have hn := (h k List.mem_cons_self).1.2
      simp [hk] at hn
    obtain ⟨hnd, hs⟩ := ih fun k' hk' => (h k' (List.mem_cons_of_mem _ hk')).2
    refine ⟨List.nodup_cons.mpr ⟨fun hk' => hs k hk' List.mem_cons_self, hnd⟩, ?_⟩
    intro k' hk'
    rcases List.mem_cons.mp hk' with rfl | hk'
    · exact hk
    · exact fun hm => hs k' hk' (List.mem_cons_of_mem _ hm)

theorem repeatsMembers_eq_nil {place : Field} {seen : List String} {members : Entries Json}
    (hn : (Entries.keys members).Nodup) (hs : ∀ k ∈ Entries.keys members, k ∉ seen)
    (hv : ∀ e ∈ members, ∀ place, e.2.repeats place = []) :
    repeatsMembers place seen members = [] := by
  induction members generalizing seen with
  | nil => rfl
  | cons e ms ih =>
    obtain ⟨k, v⟩ := e
    have ht : k ∉ Entries.keys ms ∧ (Entries.keys ms).Nodup := List.nodup_cons.mp hn
    have hk : seen.contains k = false := by
      simpa using hs k List.mem_cons_self
    have hrest : repeatsMembers place (k :: seen) ms = [] := by
      apply ih ht.2 _ fun e he => hv e (List.mem_cons_of_mem _ he)
      intro k' hk' hm
      rcases List.mem_cons.mp hm with rfl | hm
      · exact ht.1 hk'
      · exact hs k' (List.mem_cons_of_mem _ hk') hm
    have hhead : v.repeats (place.child (.key k)) = [] := hv (k, v) List.mem_cons_self _
    simp only [repeatsMembers, hhead, hk, hrest, Bool.false_eq_true, ↓reduceIte, List.append_nil]

theorem repeatsItems_eq_nil {place : Field} {i : Nat} {items : List Json} :
    repeatsItems place i items = [] ↔
      ∀ j (h : j < items.length), (items[j]).repeats (place.child (.index (i + j))) = [] := by
  induction items generalizing i with
  | nil => simp [repeatsItems]
  | cons v vs ih =>
    simp only [repeatsItems, List.append_eq_nil_iff, ih]
    constructor
    · rintro ⟨hv, hvs⟩ j hj
      cases j with
      | zero => exact hv
      | succ j =>
        have hlt : j < vs.length := by simpa using hj
        simpa [Nat.add_assoc, Nat.add_comm 1] using hvs j hlt
    · intro h
      refine ⟨h 0 (by simp), ?_⟩
      intro j hj
      have hlt : j + 1 < (v :: vs).length := by simpa using hj
      simpa [Nat.add_assoc, Nat.add_comm 1] using h (j + 1) hlt

/-- Repeats are kept exactly of the trees that repeat a key. -/
theorem repeats_eq_nil_iff (v : Json) : ∀ place, v.repeats place = [] ↔ ¬v.RepeatsKey := by
  induction v using Json.induction with
  | null | bool | number | string =>
    intro place
    simp only [repeats, true_iff]
    intro h
    cases h
  | array items ih =>
    intro place
    rw [repeats, repeatsItems_eq_nil, repeatsKey_array]
    constructor
    · rintro h ⟨v, hv, hr⟩
      obtain ⟨j, hj, rfl⟩ := List.getElem_of_mem hv
      exact (ih _ hv _).mp (h j hj) hr
    · intro h j hj
      exact (ih _ (List.getElem_mem hj) _).mpr fun hr => h ⟨_, List.getElem_mem hj, hr⟩
  | object members ih =>
    intro place
    rw [repeats, repeatsKey_object, not_or, Decidable.not_not]
    constructor
    · intro h
      have hnone : ∀ r, r ∉ repeatsMembers place [] members := by simp [h]
      refine ⟨(nodup_of_repeatsMembers fun k _ => hnone ⟨place, k⟩).1, ?_⟩
      rintro ⟨e, he, hr⟩
      refine (ih e he (place.child (.key e.1))).mp ?_ hr
      apply List.eq_nil_iff_forall_not_mem.mpr
      exact fun r hm => hnone r (mem_repeatsMembers_of_member he hm)
    · rintro ⟨hn, hv⟩
      apply repeatsMembers_eq_nil hn (by simp)
      exact fun e he p => (ih e he p).mpr fun hr => hv ⟨e, he, hr⟩

/-- A tree that repeats no key is scanned as its value. -/
theorem ofTree_eq_ofValue {t : Json} (h : ¬t.RepeatsKey) : Scanned.ofTree t = .ofValue t := by
  rw [Scanned.ofTree, (repeats_eq_nil_iff t []).mpr h, Scanned.ofValue]

/-- A value repeats no key. -/
theorem not_repeatsKey_collapse (v : Json) : ¬v.collapse.RepeatsKey := by
  induction v using Json.induction with
  | null | bool | number | string =>
    intro h
    cases h
  | array items ih =>
    rw [collapse_array, repeatsKey_array]
    rintro ⟨v, hv, hr⟩
    obtain ⟨w, hw, rfl⟩ := List.mem_map.mp hv
    exact ih w hw hr
  | object members ih =>
    have hn := (Entries.ordered_map (f := collapse)).mpr (Entries.ordered_collect members)
    rw [collapse_object, repeatsKey_object]
    rintro (h | ⟨e, he, hr⟩)
    · exact h hn.keys_nodup
    · obtain ⟨e', hm, rfl⟩ := List.mem_map.mp he
      exact ih e' (Entries.mem_of_mem_collect hm) hr

/-- An object does not repeat a key if none of its own keys is kept as a repeat and no value that
stays in its collapsed members repeats one. -/
theorem not_repeatsKey_object {place : Field} {ms members : Entries Json}
    (hc : (object ms).collapse = .object members)
    (hk : ∀ k ∈ Entries.keys members, ⟨place, k⟩ ∉ (object ms).repeats place)
    (hv : ∀ e ∈ ms, (e.1, e.2.collapse) ∈ members → ¬e.2.RepeatsKey) :
    ¬(object ms).RepeatsKey := by
  rw [collapse_object, object.injEq] at hc
  -- Collapsing keeps every key, so none is repeated; hence it keeps every member too.
  have hkeys : ∀ k, k ∈ Entries.keys members ↔ k ∈ Entries.keys ms := by
    intro k
    rw [← hc, ← Entries.mem_keys_collect (l := ms)]
    simp [Entries.keys]
  have hn : (Entries.keys ms).Nodup :=
    (nodup_of_repeatsMembers fun k hm => hk k ((hkeys k).mpr hm)).1
  rw [repeatsKey_object]
  rintro (h | ⟨e, he, hr⟩)
  · exact h hn
  · refine hv e he ?_ hr
    rw [← hc]
    exact List.mem_map_of_mem (f := fun e => (e.1, e.2.collapse))
      ((Entries.mem_collect_of_nodup hn).mpr he)

/-- An object of two fields repeats no key if neither field is given twice and neither value repeats
a key. -/
theorem not_repeatsKey_pair {place : Field} {ms : Entries Json} {a b : String} {x y : Json}
    (hc : (object ms).collapse = .object [(a, x), (b, y)])
    (ha : ⟨place, a⟩ ∉ (object ms).repeats place) (hb : ⟨place, b⟩ ∉ (object ms).repeats place)
    (hx : ∀ v, (a, v) ∈ ms → v.collapse = x → ¬v.RepeatsKey)
    (hy : ∀ v, (b, v) ∈ ms → v.collapse = y → ¬v.RepeatsKey) : ¬(object ms).RepeatsKey := by
  apply not_repeatsKey_object hc
  · intro k hk
    have hk' : k = a ∨ k = b := by simpa [Entries.keys] using hk
    rcases hk' with rfl | rfl
    · exact ha
    · exact hb
  · rintro ⟨k, v⟩ he hm
    simp only [List.mem_cons, Prod.mk.injEq, List.not_mem_nil, or_false] at hm
    rcases hm with ⟨rfl, hv⟩ | ⟨rfl, hv⟩
    · exact hx v he hv
    · exact hy v he hv

theorem not_repeatsKey_of_text {v : Json} {t : String} (h : v.collapse = .string t) :
    ¬v.RepeatsKey := by
  rw [collapse_eq_string.mp h]
  exact not_repeatsKey_string t

theorem not_repeatsKey_of_texts {v : Json} {l : List String} (h : v.collapse = .array (l.map .string)) :
    ¬v.RepeatsKey := by
  cases v with
  | array items =>
    rw [collapse_array, array.injEq] at h
    rw [repeatsKey_array]
    rintro ⟨x, hx, hr⟩
    have hm : x.collapse ∈ l.map .string := h ▸ List.mem_map_of_mem hx
    obtain ⟨t, -, ht⟩ := List.mem_map.mp hm
    exact not_repeatsKey_of_text ht.symm hr
  | _ => simp at h

end Json

namespace Scope
variable {s : Scope} {ms : Entries Json} {name : String}

/-- The scope holds the value of the object with the members `ms`, and knows of all that the object
repeats. -/
structure Covers (s : Scope) (ms : Entries Json) : Prop where
  value : (Json.object ms).collapse = .object s.members
  repeats : ∀ r ∈ (Json.object ms).repeats s.place, r ∈ s.repeats

theorem Covers.of_once (h : s.Covers ms) (ho : s.Once name) :
    ⟨s.place, name⟩ ∉ (Json.object ms).repeats s.place :=
  fun hr => ho _ (h.repeats _ hr) rfl rfl

theorem Covers.inside (h : s.Covers ms) {ns members : Entries Json}
    (hm : (name, Json.object ns) ∈ ms) (hc : (Json.object ns).collapse = .object members) :
    (s.inside name members).Covers ns :=
  ⟨hc, fun r hr => h.repeats r (Json.mem_repeatsMembers_of_member hm hr)⟩

theorem Covers.ordered (h : s.Covers ms) : s.members.Ordered :=
  Json.ordered_of_collapse h.value

theorem Covers.textMap (h : s.Covers ms) {v : Json} {es : Entries String} (hm : (name, v) ∈ ms)
    (hc : v.collapse = .object (es.map fun e => (e.1, .string e.2)))
    (hu : s.Unrepeated (s.field name)) : ¬v.RepeatsKey := by
  cases v with
  | object ns =>
    have hi := h.inside hm hc
    apply Json.not_repeatsKey_object hc
    · intro k _ hr
      exact hu _ (hi.repeats _ hr) rfl
    · intro e _ he
      obtain ⟨e', -, he'⟩ := List.mem_map.mp he
      exact Json.not_repeatsKey_of_text (Prod.mk.inj he').2.symm
  | _ => simp at hc

theorem Covers.identifier (h : s.Covers ms) {v : Json} {members : Entries Json}
    {database object : String} (hm : (name, v) ∈ ms) (hc : v.collapse = .object members)
    (hk : ∀ k ∈ Entries.keys members, k = "database_name" ∨ k = "object_name")
    (hd : (s.inside name members).text "database_name" = .ok database)
    (ho : (s.inside name members).text "object_name" = .ok object) : ¬v.RepeatsKey := by
  cases v with
  | object ns =>
    have hi := h.inside hm hc
    rw [text_eq_ok] at hd ho
    have he := hi.ordered.eq_pair (by decide) hk hd.2 ho.2
    apply Json.not_repeatsKey_pair (he ▸ hi.value) (hi.of_once hd.1) (hi.of_once ho.1)
    · exact fun v _ hv => Json.not_repeatsKey_of_text hv
    · exact fun v _ hv => Json.not_repeatsKey_of_text hv
  | _ => simp at hc

end Scope

namespace Request
variable {rules : NamingRules}

/-- A request is read only from a text that repeats no key. -/
theorem not_repeatsKey_of_ofScanned {t : Json} {r : Request}
    (h : ofScanned rules (.ofTree t) = .ok r) : ¬t.RepeatsKey := by
  obtain ⟨k, members, hv, hk, h⟩ := ofScanned_eq_ok.mp h
  cases t with
  | object ms =>
    have hs : Scope.Covers ⟨[], members, (Json.object ms).repeats []⟩ ms := ⟨hv, fun _ hr => hr⟩
    -- Each field is asked for its repeats, so both are given once; and what stands under them is of
    -- the shape that its reader accepts.
    cases k with
    | createDatabase =>
      obtain ⟨c, -, hn, hp, -⟩ := ofScope_create_eq_ok.mp h
      obtain ⟨hno, hn⟩ := Scope.text_eq_ok.mp hn
      obtain ⟨hpo, hu, es, hp, -⟩ := Scope.textMap_eq_ok.mp hp
      have he := hs.ordered.eq_pair (by decide) (by simp [hk, Kind.fields]) hn hp
      apply Json.not_repeatsKey_pair (he ▸ hs.value) (hs.of_once hno) (hs.of_once hpo)
      · exact fun v _ hv => Json.not_repeatsKey_of_text hv
      · exact fun v hm hv => hs.textMap hm hv hu
    | alterDatabase =>
      obtain ⟨a, -, hl, hp⟩ := ofScope_alter_eq_ok.mp h
      obtain ⟨hlo, hl⟩ := Scope.textList_eq_ok.mp hl
      obtain ⟨hpo, hu, es, hp, -⟩ := Scope.textMap_eq_ok.mp hp
      have he := hs.ordered.eq_pair (by decide) (by simp [hk, Kind.fields]) hl hp
      apply Json.not_repeatsKey_pair (he ▸ hs.value) (hs.of_once hlo) (hs.of_once hpo)
      · exact fun v _ hv => Json.not_repeatsKey_of_texts hv
      · exact fun v hm hv => hs.textMap hm hv hu
    | renameTable =>
      obtain ⟨t, -, hsrc, hdst⟩ := ofScope_rename_eq_ok.mp h
      obtain ⟨hso, ns, hns, hsk, hsd, hsn⟩ := Scope.identifier_eq_ok.mp hsrc
      obtain ⟨hdo, nd, hnd, hdk, hdd, hdn⟩ := Scope.identifier_eq_ok.mp hdst
      have he := hs.ordered.eq_pair (by decide) (by simp [hk, Kind.fields]) hnd hns
      apply Json.not_repeatsKey_pair (he ▸ hs.value) (hs.of_once hdo) (hs.of_once hso)
      · exact fun v hm hv => hs.identifier hm hv hdk hdd hdn
      · exact fun v hm hv => hs.identifier hm hv hsk hsd hsn
  | _ => simp [Json.Scanned.ofTree] at hv

theorem ofSource_eq_ofScanned {s : Json.Source} {t : Json} (h : Json.parseTree s = .ok t) :
    ofSource rules s = ofScanned rules (.ofTree t) := by
  simp [ofSource, Json.scan, h, Except.map]

/-- Without repeated keys a text is read like its value. With a repeated key anywhere it is never
read: it is a mismatch if its fields are those of no kind, and else some place is blamed. -/
theorem ofSource_refuses_repeats (rules : NamingRules) (s : Json.Source) (t : Json)
    (h : Json.parseTree s = .ok t) :
    Json.parse s = .ok t.collapse ∧
      (¬t.RepeatsKey → ofSource rules s = ofValue rules t.collapse) ∧
      (t.RepeatsKey → (¬∃ k : Kind, k.Fits t) → ∃ m, ofSource rules s = .error (.mismatch m)) ∧
      (t.RepeatsKey → (∃ k : Kind, k.Fits t) → ∃ v, ofSource rules s = .error (.violation v)) := by
  refine ⟨by simp [Json.parse, h, Except.map], ?_, ?_, ?_⟩
  · intro hn
    rw [ofSource_eq_ofScanned h, Json.ofTree_eq_ofValue hn, ofValue, Json.Scanned.ofValue,
      Json.Scanned.ofValue, Json.collapse_collapse]
  · intro _ hf
    rw [ofSource_eq_ofScanned h]
    exact ofScanned_of_not_fits hf _
  · rintro hr ⟨k, hf⟩
    rw [ofSource_eq_ofScanned h]
    rcases ofScanned_of_fits hf (t.repeats []) with ⟨r, hok⟩ | hv
    · exact absurd hr (not_repeatsKey_of_ofScanned hok)
    · exact hv

/-- A body whose updates give a key twice, with a repeat of its own in the value that is lost. -/
def overwrittenText : String :=
  "\x7b\"removals\":[],\"updates\":\x7b\"a\":\x7b\"x\":\"\",\"x\":\"\"\x7d,\"a\":\"1\"\x7d\x7d"

def overwrittenTree : Json :=
  .object [("removals", .array []), ("updates", .object [
    ("a", .object [("x", .string ""), ("x", .string "")]), ("a", .string "1")])]

theorem ofSource_refuses_overwritten_repeat :
    Json.parseTree (.ofText overwrittenText) = .ok overwrittenTree ∧ overwrittenTree.RepeatsKey ∧
      ∃ v, ofSource {} (.ofText overwrittenText) = .error (.violation v) := by
  have hread : Json.parseTree (.ofText overwrittenText) = .ok overwrittenTree := by cbv
  have hfits : Kind.alterDatabase.Fits overwrittenTree := ⟨_, rfl, by simp [Entries.keys, Kind.fields]⟩
  have hrepeats : overwrittenTree.RepeatsKey :=
    .member (.tail _ (.head _)) (.here (by simp [Entries.keys]))
  exact ⟨hread, hrepeats,
    (ofSource_refuses_repeats {} _ _ hread).2.2.2 hrepeats ⟨.alterDatabase, hfits⟩⟩

end Request
end Catalog
