import Mathlib.Data.List.Forall2
import Mathlib.Data.Set.List
import Catalog.Proofs.RepeatedKeys

/-! The trees that spell a value: they repeat no key, and their objects may have their members in
any order. What spells the parts of a value spells the whole, and the bodies that are read as a
request are the spellings of its encoding. -/

namespace Catalog

/-- With two keys that each occur once, a list is one of the two orders of two entries. -/
theorem Entries.eq_pair_of_nodup {α : Type} {l : Entries α} {a b : String} {x y : α} (hab : a ≠ b)
    (hn : l.keys.Nodup) (hk : ∀ k ∈ l.keys, k = a ∨ k = b) (ha : (a, x) ∈ l) (hb : (b, y) ∈ l) :
    l = [(a, x), (b, y)] ∨ l = [(b, y), (a, x)] := by
  have hp : [(a, x), (b, y)].Nodup := by simp [hab]
  have hl : l.Nodup := hn.of_map _
  apply List.perm_pair.mp
  apply (List.perm_ext_iff_of_nodup hl hp).mpr
  intro e
  constructor
  · intro he
    have hv := lookup_of_mem hn he
    rcases hk e.1 (mem_keys_of_mem he) with h | h
    · rw [h, lookup_of_mem hn ha] at hv
      exact List.mem_cons.mpr (Or.inl (Prod.ext h (Option.some.inj hv).symm))
    · rw [h, lookup_of_mem hn hb] at hv
      exact List.mem_cons_of_mem _ (List.mem_singleton.mpr (Prod.ext h (Option.some.inj hv).symm))
  · intro he
    rcases List.mem_cons.mp he with rfl | he
    · exact ha
    · rw [List.mem_singleton.mp he]
      exact hb

namespace Json

/-- The tree stands for the same value as `v`, and repeats no key. -/
structure Spells (t v : Json) : Prop where
  collapse : t.collapse = v.collapse
  fresh : ¬t.RepeatsKey

theorem spells_string {t : Json} {s : String} : t.Spells (.string s) ↔ t = .string s := by
  constructor
  · intro h
    exact collapse_eq_string.mp h.collapse
  · rintro rfl
    exact ⟨rfl, not_repeatsKey_string s⟩

theorem spells_array {t : Json} {ws : List Json} :
    t.Spells (.array ws) ↔ ∃ vs, t = .array vs ∧ List.Forall₂ Spells vs ws := by
  constructor
  · intro h
    cases t with
    | array vs =>
      have hmap : vs.map Json.collapse = ws.map Json.collapse := by
        simpa using h.collapse
      have hcollapse : List.Forall₂ (fun v w => v.collapse = w.collapse) vs ws := by
        rwa [← List.forall₂_eq_eq_eq, List.forall₂_map_left_iff, List.forall₂_map_right_iff] at hmap
      have hfresh : ∀ v ∈ vs, ¬v.RepeatsKey := fun v hv hr => h.fresh (.item hv hr)
      refine ⟨vs, rfl, ?_⟩
      rw [List.forall₂_iff_get] at hcollapse ⊢
      refine ⟨hcollapse.1, fun i hi hi' => ⟨hcollapse.2 i hi hi', ?_⟩⟩
      exact hfresh _ (List.get_mem vs ⟨i, hi⟩)
    | _ => simpa using h.collapse
  · rintro ⟨vs, rfl, h⟩
    constructor
    · rw [collapse_array, collapse_array, array.injEq, ← List.forall₂_eq_eq_eq,
        List.forall₂_map_left_iff, List.forall₂_map_right_iff]
      exact h.imp fun _ _ hs => hs.collapse
    · rw [repeatsKey_array]
      rintro ⟨v, hv, hr⟩
      obtain ⟨i, hi, rfl⟩ := List.getElem_of_mem hv
      have hlt : i < ws.length := h.length_eq ▸ hi
      exact (h.get hi hlt).fresh hr

/-- A map of texts is spelled by an object of texts that gives each key once. -/
theorem spells_ofTexts {t : Json} {m : KeyMap String} :
    t.Spells (.ofTexts m) ↔ ∃ es : Entries String,
      t = .object (es.map fun e => (e.1, .string e.2)) ∧ es.keys.Nodup ∧
        KeyMap.ofEntries es = m := by
  have hkeys (es : Entries String) :
      Entries.keys (es.map fun e => (e.1, string e.2)) = es.keys :=
    Entries.keys_map_keyed (fun _ => string) es
  constructor
  · intro h
    have hc := h.collapse
    rw [collapse_ofTexts] at hc
    cases t with
    | object ms =>
      have hn : (Entries.keys ms).Nodup := by
        by_contra hn
        exact h.fresh (.here hn)
      rw [collapse_object, ofTexts, object.injEq] at hc
      -- No key is repeated, so every member stays when the object is collapsed; there it is a text.
      have hrange : ms ∈ Set.range (List.map fun e : String × String => (e.1, string e.2)) := by
        rw [Set.range_list_map]
        intro e he
        have hm : (e.1, e.2.collapse) ∈ m.entries.map fun e => (e.1, string e.2) := by
          rw [← hc]
          exact List.mem_map_of_mem (f := fun e => (e.1, e.2.collapse))
            ((Entries.mem_collect_of_nodup hn).mpr he)
        obtain ⟨e', -, he'⟩ := List.mem_map.mp hm
        have hv : e.2 = .string e'.2 := collapse_eq_string.mp (Prod.mk.inj he').2.symm
        exact ⟨(e.1, e'.2), Prod.ext rfl hv.symm⟩
      obtain ⟨es, rfl⟩ := hrange
      refine ⟨es, rfl, hkeys es ▸ hn, ?_⟩
      rw [Entries.collect_map, List.map_map] at hc
      have hinj : Function.Injective fun e : String × String => (e.1, string e.2) := by
        intro e e' he
        simpa [Prod.ext_iff] using he
      have he : Entries.collect es = m.entries := hinj.list_map hc
      simp only [KeyMap.ofEntries, he]
    | _ => simp [ofTexts] at hc
  · rintro ⟨es, rfl, hn, rfl⟩
    constructor
    · rw [collapse_ofTexts, collapse_object, Entries.collect_map, List.map_map]
      rfl
    · rw [repeatsKey_object, hkeys]
      rintro (h | ⟨e, he, hr⟩)
      · exact h hn
      · obtain ⟨e', -, rfl⟩ := List.mem_map.mp he
        exact not_repeatsKey_string _ hr

/-- The order in which two members are written makes no difference to their value. -/
theorem collapse_pair_comm {a b : String} (hab : a ≠ b) (x y : Json) :
    (object [(a, x), (b, y)]).collapse = (object [(b, y), (a, x)]).collapse := by
  by_cases h : a < b
  · rw [collapse_pair h, collapse_pair_swap h]
  · have hba : b < a := Std.lt_of_le_of_ne (String.not_lt.mp h) hab.symm
    rw [collapse_pair_swap hba, collapse_pair hba]

theorem collapse_pair_congr {a b : String} {u w x y : Json} (hu : u.collapse = x.collapse)
    (hw : w.collapse = y.collapse) :
    (object [(a, u), (b, w)]).collapse = (object [(a, x), (b, y)]).collapse := by
  simp only [collapse, collapseMembers, hu, hw]

/-- An object of two members is spelled by its members in either order. -/
theorem spells_pair {t : Json} {a b : String} {x y : Json} (hab : a ≠ b) :
    t.Spells (.object [(a, x), (b, y)]) ↔ ∃ u w, u.Spells x ∧ w.Spells y ∧
      (t = .object [(a, u), (b, w)] ∨ t = .object [(b, w), (a, u)]) := by
  constructor
  · intro h
    cases t with
    | object ms =>
      have hn : (Entries.keys ms).Nodup := by
        by_contra hn
        exact h.fresh (.here hn)
      have hpair : (Entries.keys [(a, x), (b, y)]).Nodup := by simp [Entries.keys, hab]
      have hc := h.collapse
      rw [collapse_object, collapse_object, object.injEq] at hc
      -- Collapsing keeps the members of both sides, up to their order.
      have hmem : ∀ e : String × Json, e ∈ ms.map (fun e => (e.1, e.2.collapse)) ↔
          e = (a, x.collapse) ∨ e = (b, y.collapse) := by
        intro e
        have he : e ∈ (Entries.collect ms).map (fun e => (e.1, e.2.collapse)) ↔
            e ∈ (Entries.collect [(a, x), (b, y)]).map (fun e => (e.1, e.2.collapse)) := by rw [hc]
        simpa [List.mem_map, Entries.mem_collect_of_nodup hn,
          Entries.mem_collect_of_nodup hpair, eq_comm] using he
      have hmember : ∀ {k : String} {z : Json},
          (k, z) ∈ ms.map (fun e => (e.1, e.2.collapse)) → ∃ v, (k, v) ∈ ms ∧ v.collapse = z := by
        intro k z hz
        obtain ⟨e, he, hkz⟩ := List.mem_map.mp hz
        obtain ⟨rfl, rfl⟩ := Prod.mk.inj hkz
        exact ⟨e.2, he, rfl⟩
      obtain ⟨u, hu, hxu⟩ := hmember ((hmem _).mpr (Or.inl rfl))
      obtain ⟨w, hw, hyw⟩ := hmember ((hmem _).mpr (Or.inr rfl))
      have hk : ∀ k ∈ Entries.keys ms, k = a ∨ k = b := by
        intro k hk
        obtain ⟨e, he, rfl⟩ := List.mem_map.mp hk
        have hm := List.mem_map_of_mem (f := fun e => (e.1, e.2.collapse)) he
        exact ((hmem _).mp hm).imp (congrArg Prod.fst) (congrArg Prod.fst)
      refine ⟨u, w, ⟨hxu, fun hr => h.fresh (.member hu hr)⟩,
        ⟨hyw, fun hr => h.fresh (.member hw hr)⟩, ?_⟩
      simpa using Entries.eq_pair_of_nodup hab hn hk hu hw
    | _ => simpa using h.collapse
  · rintro ⟨u, w, hu, hw, ht⟩
    have hfresh {k l : String} (hkl : k ≠ l) {p q : Json} (hp : ¬p.RepeatsKey)
        (hq : ¬q.RepeatsKey) : ¬(object [(k, p), (l, q)]).RepeatsKey := by
      rw [repeatsKey_object]
      simp [Entries.keys, hkl, hp, hq]
    have hcollapse := collapse_pair_congr (a := a) (b := b) hu.collapse hw.collapse
    rcases ht with rfl | rfl
    · exact ⟨hcollapse, hfresh hab hu.fresh hw.fresh⟩
    · exact ⟨(collapse_pair_comm hab u w).symm.trans hcollapse, hfresh hab.symm hw.fresh hu.fresh⟩

/-- A value spells nothing but itself. -/
theorem spells_of_collapse {v w : Json} (hv : v.collapse = v) :
    v.Spells w ↔ v.collapse = w.collapse :=
  ⟨Spells.collapse, fun h => ⟨h, hv ▸ not_repeatsKey_collapse v⟩⟩

end Json

namespace Request

/-- A tree is read as the request whose encoding it spells, if the naming rules allow the request. -/
theorem ofScanned_ofTree_eq_ok_iff {rules : NamingRules} {t : Json} {r : Request} :
    ofScanned rules (.ofTree t) = .ok r ↔ t.Spells r.encode ∧ r.Allowed rules := by
  constructor
  · intro h
    have hn := not_repeatsKey_of_ofScanned h
    rw [Json.ofTree_eq_ofValue hn] at h
    obtain ⟨hbody, hallowed⟩ := body_of_ofValue h
    exact ⟨⟨hbody, hn⟩, hallowed⟩
  · rintro ⟨h, hallowed⟩
    rw [Json.ofTree_eq_ofValue h.fresh]
    exact ofValue_of_body h.collapse hallowed

theorem ofScanned_ofTree_eq_ok {t : Json} {r : Request} :
    ofScanned {} (.ofTree t) = .ok r ↔ t.Spells r.encode := by
  rw [ofScanned_ofTree_eq_ok_iff]
  exact and_iff_left (allowed_default r)

end Request
end Catalog
