import Catalog.KeyMap

/-! Entry lists seen through the value of a key. An ordered list is fixed by its values, so collecting
an ordered list changes nothing. -/

namespace Catalog.Entries
variable {α : Type}

theorem lookup_cons (k : String) (e : String × α) (l : Entries α) :
    List.lookup k (e :: l) = if k = e.1 then some e.2 else List.lookup k l := by
  obtain ⟨k', v⟩ := e
  by_cases h : k = k'
  · rw [h, List.lookup_cons_self, if_pos rfl]
  · rw [List.lookup_cons, beq_eq_false_iff_ne.mpr h, if_neg h]

theorem lookup_insert (k k' : String) (v : α) (l : Entries α) :
    (insert k v l).lookup k' = if k' = k then some v else l.lookup k' := by
  induction l with
  | nil => simp only [insert, lookup_cons, List.lookup_nil]
  | cons e l ih =>
    obtain ⟨k₁, v₁⟩ := e
    simp only [insert]
    split
    · simp only [lookup_cons]
    · split
      · next he =>
        subst he
        by_cases h : k' = k <;> simp [lookup_cons, h]
      · next hne =>
        by_cases h : k' = k₁
        · subst h
          simp [Ne.symm hne]
        · simp [lookup_cons, h, ih]

theorem lookup_erase (k k' : String) (l : Entries α) :
    (erase k l).lookup k' = if k' = k then none else l.lookup k' := by
  induction l with
  | nil => simp [erase]
  | cons e l ih =>
    have hcons : erase k (e :: l) = if e.1 = k then erase k l else e :: erase k l := by
      by_cases h : e.1 = k <;> simp [erase, h]
    by_cases he : e.1 = k
    · rw [hcons, if_pos he, ih, lookup_cons, he]
      by_cases h : k' = k <;> simp [h]
    · rw [hcons, if_neg he, lookup_cons, lookup_cons, ih]
      by_cases h : k' = e.1
      · simp [h, he]
      · simp [h]

/-- The values of a list changed, each in a way that may hang on its key. -/
theorem lookup_map_keyed {β : Type} (f : String → α → β) (l : Entries α) (k : String) :
    (l.map fun e => (e.1, f e.1 e.2)).lookup k = (l.lookup k).map (f k) := by
  induction l with
  | nil => rfl
  | cons e l ih =>
    rw [List.map_cons, lookup_cons, lookup_cons, ih]
    by_cases h : k = e.1
    · simp [h]
    · simp [h]

theorem keys_map_keyed {β : Type} (f : String → α → β) (l : Entries α) :
    keys (l.map fun e => (e.1, f e.1 e.2)) = keys l := by
  rw [keys, List.map_map]
  rfl

/-- An entry may be written before or after the values are changed. -/
theorem map_insert_keyed {β : Type} (f : String → α → β) (k : String) (v : α) (l : Entries α) :
    (insert k v l).map (fun e => (e.1, f e.1 e.2)) =
      insert k (f k v) (l.map fun e => (e.1, f e.1 e.2)) := by
  induction l with
  | nil => rfl
  | cons e l ih =>
    obtain ⟨k₁, v₁⟩ := e
    simp only [insert, List.map_cons]
    split
    · rfl
    · split
      · rfl
      · rw [List.map_cons, ih]

theorem mem_keys_iff {k : String} {l : Entries α} : k ∈ keys l ↔ (l.lookup k).isSome = true := by
  simp only [keys, List.mem_map, List.lookup_isSome_iff, beq_iff_eq]
  exact exists_congr fun e => and_congr_right fun _ => eq_comm

/-- Lists with the same keys lack the same keys. -/
theorem isNone_lookup {β : Type} {l : Entries α} {l' : Entries β} (h : keys l' = keys l)
    (k : String) : (l'.lookup k).isNone = (l.lookup k).isNone := by
  have hiff : (l'.lookup k).isSome = true ↔ (l.lookup k).isSome = true := by
    rw [← mem_keys_iff, ← mem_keys_iff, h]
  rw [← Option.not_isSome, ← Option.not_isSome, Bool.eq_iff_iff.mpr hiff]

theorem mem_of_lookup {k : String} {v : α} {l : Entries α} (h : l.lookup k = some v) :
    (k, v) ∈ l := by
  obtain ⟨l₁, l₂, rfl, -⟩ := List.lookup_eq_some_iff.mp h
  simp

theorem mem_keys_of_mem {e : String × α} {l : Entries α} (h : e ∈ l) : e.1 ∈ keys l :=
  List.mem_map_of_mem h

theorem erase_eq_self {k : String} {l : Entries α} (h : l.lookup k = none) : erase k l = l := by
  apply List.filter_eq_self.mpr
  intro e he
  apply decide_eq_true
  rintro rfl
  rw [← Option.not_isSome_iff_eq_none, ← mem_keys_iff] at h
  exact h (mem_keys_of_mem he)

/-- To erase a key undoes the writing of an entry that was not there. -/
theorem erase_insert {k : String} {v : α} {l : Entries α} (h : l.lookup k = none) :
    erase k (insert k v l) = l := by
  have hcons (l : Entries α) : erase k ((k, v) :: l) = erase k l := by simp [erase]
  induction l with
  | nil => exact hcons []
  | cons e l ih =>
    rw [lookup_cons] at h
    split at h
    · cases h
    · next hne =>
      simp only [insert, if_neg hne]
      split
      · rw [hcons, erase_eq_self]
        rwa [lookup_cons, if_neg hne]
      · have hkeep : erase k (e :: insert k v l) = e :: erase k (insert k v l) := by
          simp [erase, Ne.symm hne]
        rw [hkeep, ih h]

theorem lookup_of_mem {k : String} {v : α} {l : Entries α} (hn : (keys l).Nodup)
    (h : (k, v) ∈ l) : l.lookup k = some v := by
  induction l with
  | nil => simp at h
  | cons e l ih =>
    obtain ⟨k₁, v₁⟩ := e
    have ht : k₁ ∉ keys l ∧ (keys l).Nodup := List.nodup_cons.mp hn
    rcases List.mem_cons.mp h with he | he
    · cases he
      exact List.lookup_cons_self
    · have hk : k ≠ k₁ := fun hk => ht.1 (hk ▸ mem_keys_of_mem he)
      simp [lookup_cons, hk, ih ht.2 he]

/-- A key that is given once has the value that it is given with. -/
theorem lookup_of_count {k : String} {v : α} {l : Entries α} (hc : (keys l).count k = 1)
    (h : (k, v) ∈ l) : l.lookup k = some v := by
  induction l with
  | nil => cases h
  | cons e l ih =>
    have hkeys : keys (e :: l) = e.1 :: keys l := rfl
    rw [hkeys, List.count_cons] at hc
    rw [lookup_cons]
    rcases List.mem_cons.mp h with rfl | h
    · rw [if_pos rfl]
    · -- The key is behind the first entry, so it is not the key of that entry too.
      have hpos : 0 < (keys l).count k := List.count_pos_iff.mpr (mem_keys_of_mem h)
      have hne : e.1 ≠ k := by
        intro he
        simp only [he, BEq.rfl, ↓reduceIte] at hc
        omega
      rw [if_neg hne.symm]
      exact ih (by simpa [hne] using hc) h

theorem ordered_map {β : Type} {f : α → β} {l : Entries α} :
    Ordered (l.map fun e => (e.1, f e.2)) ↔ Ordered l :=
  List.pairwise_map

theorem Ordered.keys_pairwise {l : Entries α} (h : Ordered l) : (keys l).Pairwise (· < ·) :=
  List.pairwise_map.mpr h

theorem ne_of_key_lt {a b : String} (h : a < b) : a ≠ b := by
  intro he
  subst he
  exact String.lt_irrefl a h

theorem Ordered.keys_nodup {l : Entries α} (h : Ordered l) : (keys l).Nodup :=
  h.keys_pairwise.imp ne_of_key_lt

/-- A strictly increasing list is fixed by its members. -/
theorem pairwise_lt_ext {ks ls : List String} (hk : ks.Pairwise (· < ·)) (hl : ls.Pairwise (· < ·))
    (h : ∀ k, k ∈ ks ↔ k ∈ ls) : ks = ls := by
  have hp : ks.Perm ls :=
    (List.perm_ext_iff_of_nodup (hk.imp ne_of_key_lt) (hl.imp ne_of_key_lt)).mpr h
  apply hp.eq_of_pairwise _ hk hl
  intro a b _ _ hab hba
  exact absurd (String.lt_trans hab hba) (String.lt_irrefl a)

theorem Ordered.mem_iff {l : Entries α} (h : Ordered l) {e : String × α} :
    e ∈ l ↔ l.lookup e.1 = some e.2 :=
  ⟨lookup_of_mem h.keys_nodup, mem_of_lookup⟩

/-- Two ordered lists with the same value for every key are equal. -/
theorem Ordered.ext {a b : Entries α} (ha : Ordered a) (hb : Ordered b)
    (h : ∀ k, a.lookup k = b.lookup k) : a = b := by
  have hne {x y : String × α} (hlt : x.1 < y.1) : x ≠ y := fun he =>
    ne_of_key_lt hlt (congrArg Prod.fst he)
  have hp : a.Perm b := by
    apply (List.perm_ext_iff_of_nodup (ha.imp hne) (hb.imp hne)).mpr
    intro e
    rw [ha.mem_iff, hb.mem_iff, h]
  apply hp.eq_of_pairwise _ ha hb
  intro x y _ _ hxy hyx
  exact absurd (String.lt_trans hxy hyx) (String.lt_irrefl x.1)

theorem insert_of_keys_lt {k : String} {v : α} {l : Entries α} (h : ∀ e ∈ l, e.1 < k) :
    insert k v l = l ++ [(k, v)] := by
  induction l with
  | nil => rfl
  | cons e l ih =>
    have he : e.1 < k := h e List.mem_cons_self
    have hne : k ≠ e.1 := fun hk => String.lt_irrefl _ (hk ▸ he)
    have hnlt : ¬k < e.1 := fun hk => String.lt_irrefl _ (String.lt_trans hk he)
    simp only [insert, hnlt, hne, ↓reduceIte, List.cons_append]
    rw [ih fun e he => h e (List.mem_cons_of_mem _ he)]

theorem foldl_insert_of_ordered {l acc : Entries α} (h : Ordered (acc ++ l)) :
    l.foldl (fun acc e => insert e.1 e.2 acc) acc = acc ++ l := by
  induction l generalizing acc with
  | nil => simp
  | cons e l ih =>
    have hlt : ∀ e' ∈ acc, e'.1 < e.1 := fun e' he' =>
      (List.pairwise_append.mp h).2.2 e' he' e List.mem_cons_self
    rw [List.foldl_cons, insert_of_keys_lt hlt, ih (by simpa using h)]
    simp

theorem collect_of_ordered {l : Entries α} (h : Ordered l) : collect l = l := by
  have hn : Ordered ([] ++ l) := h
  exact foldl_insert_of_ordered hn

theorem lookup_foldl_insert (k : String) (l acc : Entries α) :
    (l.foldl (fun acc e => insert e.1 e.2 acc) acc).lookup k =
      (l.reverse.lookup k).or (acc.lookup k) := by
  induction l generalizing acc with
  | nil => simp
  | cons e l ih =>
    rw [List.foldl_cons, ih, lookup_insert, List.reverse_cons, List.lookup_append, lookup_cons]
    by_cases h : k = e.1 <;> cases List.lookup k l.reverse <;> simp [h]

/-- Collecting keeps the last value of each key. -/
theorem lookup_collect (k : String) (l : Entries α) : (collect l).lookup k = l.reverse.lookup k := by
  simp [collect, lookup_foldl_insert]

/-- From either end the same value of a key is found, since no key is repeated. -/
theorem Ordered.lookup_reverse {l : Entries α} (h : Ordered l) (k : String) :
    l.reverse.lookup k = l.lookup k := by
  rw [← lookup_collect, collect_of_ordered h]

theorem lookup_collect_of_count {k : String} {v : α} {l : Entries α} (hc : (keys l).count k = 1)
    (h : (k, v) ∈ l) : (collect l).lookup k = some v := by
  have hkeys : keys l.reverse = (keys l).reverse := List.map_reverse
  rw [lookup_collect]
  apply lookup_of_count _ (List.mem_reverse.mpr h)
  rw [hkeys, List.count_reverse, hc]

theorem mem_keys_collect {k : String} {l : Entries α} : k ∈ keys (collect l) ↔ k ∈ keys l := by
  rw [mem_keys_iff, lookup_collect, ← mem_keys_iff]
  simp [keys]

theorem mem_of_mem_collect {e : String × α} {l : Entries α} (h : e ∈ collect l) : e ∈ l := by
  have hl := lookup_of_mem (ordered_collect l).keys_nodup h
  rw [lookup_collect] at hl
  exact List.mem_reverse.mp (mem_of_lookup hl)

/-- Without repeated keys, collecting only puts the entries in order. -/
theorem mem_collect_of_nodup {e : String × α} {l : Entries α} (hn : (keys l).Nodup) :
    e ∈ collect l ↔ e ∈ l := by
  refine ⟨mem_of_mem_collect, fun h => ?_⟩
  -- Collecting looks for a key from the end, where without repeats the same entry is found.
  have hr : (keys l.reverse).Nodup := by
    rw [keys, List.map_reverse]
    exact List.pairwise_reverse.mpr (hn.imp Ne.symm)
  apply mem_of_lookup
  rw [lookup_collect]
  exact lookup_of_mem hr (List.mem_reverse.mpr h)

/-- Collecting the images of the values is taking the images of the collected values. -/
theorem collect_map {β : Type} (f : α → β) (l : Entries α) :
    collect (l.map fun e => (e.1, f e.2)) = (collect l).map fun e => (e.1, f e.2) := by
  have hlookup (k : String) (l : Entries α) :
      (l.map fun e => (e.1, f e.2)).lookup k = (l.lookup k).map f :=
    lookup_map_keyed (fun _ => f) l k
  -- Both sides are ordered, so they are equal when every key has the same value in them.
  apply (ordered_collect _).ext (ordered_map.mpr (ordered_collect l))
  intro k
  rw [lookup_collect, hlookup, lookup_collect, ← List.map_reverse, hlookup]

end Catalog.Entries

namespace Catalog.KeyMap
variable {α : Type}

theorem contains_eq_false_iff {m : KeyMap α} {k : String} :
    m.contains k = false ↔ ∀ e ∈ m.entries, e.1 ≠ k := by
  have hk : m.contains k = true ↔ ∃ e ∈ m.entries, e.1 = k :=
    Entries.mem_keys_iff.symm.trans List.mem_map
  rw [Bool.eq_false_iff, ne_eq, hk]
  simp only [not_exists, not_and, ne_eq]

theorem get?_empty (k : String) : (empty : KeyMap α).get? k = none := rfl

theorem get?_insert (m : KeyMap α) (k k' : String) (v : α) :
    (m.insert k v).get? k' = if k' = k then some v else m.get? k' :=
  Entries.lookup_insert k k' v m.entries

theorem get?_erase (m : KeyMap α) (k k' : String) :
    (m.erase k).get? k' = if k' = k then none else m.get? k' :=
  Entries.lookup_erase k k' m.entries

/-- A map is fixed by the values of its keys. -/
theorem ext_get? {a b : KeyMap α} (h : ∀ k, a.get? k = b.get? k) : a = b := by
  obtain ⟨as, ha⟩ := a
  obtain ⟨bs, hb⟩ := b
  have he : as = bs := ha.ext hb h
  subst he
  rfl

theorem ext_entries {a b : KeyMap α} (h : a.entries = b.entries) : a = b := by
  obtain ⟨as, ha⟩ := a
  obtain ⟨bs, hb⟩ := b
  have he : as = bs := h
  subst he
  rfl

theorem contains_insert_eq_false {m : KeyMap α} {k k' : String} {v : α} :
    (m.insert k v).contains k' = false ↔ k' ≠ k ∧ m.contains k' = false := by
  rw [contains, get?_insert]
  by_cases h : k' = k <;> simp [h, contains]

theorem get?_eq_none_iff {m : KeyMap α} {k : String} :
    m.get? k = none ↔ m.contains k = false := by
  simp [contains]

theorem mem_keys_iff {m : KeyMap α} {k : String} : k ∈ m.keys ↔ m.contains k = true :=
  Entries.mem_keys_iff

theorem erase_of_not_contains {m : KeyMap α} {k : String} (h : m.contains k = false) :
    m.erase k = m := by
  apply ext_get?
  intro k'
  rw [get?_erase]
  by_cases hk : k' = k
  · simp [hk, get?_eq_none_iff.mpr h]
  · simp [hk]

theorem contains_erase_of_ne {m : KeyMap α} {k k' : String} (h : k' ≠ k) :
    (m.erase k).contains k' = m.contains k' := by
  simp [contains, get?_erase, h]

/-- Erasing keys one after the other leaves the values of all other keys. -/
theorem get?_foldl_erase (ks : List String) (m : KeyMap α) (k : String) :
    (ks.foldl erase m).get? k = if k ∈ ks then none else m.get? k := by
  induction ks generalizing m with
  | nil => simp
  | cons k₁ ks ih =>
    rw [List.foldl_cons, ih, get?_erase]
    by_cases h : k = k₁ <;> simp [h]

theorem entries_update (m u : KeyMap α) :
    (m.update u).entries =
      u.entries.foldl (fun acc e => Entries.insert e.1 e.2 acc) m.entries :=
  (List.foldl_hom KeyMap.entries fun _ _ => rfl).symm

/-- The values of an update go before those of the map that is updated. -/
theorem get?_update (m u : KeyMap α) (k : String) :
    (m.update u).get? k = (u.get? k).or (m.get? k) := by
  rw [get?, entries_update, Entries.lookup_foldl_insert, u.ordered.lookup_reverse]
  rfl

end Catalog.KeyMap
