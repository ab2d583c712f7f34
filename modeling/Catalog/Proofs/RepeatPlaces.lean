import Catalog.Proofs.RepeatedKeys

/-! Where repeats are kept. What a value repeats is kept at places that are written with the place of
the value in front, so a reader that compares places as they are written does not mistake the repeats
of one field for those of another. -/

namespace Catalog

theorem Field.exists_text_append (f g : Field) : ∃ w, (f ++ g).text = f.text ++ w := by
  have hfold (t : String) : ∃ w, g.foldl extend t = t ++ w := by
    induction g generalizing t with
    | nil => exact ⟨"", by simp⟩
    | cons step g ih =>
      have hstep : ∃ w, extend t step = t ++ w := by
        cases step with
        | key k =>
          by_cases ht : t = ""
          · exact ⟨k, by simp [extend, ht]⟩
          · exact ⟨"." ++ k, by simp [extend, ht, String.append_assoc]⟩
        | index i => exact ⟨"[" ++ toString i ++ "]", by simp [extend, String.append_assoc]⟩
      obtain ⟨w, hw⟩ := hstep
      obtain ⟨w', hw'⟩ := ih (extend t step)
      exact ⟨w ++ w', by rw [List.foldl_cons, hw', hw, String.append_assoc]⟩
  obtain ⟨w, hw⟩ := hfold f.text
  exact ⟨w, by rw [text, List.foldl_append, ← hw, text]⟩

namespace Json

theorem mem_repeatsItems {place : Field} {i : Nat} {items : List Json} {r : Repeat}
    (h : r ∈ repeatsItems place i items) :
    ∃ j, ∃ v ∈ items, r ∈ v.repeats (place.child (.index j)) := by
  induction items generalizing i with
  | nil => simp [repeatsItems] at h
  | cons v vs ih =>
    rcases List.mem_append.mp h with h | h
    · exact ⟨i, v, List.mem_cons_self, h⟩
    · obtain ⟨j, w, hw, hr⟩ := ih h
      exact ⟨j, w, List.mem_cons_of_mem _ hw, hr⟩

/-- A repeat of an object is a repeat of one of its values, or of a key of its own that was seen
before or is given at least twice. -/
theorem mem_repeatsMembers {place : Field} {seen : List String} {members : Entries Json} {r : Repeat}
    (h : r ∈ repeatsMembers place seen members) :
    (∃ e ∈ members, r ∈ e.2.repeats (place.child (.key e.1))) ∨
      r.place = place ∧ r.key ∈ Entries.keys members ∧
        (r.key ∈ seen ∨ 1 < (Entries.keys members).count r.key) := by
  induction members generalizing seen with
  | nil => simp [repeatsMembers] at h
  | cons e ms ih =>
    obtain ⟨k, v⟩ := e
    have hkeys : Entries.keys ((k, v) :: ms) = k :: Entries.keys ms := rfl
    simp only [repeatsMembers, List.mem_append] at h
    rcases h with (h | h) | h
    · exact Or.inl ⟨(k, v), List.mem_cons_self, h⟩
    · split at h
      · next hk =>
        rw [List.mem_singleton.mp h]
        exact Or.inr ⟨rfl, List.mem_cons_self, Or.inl (by simpa using hk)⟩
      · cases h
    · rcases ih h with ⟨e, he, hr⟩ | ⟨hplace, hmem, hseen⟩
      · exact Or.inl ⟨e, List.mem_cons_of_mem _ he, hr⟩
      · refine Or.inr ⟨hplace, List.mem_cons_of_mem _ hmem, ?_⟩
        rcases hseen with hseen | hcount
        · rcases List.mem_cons.mp hseen with hk | hk
          · -- The key stands in front and occurs once more behind.
            have hpos : 0 < (Entries.keys ms).count k := List.count_pos_iff.mpr (hk ▸ hmem)
            rw [hkeys, hk, List.count_cons_self]
            exact Or.inr (Nat.succ_lt_succ hpos)
          · exact Or.inl hk
        · rw [hkeys, List.count_cons]
          exact Or.inr (Nat.lt_add_right _ hcount)

/-- The repeats of a value are kept at its place or below it. -/
theorem place_of_mem_repeats (v : Json) :
    ∀ {place : Field} {r : Repeat}, r ∈ v.repeats place → ∃ steps, r.place = place ++ steps := by
  induction v using Json.induction with
  | null | bool | number | string =>
    intro place r h
    simp [repeats] at h
  | array items ih =>
    intro place r h
    obtain ⟨j, v, hv, hr⟩ := mem_repeatsItems h
    obtain ⟨steps, hsteps⟩ := ih v hv hr
    exact ⟨.index j :: steps, by rw [hsteps, Field.child, List.append_assoc]; rfl⟩
  | object members ih =>
    intro place r h
    rcases mem_repeatsMembers h with ⟨e, he, hr⟩ | ⟨hplace, -⟩
    · obtain ⟨steps, hsteps⟩ := ih e he hr
      exact ⟨.key e.1 :: steps, by rw [hsteps, Field.child, List.append_assoc]; rfl⟩
    · exact ⟨[], by rw [hplace, List.append_nil]⟩

theorem text_of_mem_repeats {v : Json} {place : Field} {r : Repeat} (h : r ∈ v.repeats place) :
    ∃ w, r.place.text = place.text ++ w := by
  obtain ⟨steps, hsteps⟩ := place_of_mem_repeats v h
  rw [hsteps]
  exact Field.exists_text_append place steps

end Json

namespace Scope
variable {ms members : Entries Json} {name : String}

/-- A field of a body that is written once is given once, whatever is repeated inside the fields. -/
theorem once_of_count (hkeys : "" ∉ Entries.keys ms) (hcount : (Entries.keys ms).count name = 1) :
    Once ⟨[], members, (Json.object ms).repeats []⟩ name := by
  intro r hr hplace hname
  rcases Json.mem_repeatsMembers hr with ⟨e, he, hr⟩ | ⟨-, -, hseen⟩
  · -- Below a field a place is written with the name of the field in front, so it is not empty.
    obtain ⟨w, hw⟩ := Json.text_of_mem_repeats hr
    have hfield : Field.text (Field.child [] (.key e.1)) = e.1 := rfl
    have hempty : e.1 ++ w = "" := by rw [← hfield, ← hw]; exact hplace
    have he' : e.1 = "" := (String.append_eq_empty_iff.mp hempty).1
    exact hkeys (he' ▸ Entries.mem_keys_of_mem he)
  · rw [hname, hcount] at hseen
    simp at hseen

/-- Nothing is repeated at a field whose values repeat nothing, if the names of the other fields do
not begin like its own. -/
theorem unrepeated_of_values (hne : name ≠ "")
    (hvalues : ∀ v, (name, v) ∈ ms → ¬v.RepeatsKey)
    (hothers : ∀ k ∈ Entries.keys ms, k ≠ name → ∀ w, k ++ w ≠ name) :
    Unrepeated ⟨[], members, (Json.object ms).repeats []⟩ (.ofKey name) := by
  intro r hr hplace
  have hname : Field.text (.ofKey name) = name := rfl
  rw [hname] at hplace
  rcases Json.mem_repeatsMembers hr with ⟨⟨k, v⟩, he, hr⟩ | ⟨htop, -⟩
  · by_cases hk : k = name
    · subst hk
      rw [(Json.repeats_eq_nil_iff v _).mpr (hvalues v he)] at hr
      cases hr
    · obtain ⟨w, hw⟩ := Json.text_of_mem_repeats hr
      exact hothers k (Entries.mem_keys_of_mem he) hk w (hw.symm.trans hplace)
  · rw [htop] at hplace
    exact hne hplace.symm

end Scope
end Catalog
