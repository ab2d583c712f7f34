import Catalog.Proofs.Alteration

/-! When two alterations have the same effect. Maps of one key and the empty map tell apart any two
requests that differ in what they remove or update, so equivalence is nothing else than having the
same effect on every map. -/

namespace Catalog.AlterDatabase

theorem equivalent_iff {a b : AlterDatabase} :
    a.equivalent b = true ↔ (∀ k, k ∈ a.removals ↔ k ∈ b.removals) ∧ a.updates = b.updates := by
  simp only [equivalent, Bool.and_eq_true, List.all_eq_true, List.contains_iff_mem,
    decide_eq_true_eq]
  constructor
  · rintro ⟨⟨hab, hba⟩, hu⟩
    exact ⟨fun k => ⟨hab k, hba k⟩, hu⟩
  · rintro ⟨hk, hu⟩
    exact ⟨⟨fun k => (hk k).mp, fun k => (hk k).mpr⟩, hu⟩

/-- An alteration of the empty map leaves its updates. -/
theorem apply_empty (r : AlterDatabase) : (r.apply .empty).2 = r.updates := by
  apply KeyMap.ext_get?
  intro k
  rw [get?_apply, KeyMap.get?_empty, Option.or_none]
  by_cases hk : k ∈ r.removals
  · rw [if_pos hk, get?_updates_of_mem hk]
  · rw [if_neg hk]

/-- The map of one key shows whether the key is removed. -/
theorem mem_removals_iff {r : AlterDatabase} {k : String} :
    k ∈ r.removals ↔ (r.apply (KeyMap.empty.insert k "")).2.get? k = none := by
  rw [get?_apply, KeyMap.get?_insert, if_pos rfl]
  by_cases hk : k ∈ r.removals <;> simp [hk]

theorem equivalent_of_same_effect {a b : AlterDatabase}
    (h : ∀ m, (a.apply m).2 = (b.apply m).2) : a.equivalent b = true := by
  refine equivalent_iff.mpr ⟨fun k => ?_, ?_⟩
  · rw [mem_removals_iff, mem_removals_iff, h]
  · rw [← apply_empty a, ← apply_empty b, h]

/-- Equivalent requests remove the same keys, though maybe in another order. -/
theorem distinctRemovals_perm {a b : AlterDatabase} (h : a.equivalent b = true) :
    a.distinctRemovals.Perm b.distinctRemovals := by
  apply (List.perm_ext_iff_of_nodup a.nodup_distinctRemovals b.nodup_distinctRemovals).mpr
  intro k
  rw [mem_distinctRemovals, mem_distinctRemovals]
  exact (equivalent_iff.mp h).1 k

theorem same_effect_of_equivalent {a b : AlterDatabase} (h : a.equivalent b = true)
    (m : KeyMap String) : (a.apply m).2 = (b.apply m).2 := by
  obtain ⟨hk, hu⟩ := equivalent_iff.mp h
  apply KeyMap.ext_get?
  intro k
  simp only [get?_apply, hk, hu]

/-- Two requests are equivalent exactly when they leave the same of every map. Then they also report
the same updates, and the same removed and missing keys up to their order. -/
theorem equivalent_iff_same_effect (a b : AlterDatabase) :
    (a.equivalent b = true ↔ ∀ m, (a.apply m).2 = (b.apply m).2) ∧
    (a.equivalent b = true → ∀ m,
      (a.apply m).1.updated = (b.apply m).1.updated ∧
      (a.apply m).1.removed.Perm (b.apply m).1.removed ∧
      (a.apply m).1.missing.Perm (b.apply m).1.missing) := by
  refine ⟨⟨same_effect_of_equivalent, equivalent_of_same_effect⟩, ?_⟩
  intro h m
  have hu : a.updates = b.updates := (equivalent_iff.mp h).2
  have hp : a.distinctRemovals.Perm b.distinctRemovals := distinctRemovals_perm h
  rw [apply_eq, apply_eq]
  exact ⟨congrArg KeyMap.keys hu, hp.filter _, hp.filter _⟩

end Catalog.AlterDatabase
