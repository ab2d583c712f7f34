import Mathlib.Data.List.Nodup
import Catalog.Proofs.AlterationRuns

/-! What one alteration leaves and reports. Every key that the request mentions is reported in one
list, once, and is found as the list says; all other keys are left as they were. -/

namespace Catalog.AlterDatabase

/-- What an alteration of `m` has to leave and to report. -/
structure Exact (r : AlterDatabase) (m : KeyMap String) (o : AlterOutcome) (left : KeyMap String) :
    Prop where
  /-- Updated keys have their new values. -/
  written : ∀ k v, r.updates.get? k = some v → left.get? k = some v
  /-- Removed keys are absent. -/
  erased : ∀ k ∈ r.removals, left.get? k = none
  kept : ∀ k, ¬r.Mentions k → left.get? k = m.get? k
  /-- Of the removals without repeats, those that `m` has. -/
  removed : o.removed = r.distinctRemovals.filter m.contains
  /-- Of the removals without repeats, those that `m` has not. -/
  missing : o.missing = r.distinctRemovals.filter (!m.contains ·)
  removed_order : InFirstSeenOrder r.removals o.removed
  missing_order : InFirstSeenOrder r.removals o.missing
  updated : o.updated = r.updates.keys
  updated_order : o.updated.Pairwise (· < ·)
  /-- No key is reported twice, neither in one list nor in two. -/
  once : (o.removed ++ o.missing ++ o.updated).Nodup
  /-- The keys that are reported are those that the request mentions. -/
  complete : ∀ k, k ∈ o.removed ++ o.missing ++ o.updated ↔ r.Mentions k

/-- The removals that are present, the removals that are not, and the updates share no key. -/
theorem nodup_report (r : AlterDatabase) (m : KeyMap String) :
    (r.distinctRemovals.filter m.contains ++ r.distinctRemovals.filter (!m.contains ·) ++
      r.updates.keys).Nodup := by
  have hremovals : (r.distinctRemovals.filter m.contains ++
      r.distinctRemovals.filter (!m.contains ·)).Nodup := by
    refine List.nodup_append'.mpr ⟨r.nodup_distinctRemovals.filter _,
      r.nodup_distinctRemovals.filter _, fun k hk hk' => ?_⟩
    have hpresent := (List.mem_filter.mp hk).2
    have habsent := (List.mem_filter.mp hk').2
    simp [hpresent] at habsent
  refine List.nodup_append'.mpr ⟨hremovals, r.updates.ordered.keys_nodup, fun k hk hu => ?_⟩
  have hmem : k ∈ r.removals := by
    rcases List.mem_append.mp hk with hk | hk <;>
      exact mem_distinctRemovals.mp (List.mem_filter.mp hk).1
  have hnot := r.disjoint k hmem
  rw [KeyMap.mem_keys_iff.mp hu] at hnot
  cases hnot

/-- Whether `m` has a removed key or not, it is reported. -/
theorem mem_report {r : AlterDatabase} {m : KeyMap String} {k : String} :
    k ∈ r.distinctRemovals.filter m.contains ++ r.distinctRemovals.filter (!m.contains ·) ++
      r.updates.keys ↔ r.Mentions k := by
  simp only [List.mem_append, List.mem_filter, mem_distinctRemovals, KeyMap.mem_keys_iff, Mentions,
    ← and_or_left]
  cases m.contains k <;> simp

/-- An alteration leaves of every key what the request wants of it, and reports every key that the
request mentions once: removed or missing by whether the map had it, in the order of the removals,
or updated, in increasing order. -/
theorem apply_exact (r : AlterDatabase) (m : KeyMap String) :
    r.Exact m (r.apply m).1 (r.apply m).2 := by
  have hreport : (r.apply m).1 = ⟨r.distinctRemovals.filter m.contains, r.updates.keys,
      r.distinctRemovals.filter (!m.contains ·)⟩ := by rw [apply_eq]
  have horder : InFirstSeenOrder r.removals r.distinctRemovals :=
    inFirstSeenOrder_distinct r.removals
  rw [hreport]
  exact {
    written := fun _ _ hv => get?_apply_of_wants (.updated hv) m
    erased := fun _ hk => get?_apply_of_wants (.removed hk) m
    kept := fun _ hk => get?_apply_of_not_mentions hk m
    removed := rfl
    missing := rfl
    removed_order := horder.filter _
    missing_order := horder.filter _
    updated := rfl
    updated_order := r.updates.ordered.keys_pairwise
    once := r.nodup_report m
    complete := fun _ => mem_report }

end Catalog.AlterDatabase
