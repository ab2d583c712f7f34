import Mathlib.Data.List.Basic
import Catalog.Proofs.Construction
import Catalog.Proofs.Entries

/-! One alteration. Its two loops are told by what they leave of each key, and by the keys that they
report; the removals are distinct, so what one of them finds is not changed by those before it. -/

namespace Catalog.AlterDatabase

theorem mem_distinct {k : String} {ks : List String} : k ∈ distinct ks ↔ k ∈ ks := by
  induction ks with
  | nil => simp [distinct]
  | cons k₁ ks ih => by_cases h : k = k₁ <;> simp [distinct, h, ih]

theorem nodup_distinct (ks : List String) : (distinct ks).Nodup := by
  induction ks with
  | nil => exact List.nodup_nil
  | cons k ks ih =>
    have hk : k ∉ (distinct ks).filter (· ≠ k) := by simp
    exact List.nodup_cons.mpr ⟨hk, ih.filter _⟩

/-- The texts of `ks` go by where they occur first in `seen`. -/
def InFirstSeenOrder (seen ks : List String) : Prop :=
  ks.Pairwise fun a b => seen.idxOf a < seen.idxOf b

theorem inFirstSeenOrder_distinct (ks : List String) : InFirstSeenOrder ks (distinct ks) := by
  induction ks with
  | nil => exact List.Pairwise.nil
  | cons k ks ih =>
    have hne : ∀ a ∈ (distinct ks).filter (· ≠ k), a ≠ k := by simp
    -- All texts other than `k` occur one place later than they did without it.
    have hlater {a : String} (ha : a ≠ k) : (k :: ks).idxOf a = ks.idxOf a + 1 :=
      List.idxOf_cons_ne _ ha.symm
    refine List.pairwise_cons.mpr ⟨fun a ha => ?_, ?_⟩
    · rw [List.idxOf_cons_self, hlater (hne a ha)]
      exact Nat.succ_pos _
    · refine (ih.filter _).imp_of_mem fun ha hb hab => ?_
      rw [hlater (hne _ ha), hlater (hne _ hb)]
      exact Nat.succ_lt_succ hab

theorem nodup_distinctRemovals (r : AlterDatabase) : r.distinctRemovals.Nodup :=
  nodup_distinct r.removals

theorem mem_distinctRemovals {r : AlterDatabase} {k : String} :
    k ∈ r.distinctRemovals ↔ k ∈ r.removals :=
  mem_distinct

/-- One removal: the key is reported by whether it is there, and is erased. -/
theorem remove_eq (o : AlterOutcome) (m : KeyMap String) (k : String) :
    remove (o, m) k =
      (⟨o.removed ++ [k].filter m.contains, o.updated,
        o.missing ++ [k].filter (!m.contains ·)⟩, m.erase k) := by
  cases h : m.contains k with
  | true => simp [remove, h]
  | false => simp [remove, h, KeyMap.erase_of_not_contains h]

/-- The loop over distinct removals, from what has been reported before. -/
theorem foldl_remove {ks : List String} (hn : ks.Nodup) (o : AlterOutcome) (m : KeyMap String) :
    ks.foldl remove (o, m) =
      (⟨o.removed ++ ks.filter m.contains, o.updated, o.missing ++ ks.filter (!m.contains ·)⟩,
        ks.foldl KeyMap.erase m) := by
  induction ks generalizing o m with
  | nil => simp
  | cons k ks ih =>
    obtain ⟨hk, hks⟩ := List.nodup_cons.mp hn
    -- The keys to come are others than `k`, so they are found as they were before `k` was erased.
    have hsame : ∀ k' ∈ ks, (m.erase k).contains k' = m.contains k' := fun k' hk' =>
      KeyMap.contains_erase_of_ne fun he => hk (he ▸ hk')
    have hremoved : ks.filter (m.erase k).contains = ks.filter m.contains :=
      List.filter_congr hsame
    have hmissing : ks.filter (!(m.erase k).contains ·) = ks.filter (!m.contains ·) :=
      List.filter_congr fun k' hk' => by rw [hsame k' hk']
    rw [List.foldl_cons, remove_eq, ih hks, hremoved, hmissing]
    cases h : m.contains k <;> simp [h]

theorem foldl_write (es : List (String × String)) (o : AlterOutcome) (m : KeyMap String) :
    es.foldl write (o, m) =
      (⟨o.removed, o.updated ++ es.map Prod.fst, o.missing⟩,
        es.foldl (fun acc e => acc.insert e.1 e.2) m) := by
  induction es generalizing o m with
  | nil => simp
  | cons e es ih => simp [write, ih]

/-- What an alteration reports, and what it leaves. -/
theorem apply_eq (r : AlterDatabase) (m : KeyMap String) :
    r.apply m =
      (⟨r.distinctRemovals.filter m.contains, r.updates.keys,
        r.distinctRemovals.filter (!m.contains ·)⟩,
      (r.distinctRemovals.foldl KeyMap.erase m).update r.updates) := by
  rw [apply, foldl_remove r.nodup_distinctRemovals, foldl_write]
  simp [KeyMap.keys, Entries.keys, KeyMap.update]

theorem get?_updates_of_mem {r : AlterDatabase} {k : String} (h : k ∈ r.removals) :
    r.updates.get? k = none :=
  KeyMap.get?_eq_none_iff.mpr (r.disjoint k h)

/-- A removed key is absent afterwards, an updated key has its new value, and others keep theirs. -/
theorem get?_apply (r : AlterDatabase) (m : KeyMap String) (k : String) :
    (r.apply m).2.get? k =
      if k ∈ r.removals then none else (r.updates.get? k).or (m.get? k) := by
  rw [apply_eq, KeyMap.get?_update, KeyMap.get?_foldl_erase]
  by_cases h : k ∈ r.removals
  · simp [mem_distinctRemovals, h, get?_updates_of_mem h]
  · simp [mem_distinctRemovals, h]

end Catalog.AlterDatabase
