import Mathlib.Data.List.Induction
import Catalog.Proofs.Alteration

/-! Removals that are given more than once. A request removes each key where its removals name it
first. The keys and the order of their first occurrences are all that is left of the removals, so
further copies of a key make no difference to what the request reports and leaves. -/

namespace Catalog.AlterDatabase

/-- The texts of `ks` without repeats, in the order in which they occur first. -/
structure FirstSeen (ks firsts : List String) : Prop where
  nodup : firsts.Nodup
  complete : ∀ k, k ∈ firsts ↔ k ∈ ks
  order : InFirstSeenOrder ks firsts

/-- The lists have the same texts, of which the same ones occur before the others. -/
structure SameFirsts (ks ls : List String) : Prop where
  mem_iff : ∀ k, k ∈ ks ↔ k ∈ ls
  before_iff : ∀ a ∈ ks, ∀ b ∈ ks, ks.idxOf a < ks.idxOf b ↔ ls.idxOf a < ls.idxOf b

/-- The list `ks` with further copies of its texts, each behind one that stands there already. -/
inductive Copied (ks : List String) : List String → Prop where
  | same : Copied ks ks
  | copy {before after : List String} {k : String} (h : Copied ks (before ++ after))
    (hk : k ∈ before) : Copied ks (before ++ k :: after)

/-- Keeps a text unless it has been kept before. -/
def keepNew (kept : List String) (k : String) : List String :=
  if k ∈ kept then kept else kept ++ [k]

section Lists
variable {ks ls firsts : List String}

theorem firstSeen_distinct (ks : List String) : FirstSeen ks (distinct ks) where
  nodup := nodup_distinct ks
  complete := fun _ => mem_distinct
  order := inFirstSeenOrder_distinct ks

/-- There is one way to list the texts by their first occurrences. -/
theorem FirstSeen.eq_distinct (h : FirstSeen ks firsts) : firsts = distinct ks := by
  have hperm : firsts.Perm (distinct ks) := by
    apply (List.perm_ext_iff_of_nodup h.nodup (nodup_distinct ks)).mpr
    intro k
    rw [h.complete, mem_distinct]
  apply hperm.eq_of_pairwise _ h.order (inFirstSeenOrder_distinct ks)
  intro a b _ _ hab hba
  omega

/-- In a list that goes by first occurrences, what stands in front occurs first. -/
theorem InFirstSeenOrder.idxOf_lt_iff (h : InFirstSeenOrder ks firsts) {a b : String}
    (ha : a ∈ firsts) (hb : b ∈ firsts) :
    firsts.idxOf a < firsts.idxOf b ↔ ks.idxOf a < ks.idxOf b := by
  have hforward {a b : String} (hb : b ∈ firsts) (hab : firsts.idxOf a < firsts.idxOf b) :
      ks.idxOf a < ks.idxOf b := by
    have hblt : firsts.idxOf b < firsts.length := List.idxOf_lt_length_of_mem hb
    have hlt := List.pairwise_iff_getElem.mp h _ _ (hab.trans hblt) hblt hab
    rwa [List.getElem_idxOf, List.getElem_idxOf] at hlt
  refine ⟨hforward hb, fun hlt => ?_⟩
  by_contra hnot
  rcases Nat.lt_or_eq_of_le (Nat.not_lt.mp hnot) with hba | heq
  · have hgt := hforward ha hba
    omega
  · rw [(List.idxOf_inj hb).mp heq] at hlt
    omega

theorem distinct_eq_iff : distinct ls = distinct ks ↔ SameFirsts ks ls := by
  constructor
  · intro heq
    have hmem : ∀ k, k ∈ ks ↔ k ∈ ls := fun k => by rw [← mem_distinct, ← heq, mem_distinct]
    refine ⟨hmem, fun a ha b hb => ?_⟩
    -- Both orders of first occurrences are the order of the one list without repeats.
    calc ks.idxOf a < ks.idxOf b
        ↔ (distinct ks).idxOf a < (distinct ks).idxOf b :=
          ((inFirstSeenOrder_distinct ks).idxOf_lt_iff (mem_distinct.mpr ha)
            (mem_distinct.mpr hb)).symm
      _ ↔ (distinct ls).idxOf a < (distinct ls).idxOf b := by rw [heq]
      _ ↔ ls.idxOf a < ls.idxOf b :=
          (inFirstSeenOrder_distinct ls).idxOf_lt_iff (mem_distinct.mpr ((hmem a).mp ha))
            (mem_distinct.mpr ((hmem b).mp hb))
  · intro h
    have hseen : FirstSeen ks (distinct ls) := by
      refine ⟨nodup_distinct ls, fun k => by rw [mem_distinct, h.mem_iff], ?_⟩
      refine (inFirstSeenOrder_distinct ls).imp_of_mem fun {a b} ha hb hab => ?_
      have haks : a ∈ ks := (h.mem_iff a).mpr (mem_distinct.mp ha)
      have hbks : b ∈ ks := (h.mem_iff b).mpr (mem_distinct.mp hb)
      exact (h.before_iff a haks b hbks).mpr hab
    exact hseen.eq_distinct

/-- Of further texts those are new that the list has not. -/
theorem distinct_append (ks ls : List String) :
    distinct (ks ++ ls) = distinct ks ++ (distinct ls).filter (· ∉ ks) := by
  induction ks with
  | nil => simp [distinct]
  | cons k ks ih =>
    have hrest : ((distinct ls).filter (· ∉ ks)).filter (· ≠ k) =
        (distinct ls).filter (· ∉ k :: ks) := by
      rw [List.filter_filter]
      apply List.filter_congr
      intro l _
      simp [not_or]
    rw [List.cons_append, distinct, ih, List.filter_append, hrest, distinct, List.cons_append]

/-- A further copy of a text is dropped. -/
theorem distinct_copy {before after : List String} {k : String} (hk : k ∈ before) :
    distinct (before ++ k :: after) = distinct (before ++ after) := by
  have hfront : (distinct (k :: after)).filter (· ∉ before) =
      (distinct after).filter (· ∉ before) := by
    rw [distinct, List.filter_cons_of_neg (by simpa using hk), List.filter_filter]
    apply List.filter_congr
    intro l _
    by_cases hl : l ∈ before
    · simp [hl]
    · have hne : l ≠ k := fun h => hl (h ▸ hk)
      simp [hl, hne]
  rw [distinct_append, distinct_append, hfront]

theorem Copied.distinct_eq (h : Copied ks ls) : distinct ls = distinct ks := by
  induction h with
  | same => rfl
  | copy _ hk ih => rw [distinct_copy hk, ih]

/-- One step of the pass. -/
theorem distinct_concat (ks : List String) (k : String) :
    distinct (ks ++ [k]) = keepNew (distinct ks) k := by
  rw [distinct_append, keepNew]
  by_cases hk : k ∈ ks
  · simp [distinct, mem_distinct, hk]
  · simp [distinct, mem_distinct, hk]

/-- One pass that keeps what it has not kept yet ends with the distinct texts. -/
theorem foldl_keepNew (ks : List String) : ks.foldl keepNew [] = distinct ks := by
  induction ks using List.reverseRecOn with
  | nil => rfl
  | append_singleton ks k ih => rw [List.foldl_concat, ih, distinct_concat]

end Lists

/-- What a request does is told by its removals without repeats and its updates. -/
theorem apply_congr {a b : AlterDatabase} (hremovals : a.distinctRemovals = b.distinctRemovals)
    (hupdates : a.updates = b.updates) (m : KeyMap String) : a.apply m = b.apply m := by
  rw [apply_eq, apply_eq, hremovals, hupdates]

/-- A list with the same texts takes the place of the removals. -/
theorem exists_of_mem_iff (r : AlterDatabase) {ks : List String}
    (h : ∀ k, k ∈ ks ↔ k ∈ r.removals) :
    ∃ r', new ks r.updates = .ok r' ∧ r'.removals = ks ∧ r'.updates = r.updates := by
  let r' : AlterDatabase :=
    { removals := ks
      updates := r.updates
      keys_ne := ⟨fun k hk => r.keys_ne.1 k ((h k).mp hk), r.keys_ne.2⟩
      disjoint := fun k hk => r.disjoint k ((h k).mp hk) }
  exact ⟨r', new_eq_ok.mpr ⟨rfl, rfl⟩, rfl, rfl⟩

/-- A request goes once through its removals and keeps each key where it occurs first. So it lists
the keys of the removals without repeats and by their first occurrences, which fixes the list: other
removals give the same list exactly when they have the same keys in the same order of first
occurrences, and then a request with the same updates reports and leaves the same. With further
copies of keys behind their first occurrences a request can still be made, and does the same. -/
theorem distinctRemovals_stable (r : AlterDatabase) :
    r.removals.foldl keepNew [] = r.distinctRemovals ∧
      FirstSeen r.removals r.distinctRemovals ∧
      (∀ ks, FirstSeen r.removals ks → ks = r.distinctRemovals) ∧
      (∀ other : AlterDatabase, SameFirsts r.removals other.removals ↔
        other.distinctRemovals = r.distinctRemovals) ∧
      (∀ other : AlterDatabase, SameFirsts r.removals other.removals →
        other.updates = r.updates → ∀ m, other.apply m = r.apply m) ∧
      ∀ ks, Copied r.removals ks → ∃ r', new ks r.updates = .ok r' ∧
        r'.distinctRemovals = r.distinctRemovals ∧ ∀ m, r'.apply m = r.apply m := by
  refine ⟨foldl_keepNew r.removals, firstSeen_distinct r.removals, fun _ h => h.eq_distinct,
    fun _ => distinct_eq_iff.symm, ?_, ?_⟩
  · intro other hfirsts hupdates m
    exact apply_congr (distinct_eq_iff.mpr hfirsts) hupdates m
  · intro ks hcopied
    have hdistinct : distinct ks = distinct r.removals := hcopied.distinct_eq
    have hmem : ∀ k, k ∈ ks ↔ k ∈ r.removals := fun k => by
      rw [← mem_distinct, hdistinct, mem_distinct]
    obtain ⟨r', hmade, rfl, hupdates⟩ := r.exists_of_mem_iff hmem
    exact ⟨r', hmade, hdistinct, apply_congr hdistinct hupdates⟩

example : distinct ["z", "a", "z", "m", "a"] = ["z", "a", "m"] := by decide

end Catalog.AlterDatabase
