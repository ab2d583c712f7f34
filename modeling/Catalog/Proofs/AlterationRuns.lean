import Catalog.Proofs.Alteration

/-! Runs of alterations. Each request is applied to what the one before it left. The last request
that mentions a key decides what becomes of the key, and a key that no request mentions is kept. -/

namespace Catalog.AlterDatabase

/-- What is left of a map when requests are applied to it one after the other. -/
def applyAll (rs : List AlterDatabase) (m : KeyMap String) : KeyMap String :=
  rs.foldl (fun m r => (r.apply m).2) m

/-- The key is removed or updated by the request. -/
def Mentions (r : AlterDatabase) (k : String) : Prop :=
  k ∈ r.removals ∨ r.updates.contains k = true

/-- What the request wants of a key: that it has a value, or that it is absent. -/
inductive Wants (r : AlterDatabase) (k : String) : Option String → Prop where
  | updated {v : String} (h : r.updates.get? k = some v) : Wants r k (some v)
  | removed (h : k ∈ r.removals) : Wants r k none

theorem get?_apply_of_wants {r : AlterDatabase} {k : String} {x : Option String}
    (h : r.Wants k x) (m : KeyMap String) : (r.apply m).2.get? k = x := by
  rw [get?_apply]
  cases h with
  | removed hk => rw [if_pos hk]
  | @updated v hv =>
    -- An updated key is not removed by the same request.
    have hk : k ∉ r.removals := by
      intro hk
      rw [get?_updates_of_mem hk] at hv
      cases hv
    rw [if_neg hk, hv, Option.some_or]

theorem get?_apply_of_not_mentions {r : AlterDatabase} {k : String} (h : ¬r.Mentions k)
    (m : KeyMap String) : (r.apply m).2.get? k = m.get? k := by
  obtain ⟨hk, hu⟩ := not_or.mp h
  have hnone : r.updates.get? k = none :=
    KeyMap.get?_eq_none_iff.mpr (KeyMap.contains_eq_false hu)
  rw [get?_apply, if_neg hk, hnone, Option.none_or]

theorem applyAll_cons (r : AlterDatabase) (rs : List AlterDatabase) (m : KeyMap String) :
    applyAll (r :: rs) m = applyAll rs (r.apply m).2 := rfl

theorem applyAll_append (rs ss : List AlterDatabase) (m : KeyMap String) :
    applyAll (rs ++ ss) m = applyAll ss (applyAll rs m) :=
  List.foldl_append

/-- A run that does not mention a key keeps what the map has for it. -/
theorem get?_applyAll_of_not_mentions {rs : List AlterDatabase} {k : String}
    (h : ∀ r ∈ rs, ¬r.Mentions k) (m : KeyMap String) : (applyAll rs m).get? k = m.get? k := by
  induction rs generalizing m with
  | nil => rfl
  | cons r rs ih =>
    have hr : ¬r.Mentions k := h r List.mem_cons_self
    have hrs : ∀ s ∈ rs, ¬s.Mentions k := fun s hs => h s (List.mem_cons_of_mem _ hs)
    rw [applyAll_cons, ih hrs, get?_apply_of_not_mentions hr]

/-- After a whole run a key is as the last request that mentions it wants it: it has the value that
the request updates it to, or is absent if the request removes it. A key that is not mentioned in
the run is as it was. -/
theorem applyAll_last_word (rs : List AlterDatabase) (m : KeyMap String) (k : String) :
    (∀ before r after x, rs = before ++ r :: after → (∀ s ∈ after, ¬s.Mentions k) →
      r.Wants k x → (applyAll rs m).get? k = x) ∧
    ((∀ r ∈ rs, ¬r.Mentions k) → (applyAll rs m).get? k = m.get? k) := by
  refine ⟨?_, fun h => get?_applyAll_of_not_mentions h m⟩
  rintro before r after x rfl hafter hx
  calc (applyAll (before ++ r :: after) m).get? k
      = (applyAll after (r.apply (applyAll before m)).2).get? k := by
        rw [applyAll_append, applyAll_cons]
    _ = (r.apply (applyAll before m)).2.get? k := get?_applyAll_of_not_mentions hafter _
    _ = x := get?_apply_of_wants hx _

end Catalog.AlterDatabase
