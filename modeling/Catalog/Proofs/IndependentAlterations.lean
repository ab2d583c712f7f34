import Catalog.Proofs.AlterationReports

/-! Alterations that mention no common key. What a request reports is decided by which of its removals
are there, so an independent request in front of it changes neither its report nor what it leaves of
its own keys. Hence independent requests may be applied in either order, and a request that is applied
again finds its work done, whatever independent requests came in between. -/

namespace Catalog.AlterDatabase
variable {a b r s : AlterDatabase} {rs : List AlterDatabase} {m m' : KeyMap String} {k : String}

/-- No key is mentioned by both requests. -/
def Independent (a b : AlterDatabase) : Prop :=
  ∀ k, a.Mentions k → ¬b.Mentions k

theorem Independent.symm (h : a.Independent b) : b.Independent a :=
  fun k hb ha => h k ha hb

theorem mentions_iff : r.Mentions k ↔ k ∈ r.removals ++ r.updates.keys := by
  rw [List.mem_append, KeyMap.mem_keys_iff, Mentions]

instance (a b : AlterDatabase) : Decidable (a.Independent b) :=
  decidable_of_iff
    (∀ k ∈ a.removals ++ a.updates.keys, k ∉ b.removals ++ b.updates.keys)
    (by simp only [Independent, mentions_iff])

/-- Maps that have the same of the removals of a request give the same report. -/
theorem report_congr (h : ∀ k ∈ r.removals, m.contains k = m'.contains k) :
    (r.apply m).1 = (r.apply m').1 := by
  have hsame : ∀ k ∈ r.distinctRemovals, m.contains k = m'.contains k := fun k hk =>
    h k (mem_distinctRemovals.mp hk)
  have hremoved : r.distinctRemovals.filter m.contains = r.distinctRemovals.filter m'.contains :=
    List.filter_congr hsame
  have hmissing : r.distinctRemovals.filter (!m.contains ·) =
      r.distinctRemovals.filter (!m'.contains ·) :=
    List.filter_congr fun k hk => by rw [hsame k hk]
  rw [apply_eq, apply_eq, hremoved, hmissing]

/-- What a request leaves of a key is decided by what was there of the key. -/
theorem get?_apply_congr (h : m.get? k = m'.get? k) :
    (r.apply m).2.get? k = (r.apply m').2.get? k := by
  rw [get?_apply, get?_apply, h]

theorem Independent.same_report (h : a.Independent b) (m : KeyMap String) :
    (a.apply (b.apply m).2).1 = (a.apply m).1 := by
  apply report_congr
  intro k hk
  have hb : ¬b.Mentions k := h k (Or.inl hk)
  rw [KeyMap.contains, get?_apply_of_not_mentions hb, KeyMap.contains]

theorem Independent.same_map (h : a.Independent b) (m : KeyMap String) :
    (b.apply (a.apply m).2).2 = (a.apply (b.apply m).2).2 := by
  apply KeyMap.ext_get?
  intro k
  -- One of the requests does not mention the key, so only the other one has a say in it.
  by_cases ha : a.Mentions k
  · have hb : ¬b.Mentions k := h k ha
    calc (b.apply (a.apply m).2).2.get? k
        = (a.apply m).2.get? k := get?_apply_of_not_mentions hb _
      _ = (a.apply (b.apply m).2).2.get? k :=
        get?_apply_congr (get?_apply_of_not_mentions hb m).symm
  · calc (b.apply (a.apply m).2).2.get? k
        = (b.apply m).2.get? k := get?_apply_congr (get?_apply_of_not_mentions ha m)
      _ = (a.apply (b.apply m).2).2.get? k := (get?_apply_of_not_mentions ha _).symm

/-- Two requests that mention no common key leave the same map in either order, and each of them
reports the same whether it comes first or second. -/
theorem apply_comm (a b : AlterDatabase) (h : a.Independent b) (m : KeyMap String) :
    (b.apply (a.apply m).2).2 = (a.apply (b.apply m).2).2 ∧
      (a.apply m).1 = (a.apply (b.apply m).2).1 ∧
      (b.apply (a.apply m).2).1 = (b.apply m).1 := by
  have hmap : (b.apply (a.apply m).2).2 = (a.apply (b.apply m).2).2 := h.same_map m
  have hfirst : (a.apply (b.apply m).2).1 = (a.apply m).1 := h.same_report m
  have hsecond : (b.apply (a.apply m).2).1 = (b.apply m).1 := h.symm.same_report m
  exact ⟨hmap, hfirst.symm, hsecond⟩

/-- A new owner, without the drafts of the old one. -/
def handover : AlterDatabase where
  removals := ["draft", "contact", "draft"]
  updates := .ofEntries [("owner", "team_b")]
  keys_ne := by decide
  disjoint := by decide

/-- A new place, and with it another tier. -/
def relocation : AlterDatabase where
  removals := ["zone"]
  updates := .ofEntries [("tier", "cold"), ("region", "north")]
  keys_ne := by decide
  disjoint := by decide

/-- What the two requests find: some of their removals, and one of their updates. -/
def salesProperties : KeyMap String :=
  .ofEntries [("draft", "yes"), ("tier", "hot"), ("team", "a"), ("zone", "7")]

theorem apply_comm_handover_relocation :
    handover.Independent relocation ∧
      (relocation.apply (handover.apply salesProperties).2).2 =
        (handover.apply (relocation.apply salesProperties).2).2 ∧
      (handover.apply salesProperties).1 = (handover.apply (relocation.apply salesProperties).2).1 ∧
      (relocation.apply (handover.apply salesProperties).2).1 = (relocation.apply salesProperties).1 := by
  have h : handover.Independent relocation := by decide
  exact ⟨h, apply_comm handover relocation h salesProperties⟩

/-- The map is as the request wants it: removed keys are absent, and updated keys have their new
values. -/
def Fulfilled (r : AlterDatabase) (m : KeyMap String) : Prop :=
  ∀ k x, r.Wants k x → m.get? k = x

theorem Wants.mentions {x : Option String} (h : r.Wants k x) : r.Mentions k := by
  cases h with
  | removed hk => exact Or.inl hk
  | updated hv => exact Or.inr (by simp [KeyMap.contains, hv])

theorem fulfilled_apply (r : AlterDatabase) (m : KeyMap String) : r.Fulfilled (r.apply m).2 :=
  fun _ _ hx => get?_apply_of_wants hx m

/-- An independent request does not touch what a request wants. -/
theorem Fulfilled.step (h : r.Fulfilled m) (hs : r.Independent s) : r.Fulfilled (s.apply m).2 := by
  intro k x hx
  have hk : ¬s.Mentions k := hs k hx.mentions
  rw [get?_apply_of_not_mentions hk]
  exact h k x hx

theorem Fulfilled.run (h : r.Fulfilled m) (hrs : ∀ s ∈ rs, r.Independent s) :
    r.Fulfilled (applyAll rs m) := by
  induction rs generalizing m with
  | nil => exact h
  | cons s rs ih =>
    have hs : r.Independent s := hrs s List.mem_cons_self
    rw [applyAll_cons]
    exact ih (h.step hs) fun t ht => hrs t (List.mem_cons_of_mem s ht)

theorem Fulfilled.contains_eq_false (h : r.Fulfilled m) (hk : k ∈ r.removals) :
    m.contains k = false :=
  KeyMap.get?_eq_none_iff.mp (h k none (.removed hk))

/-- Where all is as the request wants it, the request finds none of its removals and changes
nothing. -/
theorem Fulfilled.apply_unchanged (h : r.Fulfilled m) :
    r.apply m = (⟨[], r.updates.keys, r.distinctRemovals⟩, m) := by
  have habsent : ∀ k ∈ r.distinctRemovals, m.contains k = false := fun k hk =>
    h.contains_eq_false (mem_distinctRemovals.mp hk)
  have hremoved : r.distinctRemovals.filter m.contains = [] :=
    List.filter_eq_nil_iff.mpr fun k hk => by simp [habsent k hk]
  have hmissing : r.distinctRemovals.filter (!m.contains ·) = r.distinctRemovals :=
    List.filter_eq_self.mpr fun k hk => by simp [habsent k hk]
  have hleft : (r.apply m).2 = m := by
    apply KeyMap.ext_get?
    intro k
    by_cases hk : k ∈ r.removals
    · have hnone : m.get? k = none := h k none (.removed hk)
      rw [get?_apply, if_pos hk, hnone]
    · rw [get?_apply, if_neg hk]
      cases hv : r.updates.get? k with
      | none => rw [Option.none_or]
      | some v => rw [Option.some_or, h k (some v) (.updated hv)]
  have hreport : (r.apply m).1 = ⟨[], r.updates.keys, r.distinctRemovals⟩ := by
    rw [apply_eq, hremoved, hmissing]
  exact Prod.ext hreport hleft

/-- A request that is applied again leaves the map as it finds it. It reports the same updates as
before, nothing removed, and all its removals missing in their order. So it does when any requests
were applied in between that mention none of its keys. -/
theorem apply_again (r : AlterDatabase) (m : KeyMap String) :
    r.apply (r.apply m).2 =
        (⟨[], (r.apply m).1.updated, r.distinctRemovals⟩, (r.apply m).2) ∧
      ∀ rs : List AlterDatabase, (∀ s ∈ rs, r.Independent s) →
        r.apply (applyAll rs (r.apply m).2) =
          (⟨[], (r.apply m).1.updated, r.distinctRemovals⟩, applyAll rs (r.apply m).2) := by
  have hupdated : (r.apply m).1.updated = r.updates.keys := by rw [apply_eq]
  have hdone : r.Fulfilled (r.apply m).2 := fulfilled_apply r m
  rw [hupdated]
  exact ⟨hdone.apply_unchanged, fun rs hrs => (hdone.run hrs).apply_unchanged⟩

theorem apply_again_after_relocation :
    (∀ s ∈ [relocation, relocation], handover.Independent s) ∧
      handover.apply (applyAll [relocation, relocation] (handover.apply salesProperties).2) =
        (⟨[], (handover.apply salesProperties).1.updated, ["draft", "contact"]⟩,
          applyAll [relocation, relocation] (handover.apply salesProperties).2) := by
  have h : ∀ s ∈ [relocation, relocation], handover.Independent s := by decide
  exact ⟨h, (apply_again handover salesProperties).2 [relocation, relocation] h⟩

end Catalog.AlterDatabase
