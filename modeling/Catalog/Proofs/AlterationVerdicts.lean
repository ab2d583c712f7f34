import Mathlib.Order.Bounds.Basic
import Catalog.Proofs.Entries
import Catalog.Request.Alter

/-! What becomes of removals and updates that are to make an alteration. The rules are told without a
search: the least place that breaks the first broken rule is blamed, and what breaks no rule is kept
as it was given. They exclude each other, and one of them always applies. -/

namespace Catalog

/-- The search from the front finds the least index. -/
theorem findIdx?_eq_some_iff_isLeast {P : String → Prop} [DecidablePred P] {l : List String}
    {i : Nat} :
    l.findIdx? (fun k => P k) = some i ↔ IsLeast {j | ∃ k, l[j]? = some k ∧ P k} i := by
  rw [List.findIdx?_eq_some_iff_getElem]
  constructor
  · intro h
    obtain ⟨hi, hp, hbefore⟩ := h
    refine ⟨⟨l[i], List.getElem?_eq_getElem hi, of_decide_eq_true hp⟩, ?_⟩
    intro j hj
    obtain ⟨k, hk, hpk⟩ := hj
    obtain ⟨hjl, rfl⟩ := List.getElem?_eq_some_iff.mp hk
    -- No text in front of `i` has the property, so `j` is not in front of it.
    apply Nat.le_of_not_lt
    intro hlt
    exact hbefore j hlt (decide_eq_true hpk)
  · intro h
    obtain ⟨⟨k, hk, hpk⟩, hleast⟩ := h
    obtain ⟨hi, rfl⟩ := List.getElem?_eq_some_iff.mp hk
    refine ⟨hi, decide_eq_true hpk, ?_⟩
    intro j hlt hpj
    have hj : l[j]? = some l[j] := List.getElem?_eq_getElem (Nat.lt_trans hlt hi)
    have hle : i ≤ j := hleast ⟨l[j], hj, of_decide_eq_true hpj⟩
    exact absurd hlt (Nat.not_lt.mpr hle)

namespace AlterDatabase
variable {removals : List String} {updates : KeyMap String} {i : Nat}

theorem emptyRemoval?_eq_some_iff :
    emptyRemoval? removals = some i ↔ IsLeast {j | removals[j]? = some ""} i := by
  simp only [emptyRemoval?, findIdx?_eq_some_iff_isLeast, exists_eq_right]

theorem emptyRemoval?_eq_none_iff : emptyRemoval? removals = none ↔ "" ∉ removals := by
  rw [emptyRemoval?, List.findIdx?_eq_none_iff]
  constructor
  · intro h hmem
    exact of_decide_eq_false (h "" hmem) rfl
  · intro h k hk
    exact decide_eq_false fun he => h (he ▸ hk)

theorem findIdx?_contains_eq_some_iff :
    removals.findIdx? (updates.contains ·) = some i ↔
      IsLeast {j | ∃ k, removals[j]? = some k ∧ k ∈ updates.keys} i := by
  have hcontains : (fun k => decide (k ∈ updates.keys)) = (updates.contains ·) := by
    funext k
    rw [Bool.decide_congr KeyMap.mem_keys_iff, Bool.decide_eq_true]
  rw [← findIdx?_eq_some_iff_isLeast, hcontains]

theorem startsEmpty_iff : updates.startsEmpty = true ↔ "" ∈ updates.keys := by
  rw [KeyMap.startsEmpty_eq_contains, KeyMap.mem_keys_iff]

/-- What has to become of removals and updates, by the first rule that they break. -/
inductive Verdict (removals : List String) (updates : KeyMap String) :
    Except Violation AlterDatabase → Prop where
  | emptyRemoval {i : Nat} (first : IsLeast {j | removals[j]? = some ""} i) :
    Verdict removals updates (.error ⟨removalField i, .empty⟩)
  | emptyKey (named : "" ∉ removals) (key : "" ∈ updates.keys) :
    Verdict removals updates (.error ⟨.ofKey "updates", .emptyKey⟩)
  | alsoUpdated {i : Nat} {key : String} (named : "" ∉ removals) (keyed : "" ∉ updates.keys)
    (first : IsLeast {j | ∃ k, removals[j]? = some k ∧ k ∈ updates.keys} i)
    (here : removals[i]? = some key) :
    Verdict removals updates (.error ⟨removalField i, .alsoUpdated key⟩)
  | made {r : AlterDatabase} (named : "" ∉ removals) (keyed : "" ∉ updates.keys)
    (apart : ∀ k ∈ removals, k ∉ updates.keys) (removals_eq : r.removals = removals)
    (updates_eq : r.updates = updates) : Verdict removals updates (.ok r)

theorem verdict_new (removals : List String) (updates : KeyMap String) :
    Verdict removals updates (new removals updates) := by
  unfold new
  split
  · next i hi => exact .emptyRemoval (emptyRemoval?_eq_some_iff.mp hi)
  · next hnone =>
    have named : "" ∉ removals := emptyRemoval?_eq_none_iff.mp hnone
    split
    · next hk => exact .emptyKey named (startsEmpty_iff.mp hk)
    · next hk =>
      have keyed : "" ∉ updates.keys := mt startsEmpty_iff.mpr hk
      split
      · next i hi =>
        have first := findIdx?_contains_eq_some_iff.mp hi
        obtain ⟨key, here, -⟩ := first.1
        have hkey : removals.getD i "" = key := by simp [List.getD, here]
        rw [hkey]
        exact .alsoUpdated named keyed first here
      · next hi =>
        have apart : ∀ k ∈ removals, k ∉ updates.keys := by
          intro k hk
          rw [KeyMap.mem_keys_iff, List.findIdx?_eq_none_iff.mp hi k hk]
          exact Bool.false_ne_true
        exact .made named keyed apart rfl rfl

/-- The rules exclude each other, and each of them blames one place for one reason. -/
theorem Verdict.unique {x y : Except Violation AlterDatabase} (hx : Verdict removals updates x)
    (hy : Verdict removals updates y) : x = y := by
  cases hx with
  | emptyRemoval first =>
    have hmem : "" ∈ removals := List.mem_of_getElem? first.1
    cases hy with
    | emptyRemoval first' => rw [first.unique first']
    | emptyKey named | alsoUpdated named | made named => exact absurd hmem named
  | emptyKey named key =>
    cases hy with
    | emptyRemoval first => exact absurd (List.mem_of_getElem? first.1) named
    | emptyKey => rfl
    | alsoUpdated _ keyed | made _ keyed => exact absurd key keyed
  | alsoUpdated named keyed first here =>
    cases hy with
    | emptyRemoval first' => exact absurd (List.mem_of_getElem? first'.1) named
    | emptyKey _ key => exact absurd key keyed
    | alsoUpdated _ _ first' here' =>
      obtain rfl := first.unique first'
      cases here.symm.trans here'
      rfl
    | made _ _ apart =>
      obtain ⟨k, hk, hu⟩ := first.1
      exact absurd hu (apart k (List.mem_of_getElem? hk))
  | @made r named keyed apart removals_eq updates_eq =>
    cases hy with
    | emptyRemoval first => exact absurd (List.mem_of_getElem? first.1) named
    | emptyKey _ key => exact absurd key keyed
    | alsoUpdated _ _ first =>
      obtain ⟨k, hk, hu⟩ := first.1
      exact absurd hu (apart k (List.mem_of_getElem? hk))
    | @made r' _ _ _ removals_eq' updates_eq' =>
      -- A request is nothing but its removals and its updates.
      cases r
      cases r'
      simp only at removals_eq updates_eq removals_eq' updates_eq'
      subst removals_eq updates_eq removals_eq' updates_eq'
      rfl

theorem Verdict.new_eq {x : Except Violation AlterDatabase} (h : Verdict removals updates x) :
    new removals updates = x :=
  (verdict_new removals updates).unique h

/-- The verdict of the parts of a request is the request. -/
theorem verdict_parts (r : AlterDatabase) : Verdict r.removals r.updates (.ok r) := by
  have named : "" ∉ r.removals := fun h => r.keys_ne.1 "" h rfl
  have keyed : "" ∉ r.updates.keys := by
    rw [KeyMap.mem_keys_iff, r.keys_ne.2]
    exact Bool.false_ne_true
  have apart : ∀ k ∈ r.removals, k ∉ r.updates.keys := by
    intro k hk
    rw [KeyMap.mem_keys_iff, r.disjoint k hk]
    exact Bool.false_ne_true
  exact .made named keyed apart rfl rfl

/-- The constructor gives the verdict, and no other: the first empty removal is blamed, else an empty
key of the updates wherever it stands among them, else the first removal that is also updated; and if
there is none of these, the request is made of the removals and updates as they were given. -/
theorem new_eq_iff_verdict (removals : List String) (updates : KeyMap String)
    (x : Except Violation AlterDatabase) :
    new removals updates = x ↔ Verdict removals updates x := by
  constructor
  · intro h
    rw [← h]
    exact verdict_new removals updates
  · intro h
    exact h.new_eq

example : (new ["zone", "tier", "tier"] (.ofEntries [("tier", "1"), ("zone", "7")])).mapError
    Violation.message = .error "invalid removals[0]: key \"zone\" is also in updates" := by decide

end AlterDatabase
end Catalog
