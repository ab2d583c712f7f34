import Catalog.Proofs.AlterationVerdicts
import Catalog.Request.Basic

/-! What the constructors of requests accept. A request keeps what it was made of, and its own parts
make it again; so the requests are exactly the values that the constructors give. -/

namespace Catalog
variable {ε δ α β : Type}

/-- A sequence of two steps gives a result when both do. -/
theorem bind_eq_ok {x : Except ε α} {f : α → Except ε β} {b : β} :
    (x >>= f) = .ok b ↔ ∃ a, x = .ok a ∧ f a = .ok b := by
  cases x <;> simp [bind, Except.bind]

/-- A sequence of two steps fails when the first does, or the second after the first. -/
theorem bind_eq_error {x : Except ε α} {f : α → Except ε β} {e : ε} :
    (x >>= f) = .error e ↔ x = .error e ∨ ∃ a, x = .ok a ∧ f a = .error e := by
  cases x <;> simp [bind, Except.bind]

@[simp]
theorem pure_eq_ok {a b : α} : (pure a : Except ε α) = .ok b ↔ a = b := by
  simp [pure, Except.pure]

@[simp]
theorem mapError_eq_ok {x : Except ε α} {f : ε → δ} {a : α} :
    x.mapError f = .ok a ↔ x = .ok a := by
  cases x with
  | ok b => constructor <;> rintro ⟨⟩ <;> rfl
  | error e => constructor <;> rintro ⟨⟩

theorem map_eq_ok {x : Except ε α} {f : α → β} {b : β} :
    x.map f = .ok b ↔ ∃ a, x = .ok a ∧ f a = b := by
  cases x <;> simp [Except.map]

theorem toOption_eq_some {x : Except ε α} {a : α} : x.toOption = some a ↔ x = .ok a := by
  cases x <;> simp [Except.toOption]

theorem NamingRules.check_eq_ok {rules : NamingRules} {field : Field} {name : String} {u : Unit} :
    rules.check field name = .ok u ↔ rules.breach? name = none := by
  unfold NamingRules.check
  split
  · next r hr => simp [hr]
  · next hn => simp [hn]

/-- Without limits a name only may not be empty. -/
theorem NamingRules.breach_default_eq_none {name : String} :
    NamingRules.breach? {} name = none ↔ name ≠ "" := by
  by_cases h : name = "" <;> simp [NamingRules.breach?, h]

/-- The name breaks none of the rules. -/
structure NamingRules.Allows (rules : NamingRules) (name : String) : Prop where
  ne : name ≠ ""
  length : ∀ max, rules.maxLength = some max → name.length ≤ max
  chars : ∀ c ∈ name.toList, c ∉ rules.forbidden

theorem NamingRules.breach_eq_none {rules : NamingRules} {name : String} :
    rules.breach? name = none ↔ rules.Allows name := by
  have hlength : rules.maxLength.any (· < name.length) = false ↔
      ∀ max, rules.maxLength = some max → name.length ≤ max := by
    cases rules.maxLength <;> simp
  have hchars : name.toList.find? (rules.forbidden.contains ·) = none ↔
      ∀ c ∈ name.toList, c ∉ rules.forbidden := by
    simp
  unfold breach?
  constructor
  · intro h
    split at h
    · cases h
    · next hne =>
      split at h
      · cases h
      · next hlong =>
        exact ⟨hne, hlength.mp (Bool.eq_false_iff.mpr hlong),
          hchars.mp (Option.map_eq_none_iff.mp h)⟩
  · rintro ⟨hne, hlong, hforbidden⟩
    rw [if_neg hne, hlength.mpr hlong, hchars.mpr hforbidden]
    rfl

theorem Identifier.new_eq_ok {database object : String} {id : Identifier} :
    Identifier.new database object = .ok id ↔ database = id.database ∧ object = id.object := by
  unfold Identifier.new
  constructor
  · intro h
    split at h
    · cases h
    · split at h
      · cases h
      · cases h
        exact ⟨rfl, rfl⟩
  · rintro ⟨rfl, rfl⟩
    simp only [id.names_ne.1, id.names_ne.2, ↓reduceDIte]

theorem CreateDatabase.new_eq_ok {rules : NamingRules} {name : String} {properties : KeyMap String}
    {r : CreateDatabase} :
    CreateDatabase.new rules name properties = .ok r ↔
      name = r.name ∧ properties = r.properties ∧ rules.breach? name = none := by
  unfold CreateDatabase.new
  constructor
  · intro h
    split at h
    · cases h
    · next hn =>
      split at h
      · cases h
      · cases h
        exact ⟨rfl, rfl, hn⟩
  · rintro ⟨rfl, rfl, hn⟩
    split
    · next b hb =>
      rw [hn] at hb
      cases hb
    · simp only [KeyMap.startsEmpty_eq_contains, r.keys_ne, Bool.false_eq_true, ↓reduceDIte]

theorem AlterDatabase.new_eq_ok {removals : List String} {updates : KeyMap String}
    {r : AlterDatabase} :
    AlterDatabase.new removals updates = .ok r ↔ removals = r.removals ∧ updates = r.updates := by
  constructor
  · intro h
    have hverdict := verdict_new removals updates
    rw [h] at hverdict
    cases hverdict with
    | made _ _ _ hremovals hupdates => exact ⟨hremovals.symm, hupdates.symm⟩
  · rintro ⟨rfl, rfl⟩
    exact r.verdict_parts.new_eq

/-- Parts that are right on their own make a request unless a removal is also updated. -/
theorem AlterDatabase.new_of_parts {removals : List String} {updates : KeyMap String}
    (hl : ∀ k ∈ removals, k ≠ "") (hu : updates.contains "" = false) :
    (∃ r, AlterDatabase.new removals updates = .ok r) ∨
      ∃ i key, removals[i]? = some key ∧ updates.contains key = true ∧
        AlterDatabase.new removals updates = .error ⟨removalField i, .alsoUpdated key⟩ := by
  have hverdict := verdict_new removals updates
  generalize AlterDatabase.new removals updates = x at hverdict ⊢
  cases hverdict with
  | emptyRemoval first => exact absurd rfl (hl "" (List.mem_of_getElem? first.1))
  | emptyKey _ key => cases hu.symm.trans (KeyMap.mem_keys_iff.mp key)
  | @alsoUpdated i key _ _ first here =>
    obtain ⟨k, hk, hmem⟩ := first.1
    cases here.symm.trans hk
    exact Or.inr ⟨i, key, here, KeyMap.mem_keys_iff.mp hmem, rfl⟩
  | @made r => exact Or.inl ⟨r, rfl⟩

theorem AlterDatabase.emptyRemoval_eq_none {removals : List String}
    (h : ∀ k ∈ removals, k ≠ "") : AlterDatabase.emptyRemoval? removals = none :=
  emptyRemoval?_eq_none_iff.mpr fun hmem => h "" hmem rfl

theorem RenameTable.new_eq_ok {source destination : Identifier} {r : RenameTable} :
    RenameTable.new source destination = .ok r ↔
      source = r.source ∧ destination = r.destination := by
  unfold RenameTable.new
  constructor
  · intro h
    split at h
    · cases h
    · cases h
      exact ⟨rfl, rfl⟩
  · rintro ⟨rfl, rfl⟩
    simp only [r.source_ne, ↓reduceDIte]

end Catalog
