import Catalog.Proofs.BuiltinDocuments

/-! Runs of a registry. Any calls may follow one another, and registrations among them may fail.
What the registry does then hangs on its configuration and, for each kind, on the schema that was
registered last. -/

namespace Catalog.Registry

/-- What may be asked of a registry. -/
inductive Call where
  | register (kind : Kind) (schema : Json.Source)
  | registerValue (kind : Kind) (schema : Json)
  | validate (kind : Kind) (body : ByteArray)
  | validateValue (kind : Kind) (body : Json)
  | validateRequest (request : Request)

/-- The schema that a call is to register, unless it only validates or there is no value. -/
def Call.schema? : Call → Option (Kind × Json)
  | .register k s => (Json.parse s).toOption.map fun v => (k, v)
  | .registerValue k v => some (k, v)
  | _ => none

/-- What comes of a registration, and the registry afterwards: the old one if it has failed. -/
def settle (g : Registry) : Except SchemaError Registry → Except SchemaError Unit × Registry
  | .ok h => (.ok (), h)
  | .error e => (.error e, g)

def perform (g : Registry) : Call → Except SchemaError Unit × Registry
  | .register k s => g.settle (g.register k s)
  | .registerValue k v => g.settle (g.registerValue k v)
  | .validate k body => (g.validate k body, g)
  | .validateValue k body => (g.validateValue k body, g)
  | .validateRequest r => (g.validateRequest r, g)

/-- A registry with what has been registered in it, the latest first. -/
structure Ledger where
  registry : Registry
  registered : List (Kind × Json)

def Ledger.step (l : Ledger) (c : Call) : Ledger :=
  match l.registry.perform c, c.schema? with
  | (.ok (), g), some e => ⟨g, e :: l.registered⟩
  | (_, g), _ => ⟨g, l.registered⟩

/-- The calls one after the other, with what they register. -/
def run (g : Registry) (calls : List Call) : Ledger :=
  calls.foldl Ledger.step ⟨g, []⟩

section Registrations
variable {g h : Registry} {k : Kind} {v : Json}

/-- The contract of a schema under a configuration. -/
def contract? (config : RegistryConfig) (schema : Json) : Option Contract :=
  Contract.ofDocument? (if config.strictMode then Schema.strict schema else schema)

/-- The contract takes the place of any that the kind had before. -/
def put (g : Registry) (k : Kind) (c : Contract) : Registry :=
  { g with contracts := fun l => if l = k then some c else g.contracts l }

@[simp]
theorem put_config (c : Contract) : (g.put k c).config = g.config := rfl

theorem put_contracts (c : Contract) (l : Kind) :
    (g.put k c).contracts l = if l = k then some c else g.contracts l := rfl

theorem registerValue_eq_ok :
    g.registerValue k v = .ok h ↔ ∃ c, contract? g.config v = some c ∧ h = g.put k c := by
  unfold registerValue contract?
  cases Contract.ofDocument? (if g.config.strictMode then Schema.strict v else v) with
  | some c =>
    constructor
    · intro hg
      exact ⟨c, rfl, (Except.ok.inj hg).symm⟩
    · rintro ⟨_, hc, rfl⟩
      rw [← Option.some.inj hc]
      rfl
  | none =>
    constructor
    · intro hg
      cases hg
    · rintro ⟨_, hc, -⟩
      cases hc

/-- A registration either fails or puts the contract of its schema in place. -/
theorem settle_registerValue (g : Registry) (k : Kind) (v : Json) :
    (∃ e, g.settle (g.registerValue k v) = (.error e, g)) ∨
      ∃ c, contract? g.config v = some c ∧
        g.settle (g.registerValue k v) = (.ok (), g.put k c) := by
  cases hr : g.registerValue k v with
  | error e => exact Or.inl ⟨e, rfl⟩
  | ok h =>
    obtain ⟨c, hc, rfl⟩ := registerValue_eq_ok.mp hr
    exact Or.inr ⟨c, hc, rfl⟩

/-- A call either leaves all as it was or registers its schema. -/
theorem Ledger.step_cases (l : Ledger) (c : Call) :
    l.step c = l ∨ ∃ k v ct, contract? l.registry.config v = some ct ∧
      l.step c = ⟨l.registry.put k ct, (k, v) :: l.registered⟩ := by
  have hvalue (k : Kind) (v : Json) : l.step (.registerValue k v) = l ∨
      ∃ ct, contract? l.registry.config v = some ct ∧
        l.step (.registerValue k v) = ⟨l.registry.put k ct, (k, v) :: l.registered⟩ := by
    rcases settle_registerValue l.registry k v with ⟨e, he⟩ | ⟨ct, hct, hg⟩
    · exact Or.inl (by simp only [step, perform, he, Call.schema?])
    · exact Or.inr ⟨ct, hct, by simp only [step, perform, hg, Call.schema?]⟩
  cases c with
  | register k s =>
    cases hs : Json.parse s with
    | error e => exact Or.inl (by simp [step, perform, register, hs, settle, Call.schema?,
        Except.toOption])
    | ok v =>
      -- A text that can be read is registered as its value is.
      have hstep : l.step (.register k s) = l.step (.registerValue k v) := by
        simp [step, perform, register, hs, Call.schema?, Except.toOption]
      rw [hstep]
      exact (hvalue k v).imp_right fun h => ⟨k, v, h⟩
  | registerValue k v => exact (hvalue k v).imp_right fun h => ⟨k, v, h⟩
  | validate k body => exact Or.inl (by simp [step, perform, Call.schema?])
  | validateValue k body => exact Or.inl (by simp [step, perform, Call.schema?])
  | validateRequest r => exact Or.inl (by simp [step, perform, Call.schema?])

/-- What the registry holds is what the ledger says, over what it held at the start. -/
structure Ledger.Faithful (start : Registry) (l : Ledger) : Prop where
  config : l.registry.config = start.config
  kept : ∀ k, l.registered.lookup k = none → l.registry.contracts k = start.contracts k
  latest : ∀ k v, l.registered.lookup k = some v →
    ∃ c, contract? start.config v = some c ∧ l.registry.contracts k = some c

theorem Ledger.Faithful.step {start : Registry} {l : Ledger} (h : l.Faithful start) (c : Call) :
    (l.step c).Faithful start := by
  rcases l.step_cases c with hl | ⟨k, v, ct, hct, hl⟩
  · rwa [hl]
  · rw [hl]
    rw [h.config] at hct
    refine ⟨h.config, ?_, ?_⟩
    · intro k' hk'
      by_cases hk : k' = k
      · simp [hk] at hk'
      · rw [List.lookup_cons, beq_eq_false_iff_ne.mpr hk] at hk'
        rw [put_contracts, if_neg hk]
        exact h.kept k' hk'
    · intro k' v' hv'
      by_cases hk : k' = k
      · subst hk
        rw [List.lookup_cons_self, Option.some.injEq] at hv'
        subst hv'
        exact ⟨ct, hct, if_pos rfl⟩
      · rw [List.lookup_cons, beq_eq_false_iff_ne.mpr hk] at hv'
        rw [put_contracts, if_neg hk]
        exact h.latest k' v' hv'

end Registrations

/-- A registry as it is at the start. -/
inductive Start where
  | empty
  | builtin

def Start.registry (config : RegistryConfig) : Start → Except SchemaError Registry
  | .empty => .ok (Registry.empty config)
  | .builtin => Registry.builtin config

theorem mem_kinds {g : Registry} {k : Kind} : k ∈ g.kinds ↔ g.hasSchema k = true := by
  have hall : k ∈ Kind.all := by cases k <;> decide
  rw [kinds, List.mem_filter]
  exact and_iff_right hall

theorem Ledger.Faithful.mem_kinds {start : Registry} {l : Ledger} (h : l.Faithful start)
    {k : Kind} : k ∈ l.registry.kinds ↔ k ∈ start.kinds ∨ ∃ v, (k, v) ∈ l.registered := by
  rw [Registry.mem_kinds, Registry.mem_kinds, hasSchema, hasSchema]
  cases hl : l.registered.lookup k with
  | none =>
    have hnone : ¬∃ v, (k, v) ∈ l.registered := by
      rintro ⟨v, hv⟩
      simpa using List.lookup_eq_none_iff.mp hl _ hv
    rw [h.kept k hl]
    exact (or_iff_left hnone).symm
  | some v =>
    obtain ⟨c, -, hc⟩ := h.latest k v hl
    have hmem : (k, v) ∈ l.registered := by
      obtain ⟨l₁, l₂, hsplit, -⟩ := List.lookup_eq_some_iff.mp hl
      simp [hsplit]
    rw [hc]
    exact iff_of_true rfl (Or.inr ⟨v, hmem⟩)

end Catalog.Registry
