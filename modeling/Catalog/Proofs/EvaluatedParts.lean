import Catalog.Proofs.MemberRules

/-! Which parts of a value the keywords of an object schema evaluate. What is left over by them is
what the two keywords about unevaluated parts are for. -/

namespace Catalog.Schema
variable {follow : Followed} {v : Json} {p : Part}

attribute [local simp] evaluates evaluatesAny evaluatesValid evaluatesDependent

theorem evaluatesAny_iff {ss : List Schema} :
    evaluatesAny follow ss v p = true ↔ ∃ s ∈ ss, evaluates follow s v p = true := by
  induction ss with
  | nil => simp
  | cons s ss ih => simp [ih]

theorem evaluatesValid_iff {ss : List Schema} :
    evaluatesValid follow ss v p = true ↔
      ∃ s ∈ ss, issues follow s v = [] ∧ evaluates follow s v p = true := by
  induction ss with
  | nil => simp
  | cons s ss ih => simp [ih]

theorem evaluatesDependent_iff {known : List (String × Schema)} {ms : Entries Json} :
    evaluatesDependent follow known ms p = true ↔ ∃ e ∈ known, (ms.lookup e.1).isSome = true ∧
      evaluates follow e.2 (.object ms) p = true := by
  induction known with
  | nil => simp
  | cons e known ih => simp [ih]

/-- A condition speaks for itself and for the schema of the one outcome where the value keeps it, and
leaves the word to the schema of the other outcome where not. -/
theorem evaluates_conditional_iff {c t e : Schema} :
    evaluates follow (.conditional c t e) v p = true ↔
      issues follow c v = [] ∧ (evaluates follow c v p = true ∨ evaluates follow t v p = true) ∨
        ¬issues follow c v = [] ∧ evaluates follow e v p = true := by
  rw [evaluates]
  by_cases h : issues follow c v = [] <;> simp [h]

namespace Keywords
variable (k : Keywords)

/-- The part is a member that has a schema of its own, or that keeps the schema for all others. -/
def EvaluatesMember (follow : Followed) (v : Json) (p : Part) : Prop :=
  ∃ ms name, v = .object ms ∧ p = .member name ∧ (¬k.Unlisted name ∨
    ∃ x, ms.lookup name = some x ∧ ∃ s, k.additionalProperties = some s ∧ issues follow s x = [])

/-- The part is an item that has a schema of its own, or for which there is one with others. -/
def EvaluatesItem (v : Json) (p : Part) : Prop :=
  ∃ xs i, v = .array xs ∧ p = .item i ∧ (i < (k.prefixItems.getD []).length ∨
    k.items.isSome = true ∨ k.furtherItems.isSome = true)

/-- The part is evaluated by one of the keywords, those about unevaluated parts not among them. -/
def Evaluates (follow : Followed) (v : Json) (p : Part) : Prop :=
  k.EvaluatesMember follow v p ∨ k.EvaluatesItem v p ∨
    (∃ s, k.contains = some s ∧
      evaluates follow (.contains s (k.minContains.getD 1) k.maxContains) v p = true) ∨
    (∃ known, k.dependentSchemas = some known ∧
      evaluates follow (.dependentSchemas known) v p = true) ∨
    (∃ ss, k.allOf = some ss ∧ evaluates follow (.allOf ss) v p = true) ∨
    (∃ ss, k.anyOf = some ss ∧ evaluates follow (.anyOf ss) v p = true) ∨
    (∃ ss, k.oneOf = some ss ∧ evaluates follow (.oneOf ss) v p = true) ∨
    (∃ s, k.conditional = some s ∧ evaluates follow s v p = true) ∨
    ∃ pointer ∈ k.references, follow.evaluates pointer v p = true

/-- The part is of the kind that a keyword about unevaluated parts is for, which leaves none over. -/
def EvaluatesRest (v : Json) (p : Part) : Prop :=
  (k.unevaluatedItems.isSome = true ∧ ∃ xs i, v = .array xs ∧ p = .item i) ∨
    k.unevaluatedProperties.isSome = true ∧ ∃ ms name, v = .object ms ∧ p = .member name

end Keywords

section Rules
variable {k : Keywords} {matching : List (Pattern × Schema)} {members pattern : List Schema}

theorem isListed_iff (hm : (k.patternProperties.getD []).mapM
    (fun (p, s) => (Pattern.parse p).map fun p => (p, s)) = some matching) {name : String} :
    isListed (k.properties.getD []) matching name = true ↔ ¬k.Unlisted name := by
  have hmatching : (∀ m ∈ matching, m.1.isMatch name = false) ↔
      ∀ m ∈ k.patternProperties.getD [], ∀ p, Pattern.parse m.1 = some p → p.isMatch name = false := by
    rw [forall_mem_of_mapM hm]
    simp
  rw [Keywords.Unlisted, ← hmatching, ← Bool.not_eq_false, isListed, Bool.or_eq_false_iff]
  simp

theorem evaluates_listedRules_iff (hm : (k.patternProperties.getD []).mapM
    (fun (p, s) => (Pattern.parse p).map fun p => (p, s)) = some matching) {ms : Entries Json}
    {name : String} :
    (∃ s ∈ listedRules k matching, evaluates follow s (.object ms) (.member name) = true) ↔
      ¬k.Unlisted name := by
  rw [← isListed_iff hm]
  have hnone : k.patternProperties = none → matching = [] := by
    intro hp
    simpa [hp] using hm.symm
  cases hk : k.properties <;> cases hp : k.patternProperties <;>
    simp_all [mem_listedRules, isListed, or_and_right, exists_or]

/-- Rules about members evaluate nothing but members. -/
theorem MemberRules.object_of_evaluates (h : MemberRules k matching members) {s : Schema}
    (hs : s ∈ members) (he : evaluates follow s v p = true) :
    ∃ ms name, v = .object ms ∧ p = .member name := by
  have hlisted (hs : s ∈ listedRules k matching) : ∃ ms name, v = .object ms ∧ p = .member name := by
    rcases mem_listedRules.mp hs with ⟨-, rfl⟩ | ⟨-, rfl⟩ <;>
      cases v <;> cases p <;> simp at he ⊢
  cases h with
  | free _ => exact hlisted hs
  | loose _ =>
    rcases List.mem_append.mp hs with hs | hs
    · exact hlisted hs
    · rw [List.mem_singleton.mp hs] at he
      cases v <;> cases p <;> simp at he ⊢
  | memberless _ _ _ | closed _ | fused _ _ _ | others _ =>
    rw [List.mem_singleton.mp hs] at he
    cases v <;> cases p <;> simp at he ⊢

/-- The rules about members evaluate what the keywords behind them are for. -/
theorem evaluates_memberRules_iff (h : memberRules k = some members) :
    (∃ s ∈ members, evaluates follow s v p = true) ↔ k.EvaluatesMember follow v p := by
  obtain ⟨matching, hm, hrules⟩ := memberRules_cases h
  by_cases hpart : ∃ ms name, v = .object ms ∧ p = .member name
  · obtain ⟨ms, name, rfl, rfl⟩ := hpart
    have hkeywords : k.EvaluatesMember follow (.object ms) (.member name) ↔ ¬k.Unlisted name ∨
        ∃ x, ms.lookup name = some x ∧
          ∃ s, k.additionalProperties = some s ∧ issues follow s x = [] := by
      simp [Keywords.EvaluatesMember]
    rw [hkeywords]
    have hlisted : (∃ s ∈ listedRules k matching,
        evaluates follow s (.object ms) (.member name) = true) ↔ ¬k.Unlisted name :=
      evaluates_listedRules_iff hm
    cases hrules with
    | free hnone => simp [hlisted, hnone]
    | loose hall =>
      have hthere : evaluates follow (.others [] [] .anything) (.object ms) (.member name) = true ↔
          ∃ x, ms.lookup name = some x := by
        rw [evaluates, Bool.or_eq_true, Option.any_eq_true]
        simp [isListed, issues]
      simp [-evaluates, or_and_right, exists_or, hlisted, hall, hthere, issues]
    | memberless ha hk hp =>
      have hunlisted : k.Unlisted name := by
        rw [← not_not (a := k.Unlisted name), ← isListed_iff hm]
        simp [isListed, hk, hp]
      simp [hunlisted, ha, issues]
    | closed ha | fused ha _ _ => simp [isListed_iff hm, ha, issues]
    | others ha =>
      simp only [List.mem_singleton, exists_eq_left, evaluates, Bool.or_eq_true, isListed_iff hm,
        Option.any_eq_true, List.isEmpty_iff, ha, Option.some.injEq, exists_eq_left']
  · refine iff_of_false ?_ ?_
    · rintro ⟨s, hs, he⟩
      exact hpart (hrules.object_of_evaluates hs he)
    · rintro ⟨ms, name, hv, hp, -⟩
      exact hpart ⟨ms, name, hv, hp⟩

theorem exists_mem_rule {α : Type} {f : α → Schema} {a : Option α} {P : Schema → Prop} :
    (∃ s ∈ rule f a, P s) ↔ ∃ x, a = some x ∧ P (f x) := by
  cases a <;> simp [rule]

theorem evaluates_assert (a : Assertion) : evaluates follow (.assert a) v p = false := by
  simp

/-- The three rules about items evaluate those in front, and with a schema for the others all. -/
theorem evaluates_itemRules_iff (follow : Followed) :
    ((∃ s, k.items = some s ∧
        evaluates follow (.items (k.prefixItems.getD []).length s) v p = true) ∨
      (∃ ss, k.prefixItems = some ss ∧ evaluates follow (.prefixItems ss) v p = true) ∨
      ∃ s, k.furtherItems = some s ∧
        evaluates follow (.items (k.prefixItems.getD []).length s) v p = true) ↔
      k.EvaluatesItem v p := by
  by_cases hpart : ∃ xs i, v = .array xs ∧ p = .item i
  · obtain ⟨xs, i, rfl, rfl⟩ := hpart
    have hprefix : (∃ ss, k.prefixItems = some ss ∧ i < ss.length) ↔
        i < (k.prefixItems.getD []).length := by
      cases k.prefixItems <;> simp
    simp only [evaluates, Keywords.EvaluatesItem, Json.array.injEq, Part.item.injEq, hprefix,
      decide_eq_true_eq, exists_and_right, ← Option.isSome_iff_exists]
    have hitem : (∃ xs' i', xs = xs' ∧ i = i' ∧ (i' < (k.prefixItems.getD []).length ∨
        k.items.isSome = true ∨ k.furtherItems.isSome = true)) ↔
          i < (k.prefixItems.getD []).length ∨ k.items.isSome = true ∨
            k.furtherItems.isSome = true := by
      simp
    rw [hitem]
    -- An item that is not in front is one of the others.
    rcases Nat.lt_or_ge i (k.prefixItems.getD []).length with hi | hi
    · simp [hi]
    · simp [hi, Nat.not_lt.mpr hi]
  · refine iff_of_false ?_ ?_
    · rintro (⟨s, -, he⟩ | ⟨ss, -, he⟩ | ⟨s, -, he⟩) <;>
      · apply hpart
        cases v <;> cases p <;> simp at he ⊢
    · rintro ⟨xs, i, hv, hp, -⟩
      exact hpart ⟨xs, i, hv, hp⟩

theorem not_evaluates_assertions {l : List Schema} (hl : ∀ s ∈ l, ∃ a, s = .assert a) :
    ¬∃ s ∈ l, evaluates follow s v p = true := by
  rintro ⟨s, hs, he⟩
  obtain ⟨a, rfl⟩ := hl s hs
  rw [evaluates_assert] at he
  cases he

theorem not_evaluates_rule {α : Type} {f : α → Schema} {a : Option α}
    (hf : ∀ x, evaluates follow (f x) v p = false) :
    ¬∃ x, a = some x ∧ evaluates follow (f x) v p = true := by
  rintro ⟨x, -, he⟩
  rw [hf] at he
  cases he

/-- The rules of keywords evaluate what the keywords do. -/
theorem evaluates_rules_iff (hmembers : memberRules k = some members)
    (hpattern : ∀ s ∈ pattern, ∃ q, s = .assert (.pattern q)) :
    evaluatesAny follow (k.rules members pattern) v p = true ↔ k.Evaluates follow v p := by
  have hasserted : ¬∃ s ∈ k.assertions.map .assert, evaluates follow s v p = true :=
    not_evaluates_assertions (by simp)
  have hrequired : ¬∃ s ∈ (if isFused members then [] else assertion .required k.required),
      evaluates follow s v p = true := by
    apply not_evaluates_assertions
    intro s hs
    split at hs
    · cases hs
    · obtain ⟨names, -, rfl⟩ : ∃ names, k.required = some names ∧ .assert (.required names) = s := by
        simpa [assertion, rule] using hs
      exact ⟨_, rfl⟩
  have htext : ¬∃ s ∈ pattern, evaluates follow s v p = true :=
    not_evaluates_assertions fun s hs => (hpattern s hs).imp' _ fun _ => id
  have hnames : ¬∃ s, k.propertyNames = some s ∧ evaluates follow (.propertyNames s) v p = true :=
    not_evaluates_rule fun s => by simp
  have hexcluded : ¬∃ e, k.excluded = some e ∧ evaluates follow (.not e.1 e.2) v p = true :=
    not_evaluates_rule fun e => by simp
  have hconditional : (∃ s ∈ k.conditional.toList, evaluates follow s v p = true) ↔
      ∃ s, k.conditional = some s ∧ evaluates follow s v p = true := by
    simp
  have hrefs : (∃ s ∈ k.references.map .ref, evaluates follow s v p = true) ↔
      ∃ pointer ∈ k.references, follow.evaluates pointer v p = true := by
    simp
  rw [evaluatesAny_iff, Keywords.Evaluates, ← evaluates_memberRules_iff hmembers,
    ← evaluates_itemRules_iff follow]
  simp only [Keywords.rules, List.mem_append, or_and_right, exists_or, hasserted, hrequired, htext,
    exists_mem_rule, hnames, hexcluded, hconditional, hrefs, false_or, or_assoc]

end Rules

end Catalog.Schema
