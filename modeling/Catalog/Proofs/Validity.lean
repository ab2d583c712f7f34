import Catalog.Schema.Check

/-! When a schema finds nothing wrong. Each kind of rule asks something of a value or of its parts,
whatever the schemas that are referred to find. -/

namespace Catalog

theorem Assertion.ensure_eq_nil {holds : Bool} {issue : Issue} :
    ensure holds issue = [] ↔ holds = true := by
  cases holds <;> simp [ensure]

namespace Schema
variable {follow : Followed}

attribute [local simp] issues issuesEvery issuesNamed issuesMatching

theorem issuesEvery_eq_nil {rules : List Schema} {v : Json} :
    issuesEvery follow rules v = [] ↔ ∀ s ∈ rules, issues follow s v = [] := by
  induction rules with
  | nil => simp
  | cons s ss ih => simp [ih]

theorem issues_every_eq_nil {rules : List Schema} {v : Json} :
    issues follow (.every rules) v = [] ↔ ∀ s ∈ rules, issues follow s v = [] := by
  rw [issues, issuesEvery_eq_nil]

theorem issues_type_eq_nil {names : List TypeName} {v : Json} :
    issues follow (.assert (.type names)) v = [] ↔ ∃ t ∈ names, t.admits v = true := by
  rw [issues, Assertion.issues, Assertion.ensure_eq_nil, List.any_eq_true]

theorem issues_minLength_eq_nil {n : Nat} {s : String} :
    issues follow (.assert (.minLength n)) (.string s) = [] ↔ n ≤ s.length := by
  rw [issues, Assertion.issues, Assertion.ensure_eq_nil, decide_eq_true_iff]

theorem issues_required_eq_nil {names : List String} {members : Entries Json} :
    issues follow (.assert (.required names)) (.object members) = [] ↔
      ∀ name ∈ names, (members.lookup name).isSome = true := by
  rw [issues, Assertion.issues, List.flatMap_eq_nil_iff]
  exact forall₂_congr fun name _ => Assertion.ensure_eq_nil

theorem issuesNamed_eq_nil {known : List (String × Schema)} {k : String} {x : Json} :
    issuesNamed follow known k x = [] ↔ ∀ e ∈ known, e.1 = k → issues follow e.2 x = [] := by
  induction known with
  | nil => simp
  | cons e known ih => by_cases h : e.1 = k <;> simp [ih, h]

theorem issuesMatching_eq_nil {matching : List (Pattern × Schema)} {k : String} {x : Json} :
    issuesMatching follow matching k x = [] ↔
      ∀ m ∈ matching, m.1.isMatch k = true → issues follow m.2 x = [] := by
  induction matching with
  | nil => simp
  | cons m matching ih => by_cases h : m.1.isMatch k = true <;> simp [ih, h]

theorem unexpectedNames_eq_nil {known : List (String × Schema)}
    {matching : List (Pattern × Schema)} {members : Entries Json} :
    unexpectedNames known matching members = [] ↔ ∀ k ∈ Entries.keys members,
      (known.lookup k).isSome = true ∨ ∃ m ∈ matching, m.1.isMatch k = true := by
  rw [unexpectedNames, List.filter_eq_nil_iff]
  apply forall₂_congr
  intro k _
  cases known.lookup k with
  | some s => simp
  | none => simp

/-- Every member has a schema, by its name or a pattern, and keeps all that it has. -/
theorem issues_closed_eq_nil {known : List (String × Schema)} {matching : List (Pattern × Schema)}
    {members : Entries Json} :
    issues follow (.closed known matching none) (.object members) = [] ↔
      (∀ e ∈ members, (∀ s ∈ known, s.1 = e.1 → issues follow s.2 e.2 = []) ∧
        ∀ m ∈ matching, m.1.isMatch e.1 = true → issues follow m.2 e.2 = []) ∧
      ∀ k ∈ Entries.keys members,
        (known.lookup k).isSome = true ∨ ∃ m ∈ matching, m.1.isMatch k = true := by
  have hnames : (if (unexpectedNames known matching members).isEmpty then []
      else [Issue.unexpected (unexpectedNames known matching members)]) = [] ↔
        unexpectedNames known matching members = [] := by
    cases unexpectedNames known matching members <;> simp
  simp only [issues, Option.elim_none, List.append_nil, List.append_eq_nil_iff, hnames,
    List.flatMap_eq_nil_iff, issuesNamed_eq_nil, issuesMatching_eq_nil, unexpectedNames_eq_nil]

/-- Members without a schema of their own keep the one for the rest. -/
theorem issues_others_eq_nil {known : List (String × Schema)} {matching : List (Pattern × Schema)}
    {rest : Schema} {members : Entries Json} :
    issues follow (.others known matching rest) (.object members) = [] ↔
      ∀ e ∈ members, (∀ s ∈ known, s.1 = e.1 → issues follow s.2 e.2 = []) ∧
        (∀ m ∈ matching, m.1.isMatch e.1 = true → issues follow m.2 e.2 = []) ∧
        ((known.lookup e.1 = none ∧ ∀ m ∈ matching, m.1.isMatch e.1 = false) →
          issues follow rest e.2 = []) := by
  simp only [issues, List.flatMap_eq_nil_iff, List.append_eq_nil_iff, issuesNamed_eq_nil,
    issuesMatching_eq_nil, and_assoc]
  simp

theorem issues_propertyNames_eq_nil {s : Schema} {members : Entries Json} :
    issues follow (.propertyNames s) (.object members) = [] ↔
      ∀ e ∈ members, issues follow s (.string e.1) = [] := by
  cases s with
  | nothing =>
    cases members with
    | nil => simp
    | cons e ms =>
      simp only [issues, List.isEmpty_cons, Bool.false_eq_true, ↓reduceIte]
      constructor
      · intro h
        cases h
      · intro h
        cases h e List.mem_cons_self
  | _ => simp only [issues, List.flatMap_eq_nil_iff]

theorem issues_items_eq_nil {start : Nat} {s : Schema} {items : List Json} :
    issues follow (.items start s) (.array items) = [] ↔
      ∀ x ∈ items.drop start, issues follow s x = [] := by
  rw [issues, List.flatMap_eq_nil_iff]

/-- How many of the items keep the schema is within the bounds. -/
theorem issues_contains_eq_nil {s : Schema} {least : Nat} {most : Option Nat} {items : List Json} :
    issues follow (.contains s least most) (.array items) = [] ↔
      least ≤ items.countP (fun x => (issues follow s x).isEmpty) ∧
        ∀ n, most = some n → items.countP (fun x => (issues follow s x).isEmpty) ≤ n := by
  rw [issues]
  cases most <;> simp

/-- What no rule beside this one evaluates keeps the schema. -/
theorem issues_unevaluatedItems_eq_nil {beside : List Schema} {s : Schema} {items : List Json} :
    issues follow (.unevaluatedItems beside s) (.array items) = [] ↔
      ∀ i x, items[i]? = some x →
        evaluatesAny follow beside (.array items) (.item i) = true ∨ issues follow s x = [] := by
  have hleft : issues follow (.unevaluatedItems beside s) (.array items) = [] ↔
      ∀ e ∈ items.zipIdx, evaluatesAny follow beside (.array items) (.item e.2) = true ∨
        issues follow s e.1 = [] := by
    simp [List.filter_eq_nil_iff, Classical.or_iff_not_imp_left]
  rw [hleft]
  constructor
  · intro h i x hx
    exact h (x, i) (List.mem_zipIdx_iff_getElem?.mpr hx)
  · intro h e he
    exact h e.2 e.1 (List.mem_zipIdx_iff_getElem?.mp he)

theorem issues_unevaluatedProperties_eq_nil {beside : List Schema} {s : Schema}
    {members : Entries Json} :
    issues follow (.unevaluatedProperties beside s) (.object members) = [] ↔ ∀ e ∈ members,
      evaluatesAny follow beside (.object members) (.member e.1) = true ∨
        issues follow s e.2 = [] := by
  simp [List.filter_eq_nil_iff, Classical.or_iff_not_imp_left]

end Schema
end Catalog
