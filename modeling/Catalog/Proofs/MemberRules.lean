import Mathlib.Tactic.ByContra
import Catalog.Proofs.Values
import Catalog.Proofs.Validity
import Catalog.Schema.Contract

/-! What the rules about the members of an object ask of them. The keywords behind these rules are
checked together in several ways, which ask the same of every member. -/

namespace Catalog.Schema
variable {follow : Followed}

/-- What has been read item by item has for each item what was read for it. -/
theorem forall_mem_of_mapM {α β : Type} {f : α → Option β} {l : List α} {l' : List β}
    (h : l.mapM f = some l') {P : β → Prop} :
    (∀ b ∈ l', P b) ↔ ∀ a ∈ l, ∀ b, f a = some b → P b := by
  induction l generalizing l' with
  | nil =>
    have hl : l' = [] := by simpa using h.symm
    simp [hl]
  | cons a l ih =>
    simp only [List.mapM_cons, Option.bind_eq_bind, Option.bind_eq_some_iff, Option.pure_def,
      Option.some.injEq] at h
    obtain ⟨b, hb, bs, hbs, rfl⟩ := h
    simp [hb, ih hbs]

namespace Keywords
variable (k : Keywords)

/-- Neither a schema by name nor one by a pattern is there for the member. -/
def Unlisted (name : String) : Prop :=
  (k.properties.getD []).lookup name = none ∧
    ∀ m ∈ k.patternProperties.getD [], ∀ p, Pattern.parse m.1 = some p → p.isMatch name = false

/-- The members of an object keep the schemas that there are for them by name, by a pattern, or as
for all others. -/
def MembersKept (follow : Followed) (v : Json) : Prop :=
  ∀ ms, v = .object ms → ∀ e ∈ ms,
    (∀ s ∈ k.properties.getD [], s.1 = e.1 → issues follow s.2 e.2 = []) ∧
    (∀ m ∈ k.patternProperties.getD [], ∀ p, Pattern.parse m.1 = some p →
      p.isMatch e.1 = true → issues follow m.2 e.2 = []) ∧
    (k.Unlisted e.1 → ∀ s, k.additionalProperties = some s → issues follow s e.2 = [])

end Keywords

section Members
variable {known : List (String × Schema)} {matching : List (Pattern × Schema)}

theorem issues_properties_eq_nil {ms : Entries Json} (hn : (Entries.keys ms).Nodup) :
    issues follow (.properties known) (.object ms) = [] ↔
      ∀ e ∈ ms, ∀ s ∈ known, s.1 = e.1 → issues follow s.2 e.2 = [] := by
  have hknown : issuesKnown follow known ms = [] ↔
      ∀ s ∈ known, ∀ x, ms.lookup s.1 = some x → issues follow s.2 x = [] := by
    induction known with
    | nil => simp [issuesKnown]
    | cons s known ih => cases h : ms.lookup s.1 <;> simp [issuesKnown, ih, h]
  rw [issues, hknown]
  constructor
  · intro h e he s hs hk
    exact h s hs e.2 (hk ▸ Entries.lookup_of_mem hn he)
  · intro h s hs x hx
    exact h (s.1, x) (Entries.mem_of_lookup hx) s hs rfl

theorem issues_patternProperties_eq_nil {ms : Entries Json} :
    issues follow (.patternProperties matching) (.object ms) = [] ↔
      ∀ e ∈ ms, ∀ m ∈ matching, m.1.isMatch e.1 = true → issues follow m.2 e.2 = [] := by
  have hmatching : issuesByPattern follow matching ms = [] ↔
      ∀ m ∈ matching, ∀ e ∈ ms, m.1.isMatch e.1 = true → issues follow m.2 e.2 = [] := by
    induction matching with
    | nil => simp [issuesByPattern]
    | cons m matching ih => simp [issuesByPattern, ih]
  rw [issues, hmatching]
  constructor
  · intro h e he m hm
    exact h m hm e he
  · intro h m hm e he
    exact h e he m hm

/-- The single required name that is looked for together with closed members is one more member that
must be there: if it is there, it is known, since no other members are. -/
theorem issues_closed_single_eq_nil {name : String} {ms : Entries Json} :
    issues follow (.closed known [] (some name)) (.object ms) = [] ↔
      issues follow (.assert (.required [name])) (.object ms) = [] ∧
        issues follow (.closed known [] none) (.object ms) = [] := by
  have hsplit : issues follow (.closed known [] (some name)) (.object ms) = [] ↔
      issues follow (.closed known [] none) (.object ms) = [] ∧
        isPresent known ms name = true := by
    simp [issues, and_assoc]
  rw [hsplit, issues_required_eq_nil, and_comm]
  apply and_congr_left
  intro hclosed
  obtain ⟨-, hlisted⟩ := issues_closed_eq_nil.mp hclosed
  simp only [isPresent, Bool.and_eq_true, List.mem_singleton, forall_eq]
  constructor
  · exact And.right
  · intro hpresent
    rcases hlisted name (Entries.mem_keys_iff.mpr hpresent) with hknown | ⟨m, hm, -⟩
    · exact ⟨hknown, hpresent⟩
    · cases hm

/-- A member keeps the schemas that there are for it, in terms of the patterns that have been read.
-/
def Keywords.KeepsMember (follow : Followed) (k : Keywords) (matching : List (Pattern × Schema))
    (e : String × Json) : Prop :=
  (∀ s ∈ k.properties.getD [], s.1 = e.1 → issues follow s.2 e.2 = []) ∧
  (∀ m ∈ matching, m.1.isMatch e.1 = true → issues follow m.2 e.2 = []) ∧
  ((k.properties.getD []).lookup e.1 = none ∧ (∀ m ∈ matching, m.1.isMatch e.1 = false) →
    ∀ s, k.additionalProperties = some s → issues follow s e.2 = [])

theorem Keywords.membersKept_object {k : Keywords} {ms : Entries Json}
    (hm : (k.patternProperties.getD []).mapM (fun (p, s) => (Pattern.parse p).map fun p => (p, s)) =
      some matching) :
    k.MembersKept follow (.object ms) ↔ ∀ e ∈ ms, k.KeepsMember follow matching e := by
  have hread {P : Pattern × Schema → Prop} : (∀ m ∈ matching, P m) ↔
      ∀ m ∈ k.patternProperties.getD [], ∀ p, Pattern.parse m.1 = some p → P (p, m.2) := by
    rw [forall_mem_of_mapM hm]
    simp
  simp only [Keywords.MembersKept, Keywords.KeepsMember, Keywords.Unlisted, hread,
    Json.object.injEq, forall_eq']

end Members

/-- The rules about members that some keywords come to. -/
inductive MemberRules (k : Keywords) (matching : List (Pattern × Schema)) : List Schema → Prop where
  | free (h : k.additionalProperties = none) : MemberRules k matching (listedRules k matching)
  | loose (h : k.additionalProperties = some .anything) :
    MemberRules k matching (listedRules k matching ++ [.others [] [] .anything])
  | memberless (h : k.additionalProperties = some .nothing) (hk : k.properties = none)
    (hp : matching = []) : MemberRules k matching [.memberless]
  | closed (h : k.additionalProperties = some .nothing) :
    MemberRules k matching [.closed (k.properties.getD []) matching none]
  | fused {name : String} (h : k.additionalProperties = some .nothing)
    (hr : k.required = some [name]) (hp : matching = []) :
    MemberRules k matching [.closed (k.properties.getD []) matching (some name)]
  | others {rest : Schema} (h : k.additionalProperties = some rest) :
    MemberRules k matching [.others (k.properties.getD []) matching rest]

theorem memberRules_cases {k : Keywords} {rules : List Schema} (h : memberRules k = some rules) :
    ∃ matching, (k.patternProperties.getD []).mapM
      (fun (p, s) => (Pattern.parse p).map fun p => (p, s)) = some matching ∧
        MemberRules k matching rules := by
  unfold memberRules at h
  obtain ⟨matching, hm, h⟩ := Option.bind_eq_some_iff.mp h
  refine ⟨matching, hm, ?_⟩
  split at h
  · next ha =>
    cases h
    exact .free ha
  · next ha =>
    cases h
    exact .loose ha
  · next ha =>
    split at h
    · next hnone =>
      cases h
      simp only [Bool.and_eq_true, Option.isNone_iff_eq_none] at hnone
      refine .memberless ha hnone.1 ?_
      simpa [hnone.2] using hm.symm
    · split at h
      · next name hr =>
        split at h
        · next hpp =>
          cases h
          simp only [Bool.and_eq_true, Option.isNone_iff_eq_none] at hpp
          refine .fused ha hr ?_
          simpa [hpp.2] using hm.symm
        · cases h
          exact .closed ha
      · cases h
        exact .closed ha
  · next rest _ _ ha =>
    cases h
    exact .others ha

theorem issues_assert (a : Assertion) (v : Json) : issues follow (.assert a) v = a.issues v := by
  rw [issues]

theorem forall_mem_rule {α : Type} {f : α → Schema} {a : Option α} {P : Schema → Prop} :
    (∀ s ∈ rule f a, P s) ↔ ∀ x, a = some x → P (f x) := by
  cases a <;> simp [rule]

theorem mem_listedRules {k : Keywords} {matching : List (Pattern × Schema)} {s : Schema} :
    s ∈ listedRules k matching ↔
      k.properties.isSome = true ∧ s = .properties (k.properties.getD []) ∨
        k.patternProperties.isSome = true ∧ s = .patternProperties matching := by
  rw [listedRules, List.mem_append]
  split <;> split <;> simp [*]

/-- Rules about members say nothing about other values. -/
theorem MemberRules.of_not_object {k : Keywords} {matching : List (Pattern × Schema)}
    {rules : List Schema} (h : MemberRules k matching rules) {v : Json} (hv : v.shape ≠ .object) :
    ∀ s ∈ rules, issues follow s v = [] := by
  have hlisted : ∀ s ∈ listedRules k matching, issues follow s v = [] := by
    intro s hs
    rcases mem_listedRules.mp hs with ⟨-, rfl⟩ | ⟨-, rfl⟩ <;>
      cases v <;> simp [issues, Json.shape] at hv ⊢
  intro s hs
  cases h with
  | free _ => exact hlisted s hs
  | loose _ =>
    rcases List.mem_append.mp hs with hs | hs
    · exact hlisted s hs
    · rw [List.mem_singleton.mp hs]
      cases v <;> simp [issues, Json.shape] at hv ⊢
  | memberless _ _ _ | closed _ | fused _ _ _ | others _ =>
    rw [List.mem_singleton.mp hs]
    cases v <;> simp [issues, Json.shape] at hv ⊢

theorem issues_required_of_not_object {names : List String} {v : Json} (hv : v.shape ≠ .object) :
    issues follow (.assert (.required names)) v = [] := by
  cases v <;> simp [issues, Assertion.issues, Json.shape] at hv ⊢

/-- Without a schema for the other members, the members are checked by name and by pattern. -/
theorem issues_listedRules_iff {k : Keywords} {matching : List (Pattern × Schema)}
    {ms : Entries Json} (hn : (Entries.keys ms).Nodup)
    (hp : k.patternProperties = none → matching = []) :
    (∀ s ∈ listedRules k matching, issues follow s (.object ms) = []) ↔ ∀ e ∈ ms,
      (∀ s ∈ k.properties.getD [], s.1 = e.1 → issues follow s.2 e.2 = []) ∧
      ∀ m ∈ matching, m.1.isMatch e.1 = true → issues follow m.2 e.2 = [] := by
  have hknown : (∀ s ∈ (if k.properties.isSome then [Schema.properties (k.properties.getD [])]
      else []), issues follow s (.object ms) = []) ↔
        ∀ e ∈ ms, ∀ s ∈ k.properties.getD [], s.1 = e.1 → issues follow s.2 e.2 = [] := by
    rw [← issues_properties_eq_nil hn]
    cases k.properties <;> simp [issues, issuesKnown]
  have hmatching : (∀ s ∈ (if k.patternProperties.isSome then [Schema.patternProperties matching]
      else []), issues follow s (.object ms) = []) ↔
        ∀ e ∈ ms, ∀ m ∈ matching, m.1.isMatch e.1 = true → issues follow m.2 e.2 = [] := by
    rw [← issues_patternProperties_eq_nil]
    cases hpp : k.patternProperties with
    | none => simp [hp hpp, issues, issuesByPattern]
    | some m => simp
  simp only [listedRules, List.mem_append, or_imp, forall_and, hknown, hmatching]

theorem isFused_listedRules {k : Keywords} {matching : List (Pattern × Schema)} :
    isFused (listedRules k matching) = false := by
  simp only [isFused, List.any_eq_false]
  intro s hs
  rcases mem_listedRules.mp hs with ⟨-, rfl⟩ | ⟨-, rfl⟩ <;> simp

/-- Closed members are those that keep their schemas, where no other member is let through. -/
theorem issues_closed_iff {k : Keywords} {matching : List (Pattern × Schema)} {ms : Entries Json}
    (h : k.additionalProperties = some .nothing) :
    issues follow (.closed (k.properties.getD []) matching none) (.object ms) = [] ↔
      ∀ e ∈ ms, k.KeepsMember follow matching e := by
  rw [issues_closed_eq_nil]
  constructor
  · rintro ⟨hkept, hlisted⟩ e he
    refine ⟨(hkept e he).1, (hkept e he).2, fun hunlisted => ?_⟩
    exfalso
    rcases hlisted e.1 (Entries.mem_keys_of_mem he) with hknown | ⟨m, hm, hmatch⟩
    · simp [hunlisted.1] at hknown
    · simp [hunlisted.2 m hm] at hmatch
  · intro hkept
    refine ⟨fun e he => ⟨(hkept e he).1, (hkept e he).2.1⟩, fun name hname => ?_⟩
    obtain ⟨e, he, rfl⟩ := List.mem_map.mp hname
    by_contra hunlisted
    obtain ⟨hknown, hmatching⟩ := not_or.mp hunlisted
    have hnone : (k.properties.getD []).lookup e.1 = none :=
      Option.not_isSome_iff_eq_none.mp hknown
    have hno : ∀ m ∈ matching, m.1.isMatch e.1 = false := fun m hm =>
      Bool.eq_false_iff.mpr fun hmatch => hmatching ⟨m, hm, hmatch⟩
    have hrefused := (hkept e he).2.2 ⟨hnone, hno⟩ .nothing h
    simp [issues] at hrefused

/-- Where every member is let through, only those with schemas of their own are asked about. -/
theorem issues_listedRules_iff_keepsMember {k : Keywords} {matching : List (Pattern × Schema)}
    {ms : Entries Json} (hn : (Entries.keys ms).Nodup)
    (hp : k.patternProperties = none → matching = [])
    (hrest : ∀ s, k.additionalProperties = some s → s = .anything) :
    (∀ s ∈ listedRules k matching, issues follow s (.object ms) = []) ↔
      ∀ e ∈ ms, k.KeepsMember follow matching e := by
  rw [issues_listedRules_iff hn hp]
  apply forall₂_congr
  intro e _
  have hkept : ∀ s, k.additionalProperties = some s → issues follow s e.2 = [] := by
    intro s hs
    rw [hrest s hs, issues]
  exact ⟨fun he => ⟨he.1, he.2, fun _ => hkept⟩, fun he => ⟨he.1, he.2.1⟩⟩

/-- Of the members of an object the rules ask what there is for each, and with the required names that
are not looked for with them that those are there. -/
theorem MemberRules.of_object {k : Keywords} {matching : List (Pattern × Schema)}
    {rules : List Schema} (h : MemberRules k matching rules) {ms : Entries Json}
    (hn : (Entries.keys ms).Nodup) (hp : k.patternProperties = none → matching = []) :
    (∀ s ∈ (if isFused rules then [] else assertion .required k.required),
      issues follow s (.object ms) = []) ∧ (∀ s ∈ rules, issues follow s (.object ms) = []) ↔
    (∀ s ∈ assertion .required k.required, issues follow s (.object ms) = []) ∧
      ∀ e ∈ ms, k.KeepsMember follow matching e := by
  cases h with
  | free hnone =>
    rw [isFused_listedRules,
      issues_listedRules_iff_keepsMember hn hp fun s hs => by simp [hnone] at hs]
    rfl
  | loose hall =>
    have hfused : isFused (listedRules k matching ++ [.others [] [] .anything]) = false := by
      rw [isFused, List.any_append, ← isFused, isFused_listedRules]
      rfl
    have hothers : issues follow (.others [] [] .anything) (.object ms) = [] := by
      simp [issues, issuesNamed, issuesMatching]
    rw [hfused, ← issues_listedRules_iff_keepsMember hn hp fun s hs => by simpa [hall] using hs.symm]
    simp [or_imp, forall_and, hothers]
  | memberless ha hk hnone =>
    apply and_congr_right
    intro _
    cases ms with
    | nil => simp [issues]
    | cons e ms =>
      apply iff_of_false
      · simp [issues]
      · intro hkept
        obtain ⟨-, -, hrest⟩ := hkept e List.mem_cons_self
        have hrefused := hrest (by simp [hk, hnone]) .nothing ha
        simp [issues] at hrefused
  | closed ha =>
    have hfused : isFused [.closed (k.properties.getD []) matching none] = false := rfl
    rw [hfused, ← issues_closed_iff ha]
    simp only [Bool.false_eq_true, ↓reduceIte, List.mem_singleton, forall_eq]
  | @fused name ha hr hnone =>
    have hfused : isFused [.closed (k.properties.getD []) matching (some name)] = true := rfl
    have hrequired : (∀ s ∈ assertion .required k.required, issues follow s (.object ms) = []) ↔
        issues follow (.assert (.required [name])) (.object ms) = [] := by
      rw [assertion, hr, forall_mem_rule]
      simp
    rw [hfused, ← issues_closed_iff ha, hrequired, hnone]
    simp [issues_closed_single_eq_nil]
  | others ha =>
    apply and_congr_right
    intro _
    simp only [List.mem_singleton, forall_eq, issues_others_eq_nil, Keywords.KeepsMember, ha,
      Option.some.injEq, forall_eq']

/-- The rules about members, and the required names that are not looked for with them, ask for the
required names and that the members keep their schemas. -/
theorem memberRules_eq_nil {k : Keywords} {rules : List Schema} (h : memberRules k = some rules)
    {v : Json} (hv : v.collapse = v) :
    (∀ s ∈ (if isFused rules then [] else assertion .required k.required),
      issues follow s v = []) ∧ (∀ s ∈ rules, issues follow s v = []) ↔
    (∀ names, k.required = some names → issues follow (.assert (.required names)) v = []) ∧
      k.MembersKept follow v := by
  obtain ⟨matching, hm, hrules⟩ := memberRules_cases h
  have hrequired : (∀ s ∈ assertion .required k.required, issues follow s v = []) ↔
      ∀ names, k.required = some names → issues follow (.assert (.required names)) v = [] :=
    forall_mem_rule
  by_cases ho : v.shape = .object
  · obtain ⟨ms, rfl⟩ : ∃ ms, v = .object ms := by
      cases v <;> simp [Json.shape] at ho ⊢
    have hn : (Entries.keys ms).Nodup := (Json.ordered_of_collapse hv).keys_nodup
    rw [Keywords.membersKept_object hm, ← hrequired]
    exact hrules.of_object hn fun hnone => by simpa [hnone] using hm.symm
  · have hkept : k.MembersKept follow v := fun ms hms => absurd (congrArg Json.shape hms) ho
    have hnames : ∀ names, k.required = some names →
        issues follow (.assert (.required names)) v = [] :=
      fun names _ => issues_required_of_not_object ho
    refine iff_of_true ⟨?_, hrules.of_not_object ho⟩ ⟨hnames, hkept⟩
    intro s hs
    split at hs
    · cases hs
    · exact hrequired.mpr hnames s hs

end Catalog.Schema
