import Catalog.Proofs.ContractTargets

/-! Which way acceptance carries over between two schemas. Most rules accept more when the schemas
in them do, an excluded schema turns this around, and where schemas are counted or decide which
other schema is asked, both ways are needed. What a schema evaluates hangs on what the schemas in it
accept, so where it matters it is carried over with acceptance. -/

namespace Catalog

/-- With `up`, what holds on the right carries over to the left, and otherwise from left to right.
-/
def Carried (up : Bool) (A B : Prop) : Prop :=
  match up with
  | true => B → A
  | false => A → B

namespace Carried
variable {up : Bool} {A B A' B' : Prop}

theorem of_iff (h : A ↔ B) : Carried up A B := by
  cases up with
  | true => exact h.mpr
  | false => exact h.mp

theorem iff (hup : Carried true A B) (hdown : Carried false A B) : A ↔ B :=
  ⟨hdown, hup⟩

theorem and (h : Carried up A B) (h' : Carried up A' B') : Carried up (A ∧ A') (B ∧ B') := by
  cases up with
  | true => exact And.imp h h'
  | false => exact And.imp h h'

theorem or (h : Carried up A B) (h' : Carried up A' B') : Carried up (A ∨ A') (B ∨ B') := by
  cases up with
  | true => exact Or.imp h h'
  | false => exact Or.imp h h'

theorem all {α : Sort*} {P P' : α → Prop} (h : ∀ a, Carried up (P a) (P' a)) :
    Carried up (∀ a, P a) (∀ a, P' a) := by
  cases up with
  | true => exact fun hP a => h a (hP a)
  | false => exact fun hP a => h a (hP a)

theorem ex {α : Sort*} {P P' : α → Prop} (h : ∀ a, Carried up (P a) (P' a)) :
    Carried up (∃ a, P a) (∃ a, P' a) := by
  cases up with
  | true => exact Exists.imp h
  | false => exact Exists.imp h

theorem not (h : Carried (!up) A B) : Carried up (¬A) (¬B) := by
  cases up with
  | true => exact fun hB hA => hB (h hA)
  | false => exact fun hA hB => hA (h hB)

theorem congr (hA : A' ↔ A) (hB : B' ↔ B) (h : Carried up A B) : Carried up A' B' := by
  rw [hA, hB]
  exact h

section Lists
variable {α β : Type} {r : α → β → Prop} {l : List α} {l' : List β} {P : α → Prop} {P' : β → Prop}

theorem forall_mem (h : List.Forall₂ r l l') (hr : ∀ a b, r a b → Carried up (P a) (P' b)) :
    Carried up (∀ a ∈ l, P a) (∀ b ∈ l', P' b) := by
  induction h with
  | nil => exact .of_iff (by simp)
  | cons hab _ ih => exact .congr List.forall_mem_cons List.forall_mem_cons ((hr _ _ hab).and ih)

theorem exists_mem (h : List.Forall₂ r l l') (hr : ∀ a b, r a b → Carried up (P a) (P' b)) :
    Carried up (∃ a ∈ l, P a) (∃ b ∈ l', P' b) := by
  induction h with
  | nil => exact .of_iff (by simp)
  | cons hab _ ih => exact .congr (by simp) (by simp) ((hr _ _ hab).or ih)

theorem option {a : Option α} {b : Option β} (h : Option.Rel r a b)
    (hr : ∀ a b, r a b → Carried up (P a) (P' b)) :
    Carried up (∀ x, a = some x → P x) (∀ x, b = some x → P' x) := by
  cases h with
  | none => exact .of_iff (by simp)
  | some hab => exact .congr (by simp) (by simp) (hr _ _ hab)

theorem exists_some {a : Option α} {b : Option β} (h : Option.Rel r a b)
    (hr : ∀ a b, r a b → Carried up (P a) (P' b)) :
    Carried up (∃ x, a = some x ∧ P x) (∃ x, b = some x ∧ P' x) := by
  cases h with
  | none => exact .of_iff (by simp)
  | some hab => exact .congr (by simp) (by simp) (hr _ _ hab)

end Lists

end Carried

namespace Schema

/-- What matters of two schemas side by side. -/
structure View where
  /-- That all that the right accepts is accepted by the left, and otherwise the other way around. -/
  up : Bool
  /-- And that the same holds of the parts that the two evaluate. -/
  watched : Bool

namespace View

/-- What matters of a schema for parts of the value. -/
def part (w : View) : View :=
  ⟨w.up, false⟩

/-- What matters of a schema that is to refuse a value. -/
def opposite (w : View) : View :=
  ⟨!w.up, false⟩

/-- What matters of a schema for the same value, where a rule next to it may look at what is
evaluated. -/
def beside (w : View) (looks : Bool) : View :=
  ⟨w.up, w.watched || looks⟩

@[simp] theorem part_up (w : View) : w.part.up = w.up := rfl

@[simp] theorem opposite_up (w : View) : w.opposite.up = !w.up := rfl

@[simp] theorem beside_up (w : View) (looks : Bool) : (w.beside looks).up = w.up := rfl

theorem beside_watched {w : View} {looks : Bool} :
    (w.beside looks).watched = true ↔ w.watched = true ∨ looks = true :=
  Bool.or_eq_true_iff ..

end View

variable {f f' : Followed} {w : View}

/-- What matters of two schemas carries over between them, whatever the value without repeats. -/
structure Tracks (f f' : Followed) (w : View) (s s' : Schema) : Prop where
  accepting : ∀ v : Json, v.collapse = v → Carried w.up (issues f s v = []) (issues f' s' v = [])
  evaluating : w.watched = true → ∀ v : Json, v.collapse = v → ∀ p,
    Carried w.up (evaluates f s v p = true) (evaluates f' s' v p = true)

/-- Schemas for the same names, which correspond one by one. -/
def Named (r : Schema → Schema → Prop) (known known' : List (String × Schema)) : Prop :=
  List.Forall₂ (fun e e' => e'.1 = e.1 ∧ r e.2 e'.2) known known'

section Rules
variable {s s' : Schema} {ss ss' : List Schema} {known known' : List (String × Schema)}

theorem tracks_always (b : Bool) : Tracks f f' w (always b) (always b) where
  accepting v _ := .of_iff (by cases b <;> simp [always, issues])
  evaluating _ v _ p := .of_iff (by cases b <;> simp [always, evaluates])

/-- A schema that is not there accepts everything and evaluates nothing. -/
theorem tracks_getD {a a' : Option Schema} (h : Option.Rel (Tracks f f' w) a a') :
    Tracks f f' w (a.getD .anything) (a'.getD .anything) := by
  cases h with
  | none => exact tracks_always true
  | some h => exact h

theorem tracks_allOf (h : List.Forall₂ (Tracks f f' w) ss ss') :
    Tracks f f' w (.allOf ss) (.allOf ss') where
  accepting v hv := by
    rw [issues, issues, issuesEvery_eq_nil, issuesEvery_eq_nil]
    exact .forall_mem h fun s s' hs => hs.accepting v hv
  evaluating hw v hv p := by
    rw [evaluates, evaluates, evaluatesAny_iff, evaluatesAny_iff]
    exact .exists_mem h fun s s' hs => hs.evaluating hw v hv p

/-- Of several schemas, those that the value keeps evaluate its parts. -/
theorem carried_evaluatesValid (hw : w.watched = true) (h : List.Forall₂ (Tracks f f' w) ss ss')
    {v : Json} (hv : v.collapse = v) (p : Part) :
    Carried w.up (evaluatesValid f ss v p = true) (evaluatesValid f' ss' v p = true) := by
  rw [evaluatesValid_iff, evaluatesValid_iff]
  exact .exists_mem h fun s s' hs => (hs.accepting v hv).and (hs.evaluating hw v hv p)

theorem tracks_anyOf (h : List.Forall₂ (Tracks f f' w) ss ss') :
    Tracks f f' w (.anyOf ss) (.anyOf ss') where
  accepting v hv := by
    have hany {f : Followed} {ss : List Schema} :
        issues f (.anyOf ss) v = [] ↔ ∃ s ∈ ss, issues f s v = [] := by
      have hcount : ¬validCount f ss v = 0 ↔ ∃ s ∈ ss, issues f s v = [] := by
        induction ss with
        | nil => simp [validCount]
        | cons s ss ih =>
          have hcons : (∃ t ∈ s :: ss, issues f t v = []) ↔
              issues f s v = [] ∨ ∃ t ∈ ss, issues f t v = [] := by simp
          rw [hcons, ← ih, validCount]
          cases issues f s v <;> simp
      rw [issues, ← hcount]
      split <;> simp [*]
    exact .congr hany hany (.exists_mem h fun s s' hs => hs.accepting v hv)
  evaluating hw v hv p := by
    rw [evaluates, evaluates]
    exact carried_evaluatesValid hw h hv p

/-- With both ways in view, two schemas accept the same. -/
theorem issues_eq_nil_iff (h : Tracks f f' w s s') (hopposite : Tracks f f' w.opposite s s')
    {v : Json} (hv : v.collapse = v) : issues f s v = [] ↔ issues f' s' v = [] := by
  have hup := h.accepting v hv
  have hdown := hopposite.accepting v hv
  rw [View.opposite_up] at hdown
  cases hw : w.up with
  | true =>
    rw [hw] at hup hdown
    exact Carried.iff hup hdown
  | false =>
    rw [hw] at hup hdown
    exact Carried.iff hdown hup

/-- Where schemas are counted, refusing one of them may make the value accepted. -/
theorem tracks_oneOf (h : List.Forall₂ (Tracks f f' w) ss ss')
    (hopposite : List.Forall₂ (Tracks f f' w.opposite) ss ss') :
    Tracks f f' w (.oneOf ss) (.oneOf ss') where
  accepting v hv := by
    have hcount : validCount f ss v = validCount f' ss' v := by
      induction h with
      | nil => rfl
      | cons hs _ ih =>
        cases hopposite with
        | cons hs' hopposite =>
          simp only [validCount, ih hopposite, List.isEmpty_iff, issues_eq_nil_iff hs hs' hv]
    have hone {f : Followed} {ss : List Schema} :
        issues f (.oneOf ss) v = [] ↔ validCount f ss v = 1 := by
      rw [issues]
      split <;> simp_all
    exact .of_iff (by rw [hone, hone, hcount])
  evaluating hw v hv p := by
    rw [evaluates, evaluates]
    exact carried_evaluatesValid hw h hv p

theorem tracks_not (source source' : Json) (h : Tracks f f' w.opposite s s') :
    Tracks f f' w (.not source s) (.not source' s') where
  accepting v hv := by
    have hnot {f : Followed} {source : Json} {s : Schema} :
        issues f (.not source s) v = [] ↔ ¬issues f s v = [] := by
      rw [issues]
      cases issues f s v <;> simp
    exact .congr hnot hnot (h.accepting v hv).not
  evaluating _ v _ p := .of_iff (by simp [evaluates])

theorem issues_conditional_eq_nil {t e : Schema} {v : Json} :
    issues f (.conditional s t e) v = [] ↔
      (¬issues f s v = [] ∨ issues f t v = []) ∧ (issues f s v = [] ∨ issues f e v = []) := by
  rw [issues]
  by_cases h : issues f s v = [] <;> simp [h]

/-- The schema for the one outcome asks something of what the condition accepts, and that for the
other of what it refuses. What the latter evaluates, it evaluates where the condition refuses. -/
theorem tracks_conditional {t t' e e' : Option Schema}
    (hexcluded : t.isSome = true ∨ w.watched = true ∧ e.isSome = true →
      Tracks f f' w.opposite s s')
    (hkept : e.isSome = true ∨ t = none ∨ w.watched = true → Tracks f f' w s s')
    (ht : Option.Rel (Tracks f f' w) t t') (he : Option.Rel (Tracks f f' w) e e') :
    Tracks f f' w (.conditional s (t.getD .anything) (e.getD .anything))
      (.conditional s' (t'.getD .anything) (e'.getD .anything)) where
  accepting v hv := by
    refine .congr issues_conditional_eq_nil issues_conditional_eq_nil (.and ?_ ?_)
    · cases ht with
      | none => exact .of_iff (by simp [issues])
      | some houtcome =>
        have hrefused := (hexcluded (Or.inl rfl)).accepting v hv
        exact hrefused.not.or (houtcome.accepting v hv)
    · cases he with
      | none => exact .of_iff (by simp [issues])
      | some houtcome => exact .or ((hkept (Or.inl rfl)).accepting v hv) (houtcome.accepting v hv)
  evaluating hw v hv p := by
    have hcondition := hkept (Or.inr (Or.inr hw))
    refine .congr evaluates_conditional_iff evaluates_conditional_iff (.or ?_ ?_)
    · exact (hcondition.accepting v hv).and
        ((hcondition.evaluating hw v hv p).or ((tracks_getD ht).evaluating hw v hv p))
    · cases he with
      | none => exact .of_iff (by simp [evaluates])
      | some houtcome =>
        have hrefused := (hexcluded (Or.inr ⟨hw, rfl⟩)).accepting v hv
        exact hrefused.not.and (houtcome.evaluating hw v hv p)

theorem tracks_items (start : Nat) (h : Tracks f f' w.part s s') :
    Tracks f f' w (.items start s) (.items start s') where
  accepting v hv := by
    cases v with
    | array xs =>
      refine .congr issues_items_eq_nil issues_items_eq_nil (.all fun x => .all fun hx => ?_)
      exact h.accepting x (Json.collapse_of_mem_array hv (List.mem_of_mem_drop hx))
    | _ => exact .of_iff (by simp [issues])
  evaluating _ v _ p := .of_iff (by cases v <;> cases p <;> simp [evaluates])

theorem tracks_prefixItems (h : List.Forall₂ (Tracks f f' w.part) ss ss') :
    Tracks f f' w (.prefixItems ss) (.prefixItems ss') where
  accepting v hv := by
    cases v with
    | array xs =>
      rw [issues, issues]
      have hxs : ∀ x ∈ xs, x.collapse = x := fun x hx => Json.collapse_of_mem_array hv hx
      clear hv
      induction h generalizing xs with
      | nil => exact .of_iff (by simp [issuesPairwise])
      | cons hs _ ih =>
        cases xs with
        | nil => exact .of_iff (by simp [issuesPairwise])
        | cons x xs =>
          obtain ⟨hx, hxs⟩ := List.forall_mem_cons.mp hxs
          rw [issuesPairwise, issuesPairwise, List.append_eq_nil_iff, List.append_eq_nil_iff]
          exact (hs.accepting x hx).and (ih xs hxs)
    | _ => exact .of_iff (by simp [issues])
  evaluating _ v _ p := .of_iff (by cases v <;> cases p <;> simp [evaluates, h.length_eq])

/-- How many items keep a schema. -/
def keeping (f : Followed) (s : Schema) (xs : List Json) : Nat :=
  xs.countP fun x => (issues f s x).isEmpty

/-- Where more is accepted, more items are counted. -/
theorem carried_le_keeping {xs : List Json} (hxs : ∀ x ∈ xs, x.collapse = x)
    (h : Tracks f f' w s s') (n : Nat) :
    Carried w.up (n ≤ keeping f s xs) (n ≤ keeping f' s' xs) := by
  have hx (x : Json) (hx : x ∈ xs) : Carried w.up ((issues f s x).isEmpty = true)
      ((issues f' s' x).isEmpty = true) := by
    rw [List.isEmpty_iff, List.isEmpty_iff]
    exact h.accepting x (hxs x hx)
  cases hw : w.up with
  | true =>
    rw [hw] at hx
    exact fun hn => Nat.le_trans hn (List.countP_mono_left hx)
  | false =>
    rw [hw] at hx
    exact fun hn => Nat.le_trans hn (List.countP_mono_left hx)

/-- An upper bound on the items that keep a schema is an exclusion: it asks that no more keep it. -/
theorem tracks_contains {least : Nat} {most : Option Nat} (h : Tracks f f' w.part s s')
    (hmost : most.isSome = true → Tracks f f' w.opposite s s') :
    Tracks f f' w (.contains s least most) (.contains s' least most) where
  accepting v hv := by
    cases v with
    | array xs =>
      have hxs : ∀ x ∈ xs, x.collapse = x := fun x hx => Json.collapse_of_mem_array hv hx
      refine .congr issues_contains_eq_nil issues_contains_eq_nil ?_
      refine .and (carried_le_keeping hxs h least) (.all fun n => .all fun hn => ?_)
      have hopposite := hmost (by rw [hn]; rfl)
      refine .congr Nat.not_lt.symm Nat.not_lt.symm (.not ?_)
      exact carried_le_keeping hxs hopposite (n + 1)
    | _ => exact .of_iff (by simp [issues])
  evaluating _ v hv p := by
    cases v with
    | array xs =>
      cases p with
      | item i =>
        simp only [evaluates, Option.any_eq_true, List.isEmpty_iff]
        refine .ex fun x => ?_
        by_cases hx : xs[i]? = some x
        · have hcollapse : x.collapse = x :=
            Json.collapse_of_mem_array hv (List.mem_of_getElem? hx)
          exact .and (.of_iff Iff.rfl) (h.accepting x hcollapse)
        · exact .of_iff (by simp [hx])
      | _ => exact .of_iff (by simp [evaluates])
    | _ => exact .of_iff (by simp [evaluates])

theorem tracks_propertyNames (h : Tracks f f' w.part s s') :
    Tracks f f' w (.propertyNames s) (.propertyNames s') where
  accepting v hv := by
    cases v with
    | object ms =>
      refine .congr issues_propertyNames_eq_nil issues_propertyNames_eq_nil ?_
      exact .all fun e => .all fun _ => h.accepting _ rfl
    | _ => exact .of_iff (by simp [issues])
  evaluating _ v _ p := .of_iff (by simp [evaluates])

theorem tracks_dependentSchemas (h : Named (Tracks f f' w) known known') :
    Tracks f f' w (.dependentSchemas known) (.dependentSchemas known') where
  accepting v hv := by
    have hdependent {f : Followed} {known : List (String × Schema)}
        {ms : Entries Json} : issues f (.dependentSchemas known) (.object ms) = [] ↔
          ∀ e ∈ known, (ms.lookup e.1).isSome = true → issues f e.2 (.object ms) = [] := by
      rw [issues]
      induction known with
      | nil => simp [issuesDependent]
      | cons e known ih =>
        rw [issuesDependent, List.append_eq_nil_iff, ih, List.forall_mem_cons]
        split <;> simp [*]
    cases v with
    | object ms =>
      refine .congr hdependent hdependent (.forall_mem h ?_)
      rintro e e' ⟨hname, he⟩
      rw [hname]
      exact .all fun _ => he.accepting _ hv
    | _ => exact .of_iff (by simp [issues])
  evaluating hw v hv p := by
    cases v with
    | object ms =>
      rw [evaluates, evaluates, evaluatesDependent_iff, evaluatesDependent_iff]
      apply Carried.exists_mem h
      rintro e e' ⟨hname, he⟩
      rw [hname]
      exact .and (.of_iff Iff.rfl) (he.evaluating hw _ hv p)
    | _ => exact .of_iff (by simp [evaluates])

end Rules

section Keyword
variable {α : Type} {r : α → α → Prop} {a a' : Option α} {g g' : α → Schema}
  (ha : Option.Rel r a a') (hg : ∀ x x', r x x' → Tracks f f' w (g x) (g' x')) {v : Json}
  (hv : v.collapse = v)
include ha hg hv

/-- The rule of a keyword that is there on both sides or on neither asks for something that carries
over, and so does what it evaluates. -/
theorem carried_accepting_rule : Carried w.up (∀ x, a = some x → issues f (g x) v = [])
    (∀ x, a' = some x → issues f' (g' x) v = []) :=
  .option ha fun x x' hx => (hg x x' hx).accepting v hv

theorem carried_evaluating_rule (hw : w.watched = true) (p : Part) :
    Carried w.up (∃ x, a = some x ∧ evaluates f (g x) v p = true)
      (∃ x, a' = some x ∧ evaluates f' (g' x) v p = true) :=
  .exists_some ha fun x x' hx => (hg x x' hx).evaluating hw v hv p

end Keyword

end Schema
end Catalog
