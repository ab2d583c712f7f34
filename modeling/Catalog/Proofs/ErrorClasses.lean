import Catalog.Proofs.RepeatedKeys
import Catalog.Proofs.WellFormedTexts

/-! The errors of bodies by their classes. A text that is no JSON text is unread, one of another shape
than that of a request is a mismatch, and all that is left to the others is to be blamed at a field of
their kind or at one step inside it. -/

namespace Catalog

/-- Whatever violation there is, it is at a place of which `P` holds. -/
def BlamedAt {α : Type} (P : Field → Prop) (x : Except Violation α) : Prop :=
  ∀ v, x = .error v → P v.field

/-- The field, or one step inside it. -/
def Field.Near (field f : Field) : Prop :=
  f = field ∨ ∃ step, f = field.child step

namespace BlamedAt
variable {α β : Type} {P Q : Field → Prop} {x : Except Violation α}

theorem mono (h : BlamedAt P x) (hPQ : ∀ f, P f → Q f) : BlamedAt Q x :=
  fun v hv => hPQ v.field (h v hv)

theorem bind {f : α → Except Violation β} (hx : BlamedAt P x)
    (hf : ∀ a, x = .ok a → BlamedAt P (f a)) : BlamedAt P (x >>= f) := by
  intro v hv
  rcases bind_eq_error.mp hv with hfirst | ⟨a, ha, hsecond⟩
  · exact hx v hfirst
  · exact hf a ha v hsecond

theorem map {f : α → β} (hx : BlamedAt P x) : BlamedAt P (x.map f) := by
  intro v hv
  cases x with
  | error w =>
    cases hv
    exact hx _ rfl
  | ok a => cases hv

theorem ok {a : α} : BlamedAt P (.ok a : Except Violation α) := by
  intro v hv
  cases hv

theorem error {v : Violation} (h : P v.field) : BlamedAt P (.error v : Except Violation α) := by
  intro w hw
  cases hw
  exact h

end BlamedAt

theorem NamingRules.blamedAt_check {rules : NamingRules} {field : Field} {name : String} :
    BlamedAt (· = field) (rules.check field name) := by
  unfold check
  split
  · exact .error rfl
  · exact .ok

theorem Identifier.blamedAt_new {database object : String} :
    BlamedAt (fun f => ∃ step, f = [step]) (new database object) := by
  unfold new
  split
  · exact .error ⟨_, rfl⟩
  · split
    · exact .error ⟨_, rfl⟩
    · exact .ok

theorem CreateDatabase.blamedAt_new {rules : NamingRules} {name : String}
    {properties : KeyMap String} :
    BlamedAt (fun f => f = .ofKey "name" ∨ f = .ofKey "properties") (new rules name properties) := by
  unfold new
  split
  · exact .error (Or.inl rfl)
  · split
    · exact .error (Or.inr rfl)
    · exact .ok

theorem AlterDatabase.blamedAt_new {removals : List String} {updates : KeyMap String} :
    BlamedAt (fun f => (∃ i, f = removalField i) ∨ f = .ofKey "updates") (new removals updates) := by
  have hverdict := verdict_new removals updates
  generalize new removals updates = x at hverdict ⊢
  cases hverdict with
  | emptyRemoval | alsoUpdated => exact .error (Or.inl ⟨_, rfl⟩)
  | emptyKey => exact .error (Or.inr rfl)
  | made => exact .ok

theorem RenameTable.blamedAt_new {source destination : Identifier} :
    BlamedAt (· = .ofKey "destination") (new source destination) := by
  unfold new
  split
  · exact .error rfl
  · exact .ok

namespace Scope
variable {s : Scope} {name : String} {place : Field}

theorem blamedAt_value : BlamedAt (· = s.field name) (s.value name) := by
  unfold value
  split
  · exact .error rfl
  · split
    · exact .ok
    · exact .error rfl

theorem blamedAt_asText {v : Json} : BlamedAt (· = place) (asText place v) := by
  cases v with
  | string t => exact .ok
  | _ => exact .error rfl

theorem blamedAt_text : BlamedAt (· = s.field name) (s.text name) :=
  blamedAt_value.bind fun _ _ => blamedAt_asText

theorem blamedAt_textEntries {members : Entries Json} :
    BlamedAt (fun f => ∃ step, f = place.child step) (textEntries place members) := by
  induction members with
  | nil => exact .ok
  | cons e members ih =>
    obtain ⟨k, v⟩ := e
    exact (blamedAt_asText.mono fun f hf => ⟨.key k, hf⟩).bind fun _ _ => ih.bind fun _ _ => .ok

theorem blamedAt_textMap : BlamedAt (s.field name).Near (s.textMap name) := by
  refine (blamedAt_value.mono fun f hf => Or.inl hf).bind fun v _ => ?_
  cases v with
  | object members =>
    simp only
    split
    · exact .error (Or.inl rfl)
    · exact (blamedAt_textEntries.mono fun f hf => Or.inr hf).map
  | _ => exact .error (Or.inl rfl)

theorem blamedAt_textItems {i : Nat} {items : List Json} :
    BlamedAt (fun f => ∃ step, f = place.child step) (textItems place i items) := by
  induction items generalizing i with
  | nil => exact .ok
  | cons v items ih =>
    exact (blamedAt_asText.mono fun f hf => ⟨.index i, hf⟩).bind fun _ _ =>
      ih.bind fun _ _ => .ok

theorem blamedAt_textList : BlamedAt (s.field name).Near (s.textList name) := by
  refine (blamedAt_value.mono fun f hf => Or.inl hf).bind fun v _ => ?_
  cases v with
  | array items => exact blamedAt_textItems.mono fun f hf => Or.inr hf
  | _ => exact .error (Or.inl rfl)

/-- The fields of an identifier are blamed inside the field that holds it. -/
theorem blamedAt_identifier : BlamedAt (s.field name).Near (s.identifier name) := by
  refine (blamedAt_value.mono fun f hf => Or.inl hf).bind fun v _ => ?_
  cases v with
  | object members =>
    have hinner (field : String) : BlamedAt (s.field name).Near
        ((s.inside name members).text field) :=
      blamedAt_text.mono fun f hf => Or.inr ⟨.key field, hf⟩
    simp only
    split
    · exact .error (Or.inr ⟨_, rfl⟩)
    · refine (hinner "database_name").bind fun database _ =>
        (hinner "object_name").bind fun object _ => ?_
      split
      · exact .ok
      · -- Names are checked without knowing where they stand, and blamed below the field.
        next v hv =>
        obtain ⟨step, hstep⟩ := Identifier.blamedAt_new v hv
        exact .error (Or.inr ⟨step, congrArg (s.field name ++ ·) hstep⟩)
  | _ => exact .error (Or.inl rfl)

end Scope

/-- The place is in a body of the kind: one of its fields, or one step inside it. -/
def Kind.HasPlace (k : Kind) (f : Field) : Prop :=
  ∃ name ∈ k.fields, Field.Near (.ofKey name) f

namespace Request
variable {rules : NamingRules} {members : Entries Json} {repeats : List Json.Repeat}

/-- What a field of the body is blamed for is blamed on its kind. -/
theorem hasPlace_of_near {k : Kind} {name : String} (hname : name ∈ k.fields) (f : Field)
    (hf : Field.Near (Scope.field ⟨[], members, repeats⟩ name) f) : k.HasPlace f :=
  ⟨name, hname, hf⟩

theorem blamedAt_ofScope (k : Kind) :
    BlamedAt k.HasPlace (ofScope rules ⟨[], members, repeats⟩ k) := by
  cases k with
  | createDatabase =>
    have hname : "name" ∈ Kind.createDatabase.fields := by decide
    have hproperties : "properties" ∈ Kind.createDatabase.fields := by decide
    refine (Scope.blamedAt_text.mono fun f hf => hasPlace_of_near hname f (Or.inl hf)).bind
      fun name _ => ?_
    refine (NamingRules.blamedAt_check.mono fun f hf =>
      hasPlace_of_near hname f (Or.inl hf)).bind fun _ _ => ?_
    refine (Scope.blamedAt_textMap.mono (hasPlace_of_near hproperties)).bind fun properties _ => ?_
    refine (CreateDatabase.blamedAt_new.mono fun f hf => ?_).bind fun _ _ => .ok
    exact hf.elim (fun hf => ⟨_, hname, Or.inl hf⟩) fun hf => ⟨_, hproperties, Or.inl hf⟩
  | alterDatabase =>
    have hremovals : "removals" ∈ Kind.alterDatabase.fields := by decide
    have hupdates : "updates" ∈ Kind.alterDatabase.fields := by decide
    refine (Scope.blamedAt_textList.mono (hasPlace_of_near hremovals)).bind fun removals _ => ?_
    split
    · exact .error ⟨_, hremovals, Or.inr ⟨_, rfl⟩⟩
    refine (Scope.blamedAt_textMap.mono (hasPlace_of_near hupdates)).bind fun updates _ => ?_
    refine (AlterDatabase.blamedAt_new.mono fun f hf => ?_).bind fun _ _ => .ok
    exact hf.elim (fun ⟨i, hf⟩ => ⟨_, hremovals, Or.inr ⟨.index i, hf⟩⟩) fun hf =>
      ⟨_, hupdates, Or.inl hf⟩
  | renameTable =>
    have hsource : "source" ∈ Kind.renameTable.fields := by decide
    have hdestination : "destination" ∈ Kind.renameTable.fields := by decide
    refine (Scope.blamedAt_identifier.mono (hasPlace_of_near hsource)).bind fun source _ => ?_
    refine (Scope.blamedAt_identifier.mono (hasPlace_of_near hdestination)).bind
      fun destination _ => ?_
    refine (RenameTable.blamedAt_new.mono fun f hf => ?_).bind fun _ _ => .ok
    exact ⟨_, hdestination, Or.inl hf⟩

example : ofScope {} ⟨[], [("destination", .null), ("source", .object [("database_name", .string ""),
    ("object_name", .string "t")])], []⟩ .renameTable =
      .error ⟨[.key "source", .key "database_name"], .empty⟩ := rfl

theorem kind_of_ofScope {k : Kind} {r : Request}
    (h : ofScope rules ⟨[], members, repeats⟩ k = .ok r) : r.kind = k := by
  cases k with
  | createDatabase =>
    obtain ⟨c, rfl, -⟩ := ofScope_create_eq_ok.mp h
    rfl
  | alterDatabase =>
    obtain ⟨a, rfl, -⟩ := ofScope_alter_eq_ok.mp h
    rfl
  | renameTable =>
    obtain ⟨t, rfl, -⟩ := ofScope_rename_eq_ok.mp h
    rfl

end Request

/-- The text names a field of the kind, and after it perhaps one key or one index. -/
def Kind.Names (k : Kind) (text : String) : Prop :=
  ∃ name ∈ k.fields, text = name ∨ (∃ key, text = name ++ "." ++ key) ∨
    ∃ i : Nat, text = name ++ "[" ++ toString i ++ "]"

theorem Kind.HasPlace.names {k : Kind} {f : Field} (h : k.HasPlace f) : k.Names f.text := by
  obtain ⟨name, hname, hf⟩ := h
  have hne : name ≠ "" := by
    rintro rfl
    cases k <;> exact absurd hname (by decide)
  refine ⟨name, hname, ?_⟩
  rcases hf with rfl | ⟨key | i, rfl⟩
  · exact Or.inl rfl
  · exact Or.inr (Or.inl ⟨key, if_neg hne⟩)
  · exact Or.inr (Or.inr ⟨i, rfl⟩)

namespace Request
variable {rules : NamingRules} {s : Json.Source} {t : Json}

theorem ofSource_unread_iff :
    (∃ e, ofSource rules s = .error (.unread e)) ↔ ¬∃ t, Json.IsText t s := by
  simp only [← Json.parseTree_eq_ok]
  constructor
  · rintro ⟨e, he⟩ ⟨t, ht⟩
    rw [ofSource_eq_ofScanned ht] at he
    rcases Classical.em (∃ k : Kind, k.Fits t) with ⟨k, hk⟩ | hk
    · rcases ofScanned_of_fits hk (t.repeats []) with ⟨r, hr⟩ | ⟨v, hv⟩
      · cases he.symm.trans hr
      · cases he.symm.trans hv
    · obtain ⟨m, hm⟩ := ofScanned_of_not_fits hk (t.repeats [])
      cases he.symm.trans hm
  · intro hnone
    cases ht : Json.parseTree s with
    | ok t => exact absurd ⟨t, ht⟩ hnone
    | error e => exact ⟨e, by simp [ofSource, Json.scan, ht, Except.map]⟩

/-- A text of the shape of a kind is read as that kind, or one of its places is blamed. -/
theorem ofSource_of_fits {k : Kind} (ht : Json.IsText t s) (hk : k.Fits t) :
    (∃ r, ofSource rules s = .ok r ∧ r.kind = k) ∨
      ∃ v, ofSource rules s = .error (.violation v) ∧ k.Names v.field.text := by
  obtain ⟨members, -, -, hread⟩ := ofScanned_eq_of_fits rules hk (t.repeats [])
  rw [ofSource_eq_ofScanned (Json.parseTree_eq_ok.mpr ht), Json.Scanned.ofTree, hread]
  cases hscope : ofScope rules ⟨[], members, t.repeats []⟩ k with
  | ok r => exact Or.inl ⟨r, rfl, kind_of_ofScope hscope⟩
  | error v => exact Or.inr ⟨v, rfl, (blamedAt_ofScope k v hscope).names⟩

theorem ofSource_mismatch_iff :
    (∃ m, ofSource rules s = .error (.mismatch m)) ↔
      ∃ t, Json.IsText t s ∧ ¬∃ k : Kind, k.Fits t := by
  constructor
  · rintro ⟨m, hm⟩
    have htext : ∃ t, Json.IsText t s := by
      by_contra hnone
      obtain ⟨e, he⟩ := ofSource_unread_iff.mpr hnone
      cases hm.symm.trans he
    obtain ⟨t, ht⟩ := htext
    refine ⟨t, ht, ?_⟩
    rintro ⟨k, hk⟩
    rcases ofSource_of_fits ht hk with ⟨r, hr, -⟩ | ⟨v, hv, -⟩
    · cases hm.symm.trans hr
    · cases hm.symm.trans hv
  · rintro ⟨t, ht, hk⟩
    rw [ofSource_eq_ofScanned (Json.parseTree_eq_ok.mpr ht)]
    exact ofScanned_of_not_fits hk _

/-- The errors of reading a source as a body fall into three classes. Sources that are no JSON texts
are unread, and they alone; JSON texts of the shape of no kind are mismatches, and they alone; and a
JSON text of the shape of a kind is read as a request of that kind, or a field of the kind is blamed,
or what a key or an index leads to in it. -/
theorem ofSource_error_classes (rules : NamingRules) (s : Json.Source) :
    ((∃ e, ofSource rules s = .error (.unread e)) ↔ ¬∃ t, Json.IsText t s) ∧
      ((∃ m, ofSource rules s = .error (.mismatch m)) ↔
        ∃ t, Json.IsText t s ∧ ¬∃ k : Kind, k.Fits t) ∧
      ∀ k : Kind, (∃ t, Json.IsText t s ∧ k.Fits t) →
        (∃ r, ofSource rules s = .ok r ∧ r.kind = k) ∨
          ∃ v, ofSource rules s = .error (.violation v) ∧ k.Names v.field.text :=
  ⟨ofSource_unread_iff, ofSource_mismatch_iff, fun _ ⟨_, ht, hk⟩ => ofSource_of_fits ht hk⟩

end Request
end Catalog
