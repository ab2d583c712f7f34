import Catalog.Proofs.FirstField

/-! Which place is blamed inside a field of texts that may not be empty: the removals of an
alteration, and the two names of a table. The types of all places are looked at before any text is
asked whether it is empty, so an empty text is not blamed when a place behind it holds no text. -/

namespace Catalog

namespace Json

/-- The text that the value is. -/
def text? : Json → Option String
  | .string s => some s
  | _ => none

@[simp]
theorem text?_string (s : String) : (string s).text? = some s := rfl

theorem text?_eq_some {v : Json} {s : String} : v.text? = some s ↔ v = .string s := by
  cases v <;> simp [text?]

theorem text?_collapse (v : Json) : v.collapse.text? = v.text? := by
  cases v <;> simp [text?]

theorem shape_collapse (v : Json) : v.collapse.shape = v.shape := by
  cases v <;> simp [shape]

end Json

/-- What stands inside a field, each value at the step that leads to it. -/
abbrev Places := List (Step × Json)

namespace Places

/-- The items of an array, the first of them at the index `i`. -/
def ofItems (i : Nat) (items : List Json) : Places :=
  (items.zipIdx i).map fun e => (.index e.2, e.1)

/-- The two names of a table. -/
def ofNames (database object : Json) : Places :=
  [(.key "database_name", database), (.key "object_name", object)]

/-- The first place that holds anything else than a text that is not empty. -/
def firstOffence? (places : Places) : Option Step :=
  (places.find? fun e => e.2.text?.all (· = "")).map Prod.fst

/-- The first place that holds no text, and when all hold texts, the first that holds the empty
text. -/
def blamed? (places : Places) : Option (Step × Reason) :=
  ((places.find? (·.2.text?.isNone)).map fun e => (e.1, .wrongShape .string e.2.shape)).or
    ((places.find? (·.2.text? = some "")).map fun e => (e.1, .empty))

@[simp]
theorem ofItems_nil (i : Nat) : ofItems i [] = [] := rfl

@[simp]
theorem ofItems_cons (i : Nat) (v : Json) (vs : List Json) :
    ofItems i (v :: vs) = (.index i, v) :: ofItems (i + 1) vs := by
  simp [ofItems]

/-- The values that trees stand for are blamed like the trees. -/
theorem blamed?_collapse (places : Places) :
    blamed? (places.map fun e => (e.1, e.2.collapse)) = places.blamed? := by
  simp only [blamed?, List.find?_map, Option.map_map, Function.comp_def, Json.text?_collapse,
    Json.shape_collapse]

/-- Some place is blamed exactly when some place is an offence. -/
theorem isSome_blamed? (places : Places) : places.blamed?.isSome = places.firstOffence?.isSome := by
  have hoffence (e : Step × Json) :
      e.2.text?.all (· = "") = true ↔ e.2.text?.isNone = true ∨ e.2.text? = some "" := by
    cases e.2.text? <;> simp
  rw [Bool.eq_iff_iff]
  simp only [blamed?, firstOffence?, Option.isSome_or, Option.isSome_map, Bool.or_eq_true,
    List.find?_isSome, hoffence, and_or_left, exists_or, decide_eq_true_eq]

/-- The first offence is blamed unless an empty text stands in front of a place that holds no text. -/
theorem blamed?_eq_firstOffence? {places : Places}
    (h : ∀ before e after, places = before ++ e :: after → e.2.text? = none →
      ∀ d ∈ before, d.2.text? ≠ some "") :
    places.blamed?.map Prod.fst = places.firstOffence? := by
  induction places with
  | nil => rfl
  | cons e places ih =>
    have htail : (blamed? places).map Prod.fst = firstOffence? places := by
      refine ih fun before d after hplaces hd => ?_
      exact fun c hc => h (e :: before) d after (by rw [hplaces]; rfl) hd c
        (List.mem_cons_of_mem _ hc)
    cases he : e.2.text? with
    | none => simp [blamed?, firstOffence?, he]
    | some s =>
      by_cases hs : s = ""
      · -- Behind the empty text all places hold texts, so it is the first that is blamed.
        subst hs
        have htexts : places.find? (·.2.text?.isNone) = none := by
          rw [List.find?_eq_none]
          intro d hd hnone
          obtain ⟨before, after, hplaces⟩ := List.append_of_mem hd
          exact h (e :: before) d after (by rw [hplaces]; rfl) (Option.isNone_iff_eq_none.mp hnone)
            e List.mem_cons_self he
        simp [blamed?, firstOffence?, he, htexts]
      · simpa [blamed?, firstOffence?, he, hs] using htail

end Places

namespace Scope
variable {place : Field} {s : Scope} {name : String}

theorem asText_of_text? {v : Json} {t : String} (h : v.text? = some t) : asText place v = .ok t := by
  rw [Json.text?_eq_some.mp h]
  rfl

theorem asText_of_no_text {v : Json} (h : v.text? = none) :
    asText place v = .error ⟨place, .wrongShape .string v.shape⟩ := by
  cases v with
  | string s => cases h
  | _ => rfl

theorem textItems_eq_error {i : Nat} {items : List Json} {e : Step × Json}
    (h : (Places.ofItems i items).find? (·.2.text?.isNone) = some e) :
    textItems place i items = .error ⟨place.child e.1, .wrongShape .string e.2.shape⟩ := by
  induction items generalizing i with
  | nil => cases h
  | cons v vs ih =>
    cases hv : v.text? with
    | none =>
      simp only [Places.ofItems_cons, List.find?_cons, hv, Option.isNone_none, Option.some.injEq] at h
      subst h
      simp [textItems, asText_of_no_text hv, bind, Except.bind]
    | some t =>
      have htail : (Places.ofItems (i + 1) vs).find? (·.2.text?.isNone) = some e := by
        simpa [hv] using h
      simp [textItems, asText_of_text? hv, ih htail, bind, Except.bind]

theorem exists_texts_of_find? {i : Nat} {items : List Json}
    (h : (Places.ofItems i items).find? (·.2.text?.isNone) = none) :
    ∃ l : List String, items = l.map .string := by
  induction items generalizing i with
  | nil => exact ⟨[], rfl⟩
  | cons v vs ih =>
    cases hv : v.text? with
    | none => simp [hv] at h
    | some t =>
      have htail : (Places.ofItems (i + 1) vs).find? (·.2.text?.isNone) = none := by
        simpa [hv] using h
      obtain ⟨l, rfl⟩ := ih htail
      exact ⟨t :: l, by rw [List.map_cons, Json.text?_eq_some.mp hv]⟩

theorem find?_empty_ofItems {i : Nat} {l : List String} :
    ((Places.ofItems i (l.map .string)).find? (·.2.text? = some "")).map Prod.fst =
      (AlterDatabase.emptyRemoval? l).map fun j => .index (i + j) := by
  induction l generalizing i with
  | nil => rfl
  | cons t l ih =>
    by_cases ht : t = ""
    · simp [AlterDatabase.emptyRemoval?, ht, List.findIdx?_cons]
    · have hrest : AlterDatabase.emptyRemoval? (t :: l) =
          (AlterDatabase.emptyRemoval? l).map (· + 1) := by
        simp [AlterDatabase.emptyRemoval?, ht, List.findIdx?_cons]
      have hshift (j : Nat) : i + 1 + j = i + (j + 1) := by omega
      simp [ht, hrest, ih, hshift, Function.comp_def]

/-- The two names of a field that has no others are blamed in the field. -/
theorem identifier_eq_error (ho : s.Once name) (hu : s.Unrepeated (s.field name)) {x y : Json}
    (hv : s.members.lookup name = some (.object [("database_name", x), ("object_name", y)]))
    {step : Step} {reason : Reason} (hb : (Places.ofNames x y).blamed? = some (step, reason)) :
    s.identifier name = .error ⟨(s.field name).child step, reason⟩ := by
  rw [identifier_of_pair ho hu hv]
  cases hx : x.text? with
  | none =>
    have hfirst : (Places.ofNames x y).blamed? =
        some (.key "database_name", .wrongShape .string x.shape) := by
      simp [Places.blamed?, Places.ofNames, hx]
    cases hfirst.symm.trans hb
    rw [asText_of_no_text hx]
    rfl
  | some database =>
    rw [asText_of_text? hx]
    cases hy : y.text? with
    | none =>
      have hsecond : (Places.ofNames x y).blamed? =
          some (.key "object_name", .wrongShape .string y.shape) := by
        simp [Places.blamed?, Places.ofNames, hx, hy]
      cases hsecond.symm.trans hb
      rw [asText_of_no_text hy]
      rfl
    | some object =>
      -- Both names are texts, so it is the constructor that finds one of them empty.
      rw [asText_of_text? hy]
      by_cases hd : database = ""
      · have hfirst : (Places.ofNames x y).blamed? = some (.key "database_name", .empty) := by
          simp [Places.blamed?, Places.ofNames, hx, hy, hd]
        cases hfirst.symm.trans hb
        simp only [bind, Except.bind, Identifier.new_eq_error.mpr (Or.inl ⟨hd, rfl⟩)]
        rfl
      by_cases hobject : object = ""
      · have hsecond : (Places.ofNames x y).blamed? = some (.key "object_name", .empty) := by
          simp [Places.blamed?, Places.ofNames, hx, hy, hd, hobject]
        cases hsecond.symm.trans hb
        simp only [bind, Except.bind, Identifier.new_eq_error.mpr (Or.inr ⟨hd, hobject, rfl⟩)]
        rfl
      · have hnone : (Places.ofNames x y).blamed? = none := by
          simp [Places.blamed?, Places.ofNames, hx, hy, hd, hobject]
        cases hnone.symm.trans hb

end Scope

namespace Request
variable {rules : NamingRules} {step : Step} {reason : Reason}

theorem firstFault_removals {items : List Json}
    (h : (Places.ofItems 0 items).blamed? = some (step, reason)) :
    firstFault rules .alterDatabase (.array items) =
      .error ⟨[.key "removals", step], reason⟩ := by
  have hplaces : Places.ofItems 0 (items.map Json.collapse) =
      (Places.ofItems 0 items).map fun e => (e.1, e.2.collapse) := by
    simp [Places.ofItems, List.zipIdx_map, Function.comp_def]
  rw [← Places.blamed?_collapse, ← hplaces] at h
  have hlist : Scope.textList ⟨[], [("removals", (Json.array items).collapse)], []⟩ "removals" =
      Scope.textItems (.ofKey "removals") 0 (items.map Json.collapse) := by
    rw [Scope.textList, Scope.value_of_once (by simp [Scope.Once]), List.lookup_cons_self,
      Json.collapse_array]
    rfl
  simp only [firstFault, readFirst, Kind.first, hlist]
  rcases Option.or_eq_some_iff.mp h with hshape | ⟨htexts, hempty⟩
  · obtain ⟨e, he, heq⟩ := Option.map_eq_some_iff.mp hshape
    cases heq
    rw [Scope.textItems_eq_error he]
    rfl
  · obtain ⟨l, hl⟩ := Scope.exists_texts_of_find? (Option.map_eq_none_iff.mp htexts)
    obtain ⟨e, he, heq⟩ := Option.map_eq_some_iff.mp hempty
    cases heq
    rw [hl] at he
    have hi := Scope.find?_empty_ofItems (i := 0) (l := l)
    rw [he] at hi
    obtain ⟨i, hi, hstep⟩ := Option.map_eq_some_iff.mp hi.symm
    rw [Scope.textItems_eq_ok.mpr hl]
    simp only [bind, Except.bind, hi]
    rw [← hstep, Nat.zero_add]
    rfl

theorem firstFault_names {x y : Json}
    (h : (Places.ofNames x y).blamed? = some (step, reason)) :
    firstFault rules .renameTable (.object [("database_name", x), ("object_name", y)]) =
      .error ⟨[.key "source", step], reason⟩ := by
  rw [← Places.blamed?_collapse] at h
  have hnames : (Json.object [("database_name", x), ("object_name", y)]).collapse =
      .object [("database_name", x.collapse), ("object_name", y.collapse)] :=
    Json.collapse_pair (by decide) x y
  have honce : Scope.Once ⟨[], [("source", .object [("database_name", x.collapse),
      ("object_name", y.collapse)])], []⟩ "source" := by simp [Scope.Once]
  have hsource := Scope.identifier_eq_error honce (by simp [Scope.Unrepeated])
    List.lookup_cons_self h
  simp only [firstFault, readFirst, Kind.first, hnames, hsource]
  rfl

theorem ofValue_of_destination (source : Identifier) {x y : Json}
    (h : (Places.ofNames x y).blamed? = some (step, reason)) :
    ofValue rules (Kind.renameTable.body source.encode
      (.object [("database_name", x), ("object_name", y)])) =
        .error (.violation ⟨[.key "destination", step], reason⟩) := by
  rw [← Places.blamed?_collapse] at h
  have hbody : (Kind.renameTable.body source.encode
      (.object [("database_name", x), ("object_name", y)])).collapse =
        .object [("destination", .object [("database_name", x.collapse),
          ("object_name", y.collapse)]), ("source", source.encode)] := by
    have hfields : "destination" < "source" := by decide
    have hnames : "database_name" < "object_name" := by decide
    simp only [Kind.body, Kind.first, Kind.second, Json.collapse_pair_swap hfields,
      Json.collapse_pair hnames, Identifier.collapse_encode]
  have hs := settled_of_collapse hbody
  have hsource : Scope.identifier ⟨[], _, []⟩ "source" = .ok source :=
    hs.identifier_eq_ok.mpr (by simp [Entries.lookup_cons])
  have hdestination := Scope.identifier_eq_error (hs.once "destination") (hs.unrepeated _)
    List.lookup_cons_self h
  rw [ofValue, ofScanned_eq_ofScope (k := .renameTable) hbody rfl]
  simp only [Json.Scanned.ofValue, ofScope, hsource, hdestination]
  rfl

/-- Removals, and the names of the source and of the destination, are blamed at the first place that
holds no text, and only when all hold texts at the first that is empty, whatever stands in the field
behind them. Some place is blamed whenever one is an offence. It is the first offence unless an empty
text stands in front of a place that holds no text. -/
theorem offences_blamed (rules : NamingRules) :
    (∀ items step reason, (Places.ofItems 0 items).blamed? = some (step, reason) → ∀ y,
      ofValue rules (Kind.alterDatabase.body (.array items) y) =
        .error (.violation ⟨[.key "removals", step], reason⟩)) ∧
    (∀ database object step reason,
      (Places.ofNames database object).blamed? = some (step, reason) → ∀ y,
        ofValue rules (Kind.renameTable.body
          (.object [("database_name", database), ("object_name", object)]) y) =
            .error (.violation ⟨[.key "source", step], reason⟩)) ∧
    (∀ (source : Identifier) database object step reason,
      (Places.ofNames database object).blamed? = some (step, reason) →
        ofValue rules (Kind.renameTable.body source.encode
          (.object [("database_name", database), ("object_name", object)])) =
            .error (.violation ⟨[.key "destination", step], reason⟩)) ∧
    ∀ places : Places, places.blamed?.isSome = places.firstOffence?.isSome ∧
      ((∀ before e after, places = before ++ e :: after → e.2.text? = none →
        ∀ d ∈ before, d.2.text? ≠ some "") →
          places.blamed?.map Prod.fst = places.firstOffence?) := by
  refine ⟨fun items step reason h y => ?_, fun database object step reason h y => ?_,
    fun source database object step reason h => ?_, fun places => ?_⟩
  · exact ofValue_of_firstFault (firstFault_removals h) y
  · exact ofValue_of_firstFault (firstFault_names h) y
  · exact ofValue_of_destination source h
  · exact ⟨places.isSome_blamed?, Places.blamed?_eq_firstOffence?⟩

/-- The first offence is not blamed when it is an empty text and a place behind it holds no text:
neither among removals nor among the names of a table. -/
theorem first_offence_not_blamed :
    (¬∀ items step, (Places.ofItems 0 items).firstOffence? = some step → ∀ y, ∃ reason,
      ofValue {} (Kind.alterDatabase.body (.array items) y) =
        .error (.violation ⟨[.key "removals", step], reason⟩)) ∧
    ¬∀ database object, database.text?.all (· = "") = true → ∀ y, ∃ reason,
      ofValue {} (Kind.renameTable.body
        (.object [("database_name", database), ("object_name", object)]) y) =
          .error (.violation ⟨[.key "source", .key "database_name"], reason⟩) := by
  refine ⟨fun h => ?_, fun h => ?_⟩
  · obtain ⟨reason, hfirst⟩ := h [.string "", .null] (.index 0) rfl (.object [])
    have hblamed : ofValue {} (Kind.alterDatabase.body (.array [.string "", .null]) (.object [])) =
        .error (.violation ⟨[.key "removals", .index 1], .wrongShape .string .null⟩) :=
      ofValue_of_firstFault (firstFault_removals rfl) _
    rw [hblamed] at hfirst
    cases hfirst
  · obtain ⟨reason, hfirst⟩ := h (.string "") .null rfl (.object [])
    have hblamed : ofValue {} (Kind.renameTable.body
        (.object [("database_name", .string ""), ("object_name", .null)]) (.object [])) =
          .error (.violation ⟨[.key "source", .key "object_name"], .wrongShape .string .null⟩) :=
      ofValue_of_firstFault (firstFault_names rfl) _
    rw [hblamed] at hfirst
    simp at hfirst

end Request
end Catalog
