import Catalog.Proofs.CheckVerdict
import Catalog.Request.Forms

/-! The ways to a request. Whether its parts are given, its body is read as that of any kind, or a
text or value is read by a form of its type, a request comes about only when what it is made of is
valid, and it does come about then. -/

namespace Catalog

/-- What a request is made of, before anything of it is checked. -/
inductive Request.Parts where
  | create (name : String) (properties : KeyMap String)
  | alter (removals : List String) (updates : KeyMap String)
  | rename (sourceDatabase sourceObject destinationDatabase destinationObject : String)

/-- What is demanded of the parts of a request. -/
def Request.Parts.Valid (rules : NamingRules) : Parts → Prop
  | .create name properties => rules.Allows name ∧ ∀ e ∈ properties.entries, e.1 ≠ ""
  | .alter removals updates => (∀ k ∈ removals, k ≠ "") ∧ (∀ e ∈ updates.entries, e.1 ≠ "") ∧
      ∀ k ∈ removals, ∀ e ∈ updates.entries, e.1 ≠ k
  | .rename sourceDatabase sourceObject destinationDatabase destinationObject =>
    sourceDatabase ≠ "" ∧ sourceObject ≠ "" ∧ destinationDatabase ≠ "" ∧ destinationObject ≠ "" ∧
      (sourceDatabase, sourceObject) ≠ (destinationDatabase, destinationObject)

/-- The parts of a request as they can be looked up in it. -/
def Request.parts : Request → Parts
  | .create r => .create r.name r.properties
  | .alter r => .alter r.removals r.updates
  | .rename r =>
    .rename r.source.database r.source.object r.destination.database r.destination.object

/-- The form reads the value from a text or takes it from a value, alone or as one of a list. -/
inductive Form.Gives {α : Type} (f : Form α) (a : α) : Prop
  | text {s : Json.Source} (h : f.parse s = .ok a)
  | value {v : Json} (h : f.fromValue v = .ok a)
  | textItem {s : Json.Source} {as : List α} (h : f.list.parse s = .ok as) (ha : a ∈ as)
  | valueItem {v : Json} {as : List α} (h : f.list.fromValue v = .ok as) (ha : a ∈ as)

/-- The ways to an identifier. -/
inductive Identifier.Made (id : Identifier) : Prop
  | names {database object : String} (h : Identifier.new database object = .ok id)
  | qualified {text : String} (h : Identifier.parse text = .ok id)
  | form (h : Identifier.form.Gives id)

namespace Request

/-- The ways to a request under the naming rules in force; forms know no rules of their own. -/
inductive Made : NamingRules → Request → Prop
  | create {rules : NamingRules} {name : String} {properties : KeyMap String} {r : CreateDatabase}
      (h : CreateDatabase.new rules name properties = .ok r) : Made rules (.create r)
  | alter {rules : NamingRules} {removals : List String} {updates : KeyMap String}
      {r : AlterDatabase} (h : AlterDatabase.new removals updates = .ok r) : Made rules (.alter r)
  | rename {rules : NamingRules} {source destination : Identifier} {r : RenameTable}
      (hs : source.Made) (hd : destination.Made) (h : RenameTable.new source destination = .ok r) :
      Made rules (.rename r)
  | value {rules : NamingRules} {v : Json} {r : Request} (h : ofValue rules v = .ok r) :
      Made rules r
  | source {rules : NamingRules} {s : Json.Source} {r : Request} (h : ofSource rules s = .ok r) :
      Made rules r
  | form {r : Request} (h : form.Gives r) : Made {} r
  | createForm {r : CreateDatabase} (h : CreateDatabase.form.Gives r) : Made {} (.create r)
  | alterForm {r : AlterDatabase} (h : AlterDatabase.form.Gives r) : Made {} (.alter r)
  | renameForm {r : RenameTable} (h : RenameTable.form.Gives r) : Made {} (.rename r)

/-- The parts of a request are valid under all rules that allow it. -/
theorem valid_parts_iff {rules : NamingRules} {r : Request} :
    r.parts.Valid rules ↔ r.Allowed rules := by
  cases r with
  | create c =>
    have hkeys : ∀ e ∈ c.properties.entries, e.1 ≠ "" :=
      KeyMap.contains_eq_false_iff.mp c.keys_ne
    constructor
    · rintro ⟨hname, -⟩ d hd
      cases hd
      exact NamingRules.check_eq_ok.mpr (NamingRules.breach_eq_none.mpr hname)
    · intro h
      exact ⟨NamingRules.breach_eq_none.mp (NamingRules.check_eq_ok.mp (h c rfl)), hkeys⟩
  | alter a =>
    have hkeys : ∀ e ∈ a.updates.entries, e.1 ≠ "" :=
      KeyMap.contains_eq_false_iff.mp a.keys_ne.2
    have hboth : ∀ k ∈ a.removals, ∀ e ∈ a.updates.entries, e.1 ≠ k := fun k hk =>
      KeyMap.contains_eq_false_iff.mp (a.disjoint k hk)
    exact ⟨fun _ c hc => (nomatch hc), fun _ => ⟨a.keys_ne.1, hkeys, hboth⟩⟩
  | rename t =>
    have hpair : (t.source.database, t.source.object) ≠
        (t.destination.database, t.destination.object) := fun h =>
      t.source_ne (by
        rcases hs : t.source with ⟨sd, so, hsn⟩
        rcases ht : t.destination with ⟨dd, dob, hdn⟩
        rw [hs, ht] at h
        cases h
        rfl)
    exact ⟨fun _ c hc => (nomatch hc), fun _ => ⟨t.source.names_ne.1, t.source.names_ne.2,
      t.destination.names_ne.1, t.destination.names_ne.2, hpair⟩⟩

theorem allowed_of_made {rules : NamingRules} {r : Request} (h : Made rules r) :
    r.Allowed rules := by
  cases h with
  | create h =>
    obtain ⟨rfl, -, hname⟩ := CreateDatabase.new_eq_ok.mp h
    intro c hc
    cases hc
    exact NamingRules.check_eq_ok.mpr hname
  | alter h => exact fun c hc => (nomatch hc)
  | rename hs hd h => exact fun c hc => (nomatch hc)
  | value h => exact (body_of_ofValue h).2
  | source h => exact (parse_of_ofSource h).2
  | form h => exact allowed_default r
  | createForm h => exact allowed_default _
  | alterForm h => exact allowed_default _
  | renameForm h => exact allowed_default _

end Request

/-- Valid parts make up a request. -/
theorem Request.exists_of_valid {rules : NamingRules} {p : Parts} (h : p.Valid rules) :
    ∃ r : Request, r.parts = p := by
  cases p with
  | create name properties =>
    exact ⟨.create ⟨name, properties, h.1.ne, KeyMap.contains_eq_false_iff.mpr h.2⟩, rfl⟩
  | alter removals updates =>
    obtain ⟨hremovals, hkeys, hboth⟩ := h
    exact ⟨.alter ⟨removals, updates, ⟨hremovals, KeyMap.contains_eq_false_iff.mpr hkeys⟩,
      fun k hk => KeyMap.contains_eq_false_iff.mpr (hboth k hk)⟩, rfl⟩
  | rename sourceDatabase sourceObject destinationDatabase destinationObject =>
    obtain ⟨hsd, hso, hdd, hdo, hpair⟩ := h
    have hne : (⟨sourceDatabase, sourceObject, hsd, hso⟩ : Identifier) ≠
        ⟨destinationDatabase, destinationObject, hdd, hdo⟩ := fun he => hpair (by
      cases he
      rfl)
    exact ⟨.rename ⟨_, _, hne⟩, rfl⟩

/-- What the requests are made of that come about in any way is what is valid under the rules in
force. -/
theorem Request.made_iff_valid (rules : NamingRules) (p : Parts) :
    (∃ r, Made rules r ∧ r.parts = p) ↔ p.Valid rules := by
  constructor
  · rintro ⟨r, hr, rfl⟩
    exact valid_parts_iff.mpr (allowed_of_made hr)
  · intro hp
    -- Of the ways to the request, the one through its own body is open under all rules.
    obtain ⟨r, rfl⟩ := exists_of_valid hp
    have hbody : ofValue rules r.body = .ok r :=
      ofValue_of_body (Json.collapse_collapse _) (valid_parts_iff.mp hp)
    exact ⟨r, .value hbody, rfl⟩

example : RenameTable.form.parse (.ofText "[[\"a\",\"b\"],[\"a\",\"c\"]]") =
    .ok ⟨⟨"a", "b", by decide⟩, ⟨"a", "c", by decide⟩, by decide⟩ := by cbv

namespace Request

/-- The body whose fields hold the parts, as a value: with its fields in increasing order. -/
def Parts.body : Parts → Json
  | .create name properties =>
    .object [("name", .string name), ("properties", .ofTexts properties)]
  | .alter removals updates =>
    .object [("removals", .array (removals.map .string)), ("updates", .ofTexts updates)]
  | .rename sourceDatabase sourceObject destinationDatabase destinationObject =>
    .object [
      ("destination", .object [("database_name", .string destinationDatabase),
        ("object_name", .string destinationObject)]),
      ("source", .object [("database_name", .string sourceDatabase),
        ("object_name", .string sourceObject)])]

/-- The constructors applied to the parts. -/
def Parts.build (rules : NamingRules) : Parts → Except Violation Request
  | .create name properties => (CreateDatabase.new rules name properties).map .create
  | .alter removals updates => (AlterDatabase.new removals updates).map .alter
  | .rename sourceDatabase sourceObject destinationDatabase destinationObject =>
    (RenameTable.ofNames sourceDatabase sourceObject destinationDatabase destinationObject).map
      .rename

theorem Parts.collapse_body (p : Parts) : p.body.collapse = p.body := by
  cases p with
  | create name properties =>
    have hfields : "name" < "properties" := by decide
    simp only [body, Json.collapse_pair hfields, Json.collapse_string, Json.collapse_ofTexts]
  | alter removals updates =>
    have hfields : "removals" < "updates" := by decide
    simp [body, Json.collapse_pair hfields, Json.collapse_ofTexts]
  | rename sourceDatabase sourceObject destinationDatabase destinationObject =>
    have hfields : "destination" < "source" := by decide
    have hnames : "database_name" < "object_name" := by decide
    simp only [body, Json.collapse_pair hfields, Json.collapse_pair hnames, Json.collapse_string]

/-- To decode the body that holds some parts is to build a request from them: it gives the same
request or the same violation. What is wrong with the names of a table is blamed inside the field of
the table, so the name of the field is written in front. -/
theorem ofValue_body_eq_build (rules : NamingRules) (p : Parts) :
    ofValue rules p.body = (p.build rules).mapError .violation ∧
      ∀ database object v, Identifier.new database object = .error v →
        (v.inside "source").field.text = "source." ++ v.field.text ∧
          (v.inside "destination").field.text = "destination." ++ v.field.text := by
  refine ⟨?_, fun database object v hv => ⟨?_, ?_⟩⟩
  · have hbody := p.collapse_body
    cases p with
    | create name properties => exact ofValue_createDatabase hbody
    | alter removals updates => exact ofValue_alterDatabase hbody
    | rename sourceDatabase sourceObject destinationDatabase destinationObject =>
      exact ofValue_renameTable hbody
  · exact Identifier.text_inside hv (by decide)
  · exact Identifier.text_inside hv (by decide)

end Request
end Catalog
