import Catalog.Proofs.Construction
import Catalog.Proofs.CutTexts

/-! Qualified names and the identifiers that they are read as. A qualified name is cut at its first
point, so an identifier comes back from its own text exactly when its database has no point in its
name; otherwise the name of the database is cut short. -/

namespace Catalog.Identifier
variable {s database object : String} {id : Identifier}

/-- The text is a database name without a point and an object name, neither of them empty, with a
point between them. -/
structure Qualified (s database object : String) : Prop where
  written : s = database ++ "." ++ object
  plain : '.' ∉ database.toList
  database_ne : database ≠ ""
  object_ne : object ≠ ""

theorem written_iff : s = database ++ "." ++ object ↔
    s.toList = database.toList ++ '.' :: object.toList := by
  have hchars : (database ++ "." ++ object).toList = database.toList ++ '.' :: object.toList := by
    simp
  rw [← hchars, String.toList_inj]

/-- Of the two parts of a text that is cut an identifier is made. -/
theorem parse_of_split (hwritten : s = database ++ "." ++ object)
    (hplain : '.' ∉ database.toList) : parse s = new database object := by
  have hsplit : Text.splitFirst? '.' s = some (database, object) :=
    Text.splitFirst?_eq_some.mpr ⟨written_iff.mp hwritten, hplain⟩
  simp only [parse, hsplit]

theorem parse_eq_ok : parse s = .ok id ↔ Qualified s id.database id.object := by
  constructor
  · intro h
    unfold parse at h
    split at h
    · next database object hsplit =>
      obtain ⟨hwritten, hplain⟩ := Text.splitFirst?_eq_some.mp hsplit
      obtain ⟨rfl, rfl⟩ := new_eq_ok.mp h
      exact ⟨written_iff.mpr hwritten, hplain, id.names_ne.1, id.names_ne.2⟩
    · cases h
  · intro h
    rw [parse_of_split h.written h.plain]
    exact new_eq_ok.mpr ⟨rfl, rfl⟩

theorem text_of_parse (h : parse s = .ok id) : id.text = s :=
  (parse_eq_ok.mp h).written.symm

/-- An identifier is read from its own text unless its database has a point in its name. -/
theorem parse_text_iff : parse id.text = .ok id ↔ '.' ∉ id.database.toList := by
  rw [parse_eq_ok]
  constructor
  · intro h
    exact h.plain
  · intro hplain
    exact ⟨rfl, hplain, id.names_ne.1, id.names_ne.2⟩

/-- A database name with a point is cut at its first point. With nothing in front of the point there
is no identifier, and otherwise what is behind the point goes to the object. -/
theorem parse_text_of_dotted (h : '.' ∈ id.database.toList) :
    ∃ front rest, id.database = front ++ "." ++ rest ∧ '.' ∉ front.toList ∧
      parse id.text = new front (rest ++ "." ++ id.object) := by
  obtain ⟨front, rest, hsplit, hplain⟩ := List.eq_append_cons_of_mem h
  have hdatabase : id.database = String.ofList front ++ "." ++ String.ofList rest := by
    rw [written_iff, String.toList_ofList, String.toList_ofList]
    exact hsplit
  have hfront : '.' ∉ (String.ofList front).toList := by rwa [String.toList_ofList]
  refine ⟨String.ofList front, String.ofList rest, hdatabase, hfront, parse_of_split ?_ hfront⟩
  calc id.text = id.database ++ "." ++ id.object := rfl
    _ = String.ofList front ++ "." ++ String.ofList rest ++ "." ++ id.object := by rw [hdatabase]
    _ = String.ofList front ++ "." ++ (String.ofList rest ++ "." ++ id.object) := by
      simp only [String.append_assoc]

/-- The text of an identifier whose database has a point in its name is read as no identifier when the
point stands first, and otherwise as another one with the same text. -/
theorem misread_of_dotted (h : '.' ∈ id.database.toList) :
    (id.database.toList.head? = some '.' ∧
      parse id.text = .error ⟨.ofKey "database_name", .empty⟩) ∨
    (id.database.toList.head? ≠ some '.' ∧
      ∃ other, parse id.text = .ok other ∧ other ≠ id ∧ other.text = id.text) := by
  obtain ⟨front, rest, hdatabase, hplain, hparse⟩ := parse_text_of_dotted h
  have hchars := written_iff.mp hdatabase
  by_cases hfront : front = ""
  · left
    rw [hparse, hchars, hfront]
    exact ⟨rfl, rfl⟩
  · right
    have hhead : id.database.toList.head? ≠ some '.' := by
      obtain ⟨c, cs, hcons⟩ := List.exists_cons_of_ne_nil (mt String.toList_eq_nil_iff.mp hfront)
      rw [hchars, hcons, List.cons_append, List.head?_cons]
      intro hpoint
      apply hplain
      rw [hcons, Option.some.inj hpoint]
      exact List.mem_cons_self
    have hrest : rest ++ "." ++ id.object ≠ "" := by simp
    let other : Identifier := ⟨front, rest ++ "." ++ id.object, hfront, hrest⟩
    have hother : parse id.text = .ok other := hparse.trans (new_eq_ok.mpr ⟨rfl, rfl⟩)
    refine ⟨hhead, other, hother, ?_, text_of_parse hother⟩
    -- The database of the other one has no point in its name.
    intro he
    apply hplain
    rwa [← he] at h

/-- The texts that are read as identifiers are the qualified names. Each gives the identifier of the
two parts that it is written with, and is the text of that identifier. An identifier, made with any
names, is read from its own text exactly when its database has no point in its name; with a point in
it the text is read as no identifier, when the point stands first, or else as another one. -/
theorem parse_reads_qualified :
    (∀ s database object,
      (∃ id, parse s = .ok id ∧ id.database = database ∧ id.object = object) ↔
        Qualified s database object) ∧
    (∀ s id, parse s = .ok id → id.text = s) ∧
    ∀ id : Identifier, (parse id.text = .ok id ↔ '.' ∉ id.database.toList) ∧
      ('.' ∈ id.database.toList →
        (id.database.toList.head? = some '.' ∧
          parse id.text = .error ⟨.ofKey "database_name", .empty⟩) ∨
        (id.database.toList.head? ≠ some '.' ∧
          ∃ other, parse id.text = .ok other ∧ other ≠ id ∧ other.text = id.text)) := by
  refine ⟨fun s database object => ?_, fun s id h => text_of_parse h, fun id =>
    ⟨parse_text_iff, misread_of_dotted⟩⟩
  constructor
  · rintro ⟨id, hid, rfl, rfl⟩
    exact parse_eq_ok.mp hid
  · intro h
    let id : Identifier := ⟨database, object, h.database_ne, h.object_ne⟩
    have hid : parse s = .ok id := parse_eq_ok.mpr h
    exact ⟨id, hid, rfl, rfl⟩

/-- A table of a database with a point in its name. -/
def regional : Identifier :=
  ⟨"sales.eu", "orders.v2", by decide, by decide⟩

/-- The database is cut to `sales`. -/
theorem parse_reads_qualified_regional : '.' ∈ regional.database.toList ∧
    ∃ other, parse regional.text = .ok other ∧ other ≠ regional ∧ other.text = regional.text := by
  have hdotted : '.' ∈ regional.database.toList := by decide
  refine ⟨hdotted, ?_⟩
  rcases (parse_reads_qualified.2.2 regional).2 hdotted with ⟨hfirst, -⟩ | ⟨-, hother⟩
  · exact absurd hfirst (by decide)
  · exact hother

end Catalog.Identifier
