import Catalog.Proofs.PrintedForms
import Catalog.Proofs.RepeatedKeys
import Catalog.Proofs.Sources

/-! The text of a request is read back as that request: with its fields in either order, from its
characters or its bytes, by the readers of bodies of any kind and of its own kind, and as an item of
a list. -/

namespace Catalog

namespace Json

theorem readable_ofTexts (m : KeyMap String) : (ofTexts m).Readable 1 := by
  apply readable_object
  intro e he
  obtain ⟨e, -, rfl⟩ := List.mem_map.mp he
  exact readable_string e.2

theorem readable_texts (l : List String) : (array (l.map string)).Readable 1 := by
  apply readable_array
  intro v hv
  obtain ⟨s, -, rfl⟩ := List.mem_map.mp hv
  exact ⟨fronted_string s, readable_string s⟩

theorem readable_pair {a b : String} {x y : Json} {depth : Nat} (hx : x.Readable depth)
    (hy : y.Readable depth) : (object [(a, x), (b, y)]).Readable (depth + 1) := by
  apply readable_object
  simpa using ⟨hx, hy⟩

end Json

namespace Identifier

theorem readable_encode (id : Identifier) : id.encode.Readable 1 :=
  Json.readable_pair (Json.readable_string _) (Json.readable_string _)

theorem reads_form (id : Identifier) : form.Reads id.encode id 1 := by
  have hnew : new id.database id.object = .ok id := new_eq_ok.mpr ⟨rfl, rfl⟩
  apply (Form.reads_pair (by decide) (Form.reads_text _) (Form.reads_text _)).refine
  simp [hnew]

end Identifier

theorem CreateDatabase.reads_form (c : CreateDatabase) : form.Reads c.encode c 2 := by
  have hnew : new {} c.name c.properties = .ok c :=
    new_eq_ok.mpr ⟨rfl, rfl, NamingRules.breach_default_eq_none.mpr c.name_ne⟩
  apply (Form.reads_pair (by decide) ((Form.reads_text _).mono (Nat.zero_le 1))
    (Form.reads_textMap _)).refine
  simp [hnew]

theorem AlterDatabase.reads_form (a : AlterDatabase) : form.Reads a.encode a 2 := by
  have hnew : new a.removals a.updates = .ok a := new_eq_ok.mpr ⟨rfl, rfl⟩
  have htexts : (Form.list .text).Reads (.array (a.removals.map .string)) a.removals 1 :=
    Form.reads_list fun s _ => ⟨Json.fronted_string s, Form.reads_text s⟩
  apply (Form.reads_pair (by decide) htexts (Form.reads_textMap _)).refine
  simp [hnew]

theorem RenameTable.reads_form (t : RenameTable) : form.Reads t.encode t 2 := by
  have hnew : new t.source t.destination = .ok t := new_eq_ok.mpr ⟨rfl, rfl⟩
  apply (Form.reads_pair (by decide) t.source.reads_form t.destination.reads_form).refine
  simp [hnew]

namespace Request

theorem fronted_encode (r : Request) : r.encode.Fronted := by
  cases r <;> exact Json.fronted_object _

/-- Bodies are nested twice: an object of lists, maps or identifiers. -/
theorem readable_encode (r : Request) : r.encode.Readable 2 := by
  cases r with
  | create c =>
    exact Json.readable_pair ((Json.readable_string _).mono (Nat.zero_le 1))
      (Json.readable_ofTexts _)
  | alter a => exact Json.readable_pair (Json.readable_texts _) (Json.readable_ofTexts _)
  | rename t => exact Json.readable_pair t.source.readable_encode t.destination.readable_encode

/-- Only the fields of a renaming change their order. -/
theorem readable_body (r : Request) : r.body.Readable 2 := by
  cases r with
  | create c =>
    rw [body, encode, CreateDatabase.collapse_encode]
    exact readable_encode (.create c)
  | alter a =>
    rw [body, encode, AlterDatabase.collapse_encode]
    exact readable_encode (.alter a)
  | rename t =>
    rw [body, encode, RenameTable.collapse_encode]
    exact Json.readable_pair t.destination.readable_encode t.source.readable_encode

theorem not_repeatsKey_encode (r : Request) : ¬r.encode.RepeatsKey := by
  cases r with
  | create c =>
    rw [encode, ← CreateDatabase.collapse_encode]
    exact Json.not_repeatsKey_collapse _
  | alter a =>
    rw [encode, ← AlterDatabase.collapse_encode]
    exact Json.not_repeatsKey_collapse _
  | rename t =>
    -- The fields of a renaming are not declared in increasing order, so it is not its own value.
    rw [encode, RenameTable.encode, Json.repeatsKey_object]
    rintro (h | ⟨e, he, hr⟩)
    · exact h (by simp [Entries.keys])
    · have he' : e.2 = t.source.encode ∨ e.2 = t.destination.encode := by
        simp only [List.mem_cons, List.not_mem_nil, or_false] at he
        exact he.imp (congrArg Prod.snd) (congrArg Prod.snd)
      rcases he' with he' | he' <;> rw [he', ← Identifier.collapse_encode] at hr <;>
        exact Json.not_repeatsKey_collapse _ hr

/-- A tree that is written without repeats and stands for the body of a request is read as that
request, under all rules that allow it. -/
theorem ofScanned_of_allowed {rules : NamingRules} {t : Json} {r : Request} (ha : r.Allowed rules)
    (hv : t.collapse = r.body) (hn : ¬t.RepeatsKey) : ofScanned rules (.ofTree t) = .ok r := by
  rw [Json.ofTree_eq_ofValue hn]
  exact ofValue_of_body hv ha

theorem ofSource_of_allowed {rules : NamingRules} {t : Json} {r : Request} (ha : r.Allowed rules)
    (hv : t.collapse = r.body) (hn : ¬t.RepeatsKey) (hr : t.Readable 2) :
    ofSource rules (.ofText t.compact) = .ok r := by
  have hread : Json.parseTree (.ofText t.compact) = .ok t := by
    rw [Json.ofText_compact]
    exact Json.parseTree_units hr (by decide)
  rw [ofSource_eq_ofScanned hread]
  exact ofScanned_of_allowed ha hv hn

theorem ofScanned_of_body {t : Json} {r : Request} (hv : t.collapse = r.body)
    (hn : ¬t.RepeatsKey) : ofScanned {} (.ofTree t) = .ok r :=
  ofScanned_of_allowed (allowed_default r) hv hn

theorem ofSource_of_body {t : Json} {r : Request} (hv : t.collapse = r.body) (hn : ¬t.RepeatsKey)
    (hr : t.Readable 2) : ofSource {} (.ofText t.compact) = .ok r :=
  ofSource_of_allowed (allowed_default r) hv hn hr

/-- The text of a body has the fields in increasing order. -/
theorem ofSource_body {rules : NamingRules} {r : Request} (ha : r.Allowed rules) :
    ofSource rules (.ofText r.body.compact) = .ok r :=
  ofSource_of_allowed ha (Json.collapse_collapse _) (Json.not_repeatsKey_collapse _)
    r.readable_body

theorem reads_form (r : Request) : form.Reads r.encode r 2 := by
  intro limit rest hd
  simp only [form, r.readable_encode limit rest hd, ofScanned_of_body rfl r.not_repeatsKey_encode]

/-- Whichever of its texts is read by whichever reader, a request comes back from it. -/
theorem text_round_trip (r : Request) :
    ofSource {} (.ofText r.text) = .ok r ∧ ofSource {} (.ofBytes r.text.toUTF8) = .ok r ∧
      ofSource {} (.ofText r.body.compact) = .ok r ∧ form.parse (.ofText r.text) = .ok r ∧
      (match r with
        | .create c => CreateDatabase.form.parse (.ofText r.text) = .ok c
        | .alter a => AlterDatabase.form.parse (.ofText r.text) = .ok a
        | .rename t => RenameTable.form.parse (.ofText r.text) = .ok t) ∧
      ∀ rs : List Request, (Form.list form).parse
        (.ofText (Json.array (rs.map encode)).compact) = .ok rs := by
  have htext : ofSource {} (.ofText r.text) = .ok r :=
    ofSource_of_body rfl r.not_repeatsKey_encode r.readable_encode
  refine ⟨htext, ?_, ?_, r.reads_form.parse_eq_ok (by decide), ?_, ?_⟩
  · rw [Json.Source.ofBytes_toUTF8]
    exact htext
  · -- The text of the body has the fields in increasing order.
    exact ofSource_of_body (Json.collapse_collapse _) (Json.not_repeatsKey_collapse _)
      r.readable_body
  · cases r with
    | create c => exact c.reads_form.parse_eq_ok (by decide)
    | alter a => exact a.reads_form.parse_eq_ok (by decide)
    | rename t => exact t.reads_form.parse_eq_ok (by decide)
  · -- The array around the bodies is one more level of nesting.
    intro rs
    have hlist : (Form.list form).Reads (.array (rs.map encode)) rs 3 :=
      Form.reads_list fun r _ => ⟨r.fronted_encode, r.reads_form⟩
    exact hlist.parse_eq_ok (by decide)

end Request
end Catalog
