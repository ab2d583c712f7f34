import Catalog.Proofs.BuiltinDocuments
import Catalog.Proofs.FirstField

/-! The three ways to have a body checked: as bytes, as a value, as a request. Bytes are measured
before anything else, and read only for a kind with a contract; the value that they are read as gets
the verdict, and the bytes of a request are read as the value that is checked for the request. -/

namespace Catalog.Registry
variable {g : Registry} {k : Kind} {bytes : ByteArray}

/-- The bytes are short enough to be read. -/
def Fitting (g : Registry) (bytes : ByteArray) : Prop :=
  bytes.size ≤ g.config.maxBodySize

theorem validate_of_not_fitting (h : ¬g.Fitting bytes) :
    g.validate k bytes = .error (.tooLarge k bytes.size g.config.maxBodySize) := by
  rw [validate, if_pos (Nat.lt_of_not_le h)]

theorem hasSchema_eq_false : g.hasSchema k = false ↔ g.contracts k = none := by
  rw [hasSchema, Option.isSome_eq_false_iff, Option.isNone_iff_eq_none]

/-- Without a contract neither bytes nor values are looked at. -/
theorem validate_of_no_schema (hfit : g.Fitting bytes) (hk : g.hasSchema k = false) (v : Json) :
    g.validate k bytes = g.validateValue k v := by
  rw [hasSchema_eq_false] at hk
  rw [validate, if_neg (Nat.not_lt_of_le hfit), validateValue, hk]

/-- Bytes that can be read are judged as their value, with or without a contract. -/
theorem validate_of_parse (hfit : g.Fitting bytes) {v : Json}
    (h : Json.parse (.ofBytes bytes) = .ok v) : g.validate k bytes = g.validateValue k v := by
  simp only [validate, if_neg (Nat.not_lt_of_le hfit), h, validateValue]

theorem validate_of_text (hfit : g.Fitting bytes) {t : Json} (ht : Json.IsText t (.ofBytes bytes)) :
    g.validate k bytes = g.validateValue k t.collapse := by
  apply validate_of_parse hfit
  rw [Json.parse, Json.parseTree_eq_ok.mpr ht]
  rfl

theorem validate_of_no_text (hfit : g.Fitting bytes) (hk : g.hasSchema k = true)
    (hnone : ¬∃ t, Json.IsText t (.ofBytes bytes)) :
    ∃ e, g.validate k bytes = .error (.unread e) := by
  obtain ⟨c, hc⟩ := Option.isSome_iff_exists.mp hk
  cases hread : Json.parseTree (.ofBytes bytes) with
  | ok t => exact absurd ⟨t, Json.parseTree_eq_ok.mp hread⟩ hnone
  | error e =>
    refine ⟨e, ?_⟩
    simp only [validate, if_neg (Nat.not_lt_of_le hfit), hc, Json.parse, hread, Except.map]

/-- What is wrong with a value is never its size or its text. -/
theorem validateValue_cases (g : Registry) (k : Kind) (v : Json) :
    g.validateValue k v = .ok () ∨ g.validateValue k v = .error (.noContract k) ∨
      ∃ first others, g.validateValue k v = .error (.invalid k first others) := by
  cases hc : g.contracts k with
  | some c =>
    simp only [validateValue, hc, checkContract]
    cases c.issues v with
    | nil => exact Or.inl rfl
    | cons first others => exact Or.inr (Or.inr ⟨first, others, rfl⟩)
  | none =>
    simp only [validateValue, hc, withoutContract]
    split
    · exact Or.inr (Or.inl rfl)
    · exact Or.inl rfl

theorem validateValue_ne_tooLarge (k k' : Kind) (v : Json) (size max : Nat) :
    g.validateValue k v ≠ .error (.tooLarge k' size max) := by
  rcases g.validateValue_cases k v with h | h | ⟨first, others, h⟩ <;> simp [h]

theorem validateValue_ne_unread (k : Kind) (v : Json) (e : Json.ReadError) :
    g.validateValue k v ≠ .error (.unread e) := by
  rcases g.validateValue_cases k v with h | h | ⟨first, others, h⟩ <;> simp [h]

/-- Bytes that fit are refused for what they are read as, or because they cannot be read. -/
theorem validate_cases (hfit : g.Fitting bytes) (k : Kind) :
    (∃ v, g.validate k bytes = g.validateValue k v) ∨
      ∃ e, g.validate k bytes = .error (.unread e) := by
  cases hk : g.hasSchema k with
  | false => exact Or.inl ⟨.null, validate_of_no_schema hfit hk .null⟩
  | true =>
    by_cases htext : ∃ t, Json.IsText t (.ofBytes bytes)
    · obtain ⟨t, ht⟩ := htext
      exact Or.inl ⟨t.collapse, validate_of_text hfit ht⟩
    · exact Or.inr (validate_of_no_text hfit hk htext)

theorem validate_eq_tooLarge_iff {k' : Kind} {size max : Nat} :
    g.validate k bytes = .error (.tooLarge k' size max) ↔
      ¬g.Fitting bytes ∧ k' = k ∧ size = bytes.size ∧ max = g.config.maxBodySize := by
  by_cases hfit : g.Fitting bytes
  · have hne : g.validate k bytes ≠ .error (.tooLarge k' size max) := by
      rcases validate_cases hfit k with ⟨v, hv⟩ | ⟨e, he⟩
      · rw [hv]
        exact validateValue_ne_tooLarge k k' v size max
      · simp [he]
    exact iff_of_false hne fun h => h.1 hfit
  · rw [validate_of_not_fitting hfit]
    simp only [Except.error.injEq, SchemaError.tooLarge.injEq, hfit, not_false_iff, true_and,
      eq_comm]

theorem validate_unread_iff (hfit : g.Fitting bytes) (hk : g.hasSchema k = true) :
    (∃ e, g.validate k bytes = .error (.unread e)) ↔ ¬∃ t, Json.IsText t (.ofBytes bytes) := by
  constructor
  · rintro ⟨e, he⟩ ⟨t, ht⟩
    rw [validate_of_text hfit ht] at he
    exact validateValue_ne_unread k t.collapse e he
  · exact validate_of_no_text hfit hk

/-- The bytes of a request stand for the value that is checked for the request. -/
theorem validate_text_eq_validateRequest {r : Request} (hfit : g.Fitting r.text.toUTF8) :
    g.validate r.kind r.text.toUTF8 = g.validateRequest r := by
  have htext : Json.IsText r.encode (.ofBytes r.text.toUTF8) := by
    rw [Json.Source.ofBytes_toUTF8]
    exact r.isText_text
  calc g.validate r.kind r.text.toUTF8 = g.validateValue r.kind r.encode.collapse :=
      validate_of_text hfit htext
    _ = g.validateRequest r := rfl

/-- Bytes are refused for their size exactly when there are more of them than the registry allows,
whatever the kind and whatever they are. Of the others, for a kind without a schema nothing is looked
at, and the verdict is that on any value; for a kind with a schema they are refused as unreadable
exactly when they are no JSON text, and otherwise the verdict is that on the value of the text. On a
request the verdict is that on the bytes of its encoding, if these are not too many. -/
theorem entries_agree (g : Registry) (k : Kind) (bytes : ByteArray) :
    (∀ k' size max, g.validate k bytes = .error (.tooLarge k' size max) ↔
      g.config.maxBodySize < bytes.size ∧ k' = k ∧ size = bytes.size ∧
        max = g.config.maxBodySize) ∧
    (bytes.size ≤ g.config.maxBodySize →
      (g.hasSchema k = false → ∀ v, g.validate k bytes = g.validateValue k v) ∧
      (g.hasSchema k = true →
        ((∃ e, g.validate k bytes = .error (.unread e)) ↔
          ¬∃ t, Json.IsText t (.ofBytes bytes)) ∧
        ∀ t, Json.IsText t (.ofBytes bytes) →
          g.validate k bytes = g.validateValue k t.collapse)) ∧
    ∀ r : Request, r.text.toUTF8.size ≤ g.config.maxBodySize →
      g.validateRequest r = g.validate r.kind r.text.toUTF8 := by
  refine ⟨fun k' size max => ?_, fun hfit => ⟨fun hk v => ?_, fun hk => ⟨?_, fun t ht => ?_⟩⟩,
    fun r hfit => ?_⟩
  · rw [validate_eq_tooLarge_iff, Fitting, Nat.not_le]
  · exact validate_of_no_schema hfit hk v
  · exact validate_unread_iff hfit hk
  · exact validate_of_text hfit ht
  · exact (validate_text_eq_validateRequest hfit).symm

/-- A renaming, whose fields are encoded in another order than they have as a value, with names that
are escaped in its text. -/
def quotedNames : Request :=
  .rename ⟨⟨"a\"b", "ü\n", by decide⟩, ⟨"a\"b", "\\", by decide⟩, by decide⟩

/-- The renaming is checked alike by all entries of the built-in registry, and one without schemas
does not look at what it is given. -/
theorem entries_agree_quotedNames :
    ∃ g, builtin {} = .ok g ∧ quotedNames.text.toUTF8.size ≤ g.config.maxBodySize ∧
      g.hasSchema .renameTable = true ∧
      Json.IsText quotedNames.encode (.ofBytes quotedNames.text.toUTF8) ∧
      g.validate .renameTable quotedNames.text.toUTF8 =
        g.validateValue .renameTable quotedNames.encode.collapse ∧
      g.validateRequest quotedNames = g.validate .renameTable quotedNames.text.toUTF8 ∧
      (empty {}).hasSchema .renameTable = false ∧
      (empty {}).validate .renameTable quotedNames.text.toUTF8 =
        (empty {}).validateValue .renameTable .null := by
  have hsize : quotedNames.text.toUTF8.size ≤ 1024 * 1024 := by decide
  have htext : Json.IsText quotedNames.encode (.ofBytes quotedNames.text.toUTF8) := by
    rw [Json.Source.ofBytes_toUTF8]
    exact quotedNames.isText_text
  obtain ⟨-, hread, hrequest⟩ := entries_agree ⟨{}, fun k => some (Schema.builtinContract k)⟩
    .renameTable quotedNames.text.toUTF8
  obtain ⟨-, hunread, -⟩ := entries_agree (empty {}) .renameTable quotedNames.text.toUTF8
  exact ⟨_, builtin_eq_ok {}, hsize, rfl, htext, ((hread hsize).2 rfl).2 _ htext,
    hrequest quotedNames hsize, rfl, (hunread hsize).1 rfl .null⟩

end Catalog.Registry
