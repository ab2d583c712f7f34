import Catalog.Proofs.BuiltBodies
import Catalog.Proofs.BuiltinContracts

/-! The built-in contracts and the decoder describe the same bodies, up to the two rules that look at
both fields of a body together. -/

namespace Catalog

/-- The violation that a value of the shape of the kind shows only when its two fields are looked at
together: a removal that is also updated, or a destination that is the source. -/
inductive CrossField : Kind → Json → Violation → Prop where
  | alsoUpdated {removals : List String} {updates : KeyMap String} {i : Nat} {key : String}
    (hr : ∀ k ∈ removals, k ≠ "") (hu : updates.contains "" = false)
    (hi : removals[i]? = some key) (hk : updates.contains key = true) :
    CrossField .alterDatabase
      (.object [("removals", .array (removals.map .string)), ("updates", .ofTexts updates)])
      ⟨AlterDatabase.removalField i, .alsoUpdated key⟩
  | sameAsSource (id : Identifier) :
    CrossField .renameTable (.object [("destination", id.encode), ("source", id.encode)])
      ⟨.ofKey "destination", .sameAsSource id.text⟩

theorem CrossField.shaped {k : Kind} {v : Json} {x : Violation} (h : CrossField k v x) :
    k.Shaped v := by
  cases h with
  | alsoUpdated hr hu => exact .alterDatabase hr hu
  | sameAsSource id => exact .renameTable id id

namespace Kind

theorem Shaped.classify_eq_ok {k : Kind} {v : Json} (h : k.Shaped v) : classify v = .ok k := by
  cases h <;> exact Kind.classify_eq_ok.mpr ⟨_, rfl, by simp [Entries.keys, fields]⟩

/-- A value has the shape of one kind at most. -/
theorem Shaped.unique {k l : Kind} {v : Json} (hk : k.Shaped v) (hl : l.Shaped v) : k = l := by
  have h := hk.classify_eq_ok.symm.trans hl.classify_eq_ok
  injection h

end Kind

namespace Request

theorem shaped_body (r : Request) : r.kind.Shaped r.body := by
  cases r with
  | create c =>
    rw [body, encode, CreateDatabase.collapse_encode]
    exact .createDatabase c.name_ne c.keys_ne
  | alter a =>
    rw [body, encode, AlterDatabase.collapse_encode]
    exact .alterDatabase a.keys_ne.1 a.keys_ne.2
  | rename t =>
    rw [body, encode, RenameTable.collapse_encode]
    exact .renameTable t.source t.destination

/-- A value of the shape of a kind is a request of the kind unless its two fields are at odds. -/
theorem ofValue_of_shaped {v : Json} {k : Kind} (h : k.Shaped v.collapse) :
    (∃ r, ofValue {} v = .ok r ∧ r.kind = k) ∨
      ∃ x, ofValue {} v = .error (.violation x) ∧ CrossField k v.collapse x := by
  generalize hv : v.collapse = w at h
  cases h with
  | @createDatabase name properties hn hp =>
    let c : CreateDatabase := ⟨name, properties, hn, hp⟩
    have hbody : v.collapse = (Request.create c).body := by
      rw [hv, body, encode, CreateDatabase.collapse_encode]
      rfl
    exact Or.inl ⟨.create c, ofValue_of_body hbody (allowed_default _), rfl⟩
  | alterDatabase hr hu =>
    rw [ofValue_alterDatabase hv]
    rcases AlterDatabase.new_of_parts hr hu with ⟨a, ha⟩ | ⟨i, key, hi, hk, he⟩
    · exact Or.inl ⟨.alter a, by rw [ha]; rfl, rfl⟩
    · exact Or.inr ⟨_, by rw [he]; rfl, .alsoUpdated hr hu hi hk⟩
  | renameTable source destination =>
    rw [ofValue_renameTable hv, RenameTable.ofNames_of_identifiers]
    by_cases hne : source = destination
    · subst hne
      have hnew : RenameTable.new source source =
          .error ⟨.ofKey "destination", .sameAsSource source.text⟩ := dif_pos rfl
      exact Or.inr ⟨_, by rw [hnew]; rfl, .sameAsSource source⟩
    · have hnew : RenameTable.new source destination = .ok ⟨source, destination, hne⟩ :=
        RenameTable.new_eq_ok.mpr ⟨rfl, rfl⟩
      exact Or.inl ⟨.rename ⟨source, destination, hne⟩, by rw [hnew]; rfl, rfl⟩

end Request

namespace Registry

theorem checkContract_eq_ok {kind : Kind} {c : Contract} {body : Json} :
    checkContract kind c body = .ok () ↔ c.issues body = [] := by
  unfold checkContract
  cases c.issues body <;> simp

/-- With the built-in contracts, the values that are accepted for a kind are those of its shape. -/
theorem validateValue_builtin_eq_ok {config : RegistryConfig} {k : Kind} {v : Json} :
    validateValue ⟨config, fun k => some (Schema.builtinContract k)⟩ k v.collapse = .ok () ↔
      k.Shaped v.collapse := by
  simp only [validateValue, checkContract_eq_ok]
  exact Contract.issues_builtinContract_eq_nil (Json.collapse_collapse v)

/-- A value is accepted by the built-in contract of a kind exactly when it is classified as the kind
and is read as a request of the kind, or is no request for one reason only: a removal is also
updated, or a table is renamed to itself. A value that is read as a request is accepted for the kind
of the request alone, and so is every request. -/
theorem builtin_agrees_with_ofValue :
    ∃ g, builtin {} = .ok g ∧
      (∀ v k, g.validateValue k v.collapse = .ok () ↔
        Kind.classify v.collapse = .ok k ∧
          ((∃ r, Request.ofValue {} v = .ok r ∧ r.kind = k) ∨
            ∃ x, Request.ofValue {} v = .error (.violation x) ∧ CrossField k v.collapse x)) ∧
      (∀ v r, Request.ofValue {} v = .ok r →
        ∀ k, g.validateValue k v.collapse = .ok () ↔ k = r.kind) ∧
      ∀ r : Request, g.validateRequest r = .ok () := by
  refine ⟨_, builtin_eq_ok {}, ?_, ?_, ?_⟩
  · intro v k
    rw [validateValue_builtin_eq_ok]
    constructor
    · intro h
      exact ⟨h.classify_eq_ok, Request.ofValue_of_shaped h⟩
    · -- What is read is a body of its kind, and fields at odds are each right on their own.
      rintro ⟨-, ⟨r, hr, rfl⟩ | ⟨x, -, hx⟩⟩
      · rw [(Request.body_of_ofValue hr).1]
        exact r.shaped_body
      · exact hx.shaped
  · intro v r hr k
    rw [validateValue_builtin_eq_ok, (Request.body_of_ofValue hr).1]
    constructor
    · exact fun h => h.unique r.shaped_body
    · rintro rfl
      exact r.shaped_body
  · intro r
    exact validateValue_builtin_eq_ok.mpr r.shaped_body

end Registry
end Catalog
