import Catalog.Proofs.RegistryRuns
import Catalog.Registry.Directory

/-! The entries of a directory of schema files. A file is read to its end or refused, and what it
supplies to a registry hangs on its name, its bytes and the configuration only. -/

namespace Catalog

theorem Text.dropEnding?_eq_some {ending s t : String} :
    dropEnding? ending s = some t ↔ s = t ++ ending := by
  unfold dropEnding?
  constructor
  · intro h
    split at h
    · next hsuffix =>
      obtain ⟨front, hfront⟩ := List.isSuffixOf_iff_suffix.mp hsuffix
      cases h
      rw [← String.toList_inj, String.toList_append, String.toList_ofList, ← hfront]
      simp
    · cases h
  · rintro rfl
    simp

theorem Kind.ofName?_eq_some {s : String} {k : Kind} : ofName? s = some k ↔ s = k.name := by
  constructor
  · intro h
    have hname := List.find?_some h
    exact (of_decide_eq_true hname).symm
  · rintro rfl
    cases k <;> decide

theorem Kind.name_injective {k l : Kind} (h : k.name = l.name) : k = l := by
  have hk : ofName? l.name = some k := ofName?_eq_some.mpr h.symm
  exact Option.some.inj (hk.symm.trans (ofName?_eq_some.mpr rfl))

namespace Files

theorem decodeText_eq_ok {bytes : ByteArray} {text : String} :
    decodeText bytes = .ok text ↔ bytes = text.toUTF8 := by
  unfold decodeText String.fromUTF8?
  constructor
  · intro h
    split at h
    · next s hs =>
      split at hs
      · cases hs
        cases h
        rfl
      · cases hs
    · cases h
  · rintro rfl
    have hvalid : text.toUTF8.IsValidUTF8 := text.isValidUTF8
    rw [dif_pos hvalid]
    rfl

/-- Files of which only the entries of directories are known. -/
def listing (entries : List DirectoryEntry) : Files :=
  ⟨fun _ => .error .notFound, fun _ => .ok entries⟩

end Files

namespace SchemaFile

theorem stem?_eq_some {name stem : String} : stem? name = some stem ↔ name = stem ++ ending :=
  Text.dropEnding?_eq_some

/-- A file is read to its end or not at all. -/
theorem readLimited_eq_ok {path : String} {max : Nat} {bytes : ByteArray} {text : String} :
    readLimited path max bytes = .ok text ↔
      Files.decodeText bytes = .ok text ∧ bytes.size ≤ max := by
  have hsize (t : String) : t.utf8ByteSize = t.toUTF8.size := rfl
  unfold readLimited
  by_cases hle : bytes.size ≤ max
  · -- The byte that is to show too large a file is not there, so the front is the whole.
    have hwhole : bytes.extract 0 (max + 1) = bytes := by
      apply ByteArray.ext
      rw [ByteArray.data_extract, Array.extract_eq_self_of_le (Nat.le_succ_of_le hle)]
    rw [hwhole]
    cases hd : Files.decodeText bytes with
    | error e => simp
    | ok t =>
      have hfits : ¬max < t.utf8ByteSize := by
        rw [hsize, ← Files.decodeText_eq_ok.mp hd]
        exact Nat.not_lt.mpr hle
      simp [hfits, hle]
  · have hfront : (bytes.extract 0 (max + 1)).size = max + 1 := by
      rw [ByteArray.size_extract]
      omega
    refine iff_of_false (fun h => ?_) fun h => hle h.2
    split at h
    · cases h
    · next t hd =>
      have hlong : max < t.utf8ByteSize := by
        rw [hsize, ← Files.decodeText_eq_ok.mp hd, hfront]
        exact Nat.lt_succ_self max
      rw [if_pos hlong] at h
      cases h

end SchemaFile

namespace DirectoryEntry

/-- The entry is a schema file, of whatever kind. -/
def isSchemaFile (e : DirectoryEntry) : Bool :=
  match SchemaFile.stem? e.name, e.item with
  | some _, .file _ => true
  | _, _ => false

/-- The kind that a schema file is named after. -/
def kind? (e : DirectoryEntry) : Option Kind :=
  match SchemaFile.stem? e.name, e.item with
  | some stem, .file _ => Kind.ofName? stem
  | _, _ => none

/-- The entry is none that a directory is loaded for: it has another ending, or is neither a file nor
a link. -/
def PassedOver (e : DirectoryEntry) : Prop :=
  (∀ stem, e.name ≠ stem ++ SchemaFile.ending) ∨ e.item = .other

/-- The entry is a file that is named after the kind and not too large, and its whole content, as the
only schema of a registry, has the contract. -/
def Supplies (config : RegistryConfig) (e : DirectoryEntry) (k : Kind) (c : Contract) : Prop :=
  e.name = k.name ++ SchemaFile.ending ∧ ∃ bytes text alone, e.item = .file bytes ∧
    bytes.size ≤ config.maxSchemaFileSize ∧ Files.decodeText bytes = .ok text ∧
    (Registry.empty config).register k (.ofText text) = .ok alone ∧ alone.contracts k = some c

end DirectoryEntry

namespace Registry

theorem register_eq_ok {g h : Registry} {k : Kind} {s : Json.Source} :
    g.register k s = .ok h ↔
      ∃ v c, Json.parse s = .ok v ∧ contract? g.config v = some c ∧ h = g.put k c := by
  unfold register
  cases Json.parse s with
  | error e => simp
  | ok v => simp [registerValue_eq_ok]

/-- Whether a schema is registered hangs on the configuration only. -/
theorem register_alone {g : Registry} {k : Kind} {s : Json.Source} {c : Contract} :
    (∃ alone, (empty g.config).register k s = .ok alone ∧ alone.contracts k = some c) ↔
      g.register k s = .ok (g.put k c) := by
  have hput (f : Registry) (d : Contract) : (f.put k d).contracts k = some d := if_pos rfl
  constructor
  · rintro ⟨alone, halone, hc⟩
    obtain ⟨v, d, hv, hd, rfl⟩ := register_eq_ok.mp halone
    rw [hput, Option.some.injEq] at hc
    subst hc
    exact register_eq_ok.mpr ⟨v, d, hv, hd, rfl⟩
  · intro h
    obtain ⟨v, d, hv, hd, hsame⟩ := register_eq_ok.mp h
    have hcd : c = d := by
      have hcontracts := congrArg (fun r : Registry => r.contracts k) hsame
      simpa [hput] using hcontracts
    subst hcd
    exact ⟨(empty g.config).put k c, register_eq_ok.mpr ⟨v, c, hv, hd, rfl⟩, hput _ _⟩

end Registry

namespace DirectoryEntry
variable {e e' : DirectoryEntry} {config : RegistryConfig} {k : Kind} {c c' : Contract}

theorem Supplies.isSchemaFile (h : e.Supplies config k c) : e.isSchemaFile = true := by
  obtain ⟨hname, bytes, text, alone, hitem, -⟩ := h
  rw [DirectoryEntry.isSchemaFile, SchemaFile.stem?_eq_some.mpr hname, hitem]

theorem PassedOver.not_isSchemaFile (h : e.PassedOver) : e.isSchemaFile = false := by
  unfold DirectoryEntry.isSchemaFile
  rcases h with hname | hitem
  · cases hs : SchemaFile.stem? e.name with
    | none => rfl
    | some stem => exact absurd (SchemaFile.stem?_eq_some.mp hs) (hname stem)
  · rw [hitem]
    cases SchemaFile.stem? e.name <;> rfl

theorem PassedOver.not_supplies (h : e.PassedOver) : ¬e.Supplies config k c := by
  intro hs
  have hfile := hs.isSchemaFile
  rw [h.not_isSchemaFile] at hfile
  cases hfile

theorem kind?_eq_some :
    e.kind? = some k ↔ e.name = k.name ++ SchemaFile.ending ∧ ∃ bytes, e.item = .file bytes := by
  unfold kind?
  constructor
  · intro h
    split at h
    · next stem bytes hs hitem =>
      rw [← Kind.ofName?_eq_some.mp h]
      exact ⟨SchemaFile.stem?_eq_some.mp hs, bytes, hitem⟩
    · cases h
  · rintro ⟨hname, bytes, hitem⟩
    rw [SchemaFile.stem?_eq_some.mpr hname, hitem]
    exact Kind.ofName?_eq_some.mpr rfl

theorem Supplies.kind? (h : e.Supplies config k c) : e.kind? = some k := by
  obtain ⟨hname, bytes, _, _, hitem, -⟩ := h
  exact kind?_eq_some.mpr ⟨hname, bytes, hitem⟩

theorem PassedOver.kind?_ne_some (h : e.PassedOver) : e.kind? ≠ some k := by
  intro hk
  obtain ⟨hname, bytes, hitem⟩ := kind?_eq_some.mp hk
  rcases h with hnone | hother
  · exact hnone _ hname
  · cases hother.symm.trans hitem

/-- A file of one name supplies one contract. -/
theorem Supplies.unique (h : e.Supplies config k c) (h' : e.Supplies config k c') : c = c' := by
  obtain ⟨-, bytes, text, alone, hitem, -, htext, halone, hc⟩ := h
  obtain ⟨-, bytes', text', alone', hitem', -, htext', halone', hc'⟩ := h'
  cases hitem.symm.trans hitem'
  cases htext.symm.trans htext'
  cases halone.symm.trans halone'
  exact Option.some.inj (hc.symm.trans hc')

end DirectoryEntry

end Catalog
