import Catalog.Proofs.SchemaFiles

/-! The limit on the size of schema files. A file is cut one byte behind the limit before it is read
as a text, so one that is too long is told to be so only when no character lies across the cut. -/

namespace Catalog

/-- In a directory with room for it, a file that is named after a kind is read and then registered. -/
theorem Loading.step_of_file {path : String} {l : Loading} {e : DirectoryEntry} {k : Kind}
    {bytes : ByteArray} (hname : e.name = k.name ++ SchemaFile.ending) (hitem : e.item = .file bytes)
    (hroom : l.loaded.length < l.registry.config.maxSchemasFromDirectory) :
    l.step path e = do
      let text ← (SchemaFile.readLimited (SchemaFile.pathIn path e.name)
        l.registry.config.maxSchemaFileSize bytes).mapError .load
      let r ← l.registry.register k (.ofText text)
      return ⟨r, l.loaded ++ [(k, SchemaFile.pathIn path e.name)]⟩ := by
  have hcount : ¬l.registry.config.maxSchemasFromDirectory < l.loaded.length + 1 :=
    Nat.not_lt.mpr hroom
  simp only [step, SchemaFile.stem?_eq_some.mpr hname, hitem, Kind.ofName?_eq_some.mpr rfl, hcount,
    ↓reduceIte]
  cases SchemaFile.readLimited (SchemaFile.pathIn path e.name)
    l.registry.config.maxSchemaFileSize bytes <;> rfl

namespace SchemaFile
variable {path text : String} {max n : Nat}

/-- The text goes on for `n` bytes, and no character of it lies across the end of these. -/
def CutBetween (text : String) (n : Nat) : Prop :=
  ∃ front rest, text = front ++ rest ∧ front.utf8ByteSize = n

theorem cutBetween_iff : CutBetween text n ↔ String.Pos.Raw.IsValid text ⟨n⟩ := by
  rw [String.Pos.Raw.isValid_iff_exists_append]
  constructor
  · rintro ⟨front, rest, htext, hn⟩
    exact ⟨front, rest, htext, String.Pos.Raw.ext hn.symm⟩
  · rintro ⟨front, rest, htext, hn⟩
    exact ⟨front, rest, htext, (congrArg String.Pos.Raw.byteIdx hn).symm⟩

/-- What stands in front of a cut between two characters is the text of these bytes. -/
theorem decodeText_of_cutBetween (h : CutBetween text n) :
    ∃ front, Files.decodeText (text.toUTF8.extract 0 n) = .ok front ∧ front.utf8ByteSize = n := by
  obtain ⟨front, rest, rfl, rfl⟩ := h
  refine ⟨front, Files.decodeText_eq_ok.mpr ?_, rfl⟩
  calc
    (front ++ rest).toUTF8.extract 0 front.utf8ByteSize =
        (front.toUTF8 ++ rest.toUTF8).extract 0 front.utf8ByteSize :=
      congrArg (ByteArray.extract · 0 front.utf8ByteSize) String.toByteArray_append
    _ = front.toUTF8 := ByteArray.extract_append_eq_left rfl

/-- What stands in front of a cut through a character is no text. -/
theorem decodeText_of_not_cutBetween (hn : n ≤ text.utf8ByteSize) (h : ¬CutBetween text n) :
    Files.decodeText (text.toUTF8.extract 0 n) = .error .notText := by
  have hinvalid : ¬(text.toUTF8.extract 0 n).IsValidUTF8 := by
    intro hvalid
    refine h (cutBetween_iff.mpr (String.Pos.Raw.isValid_iff_isValidUTF8_extract_zero.mpr ⟨?_, hvalid⟩))
    exact hn
  unfold Files.decodeText String.fromUTF8?
  rw [dif_neg hinvalid]

/-- Whether it is cut between characters decides what a file that is too long is refused for. -/
theorem readLimited_of_long (hlong : max < text.utf8ByteSize) :
    (CutBetween text (max + 1) → readLimited path max text.toUTF8 = .error (.tooLarge max path)) ∧
      (¬CutBetween text (max + 1) →
        readLimited path max text.toUTF8 = .error (.unreadable path .notText)) := by
  constructor
  · intro hcut
    obtain ⟨front, hfront, hsize⟩ := decodeText_of_cutBetween hcut
    have hover : max < front.utf8ByteSize := by
      rw [hsize]
      exact Nat.lt_succ_self max
    simp only [readLimited, hfront, hover, ↓reduceIte]
  · intro hcut
    simp only [readLimited, decodeText_of_not_cutBetween hlong hcut]

/-- A file with a text is read whole when it is not larger than allowed, and otherwise refused, never
cut. It is refused for its size when no character lies across the end of the first byte behind the
limit, and as no text when one does. Either way a directory that holds it is not loaded. -/
theorem read_whole_or_refused (path : String) (max : Nat) (text : String) :
    (text.utf8ByteSize ≤ max → readLimited path max text.toUTF8 = .ok text) ∧
    (max < text.utf8ByteSize →
      (CutBetween text (max + 1) →
        readLimited path max text.toUTF8 = .error (.tooLarge max path)) ∧
      (¬CutBetween text (max + 1) →
        readLimited path max text.toUTF8 = .error (.unreadable path .notText))) ∧
    ∀ (dir : String) (k : Kind) (l : Loading), path = pathIn dir (k.name ++ ending) →
      l.registry.config.maxSchemaFileSize = max →
      l.loaded.length < l.registry.config.maxSchemasFromDirectory →
      ∀ e, readLimited path max text.toUTF8 = .error e →
        l.step dir ⟨k.name ++ ending, .file text.toUTF8⟩ = .error (.load e) := by
  refine ⟨fun hfits => ?_, readLimited_of_long, ?_⟩
  · exact readLimited_eq_ok.mpr ⟨Files.decodeText_eq_ok.mpr rfl, hfits⟩
  · rintro dir k l rfl rfl hroom e he
    rw [Loading.step_of_file rfl rfl hroom, he]
    rfl

/-- A schema of fourteen bytes, of which the eleventh and the twelfth make up one character. -/
def accented : String :=
  "\x7b\"title\":\"é\"\x7d"

theorem read_whole_or_refused_accented :
    readLimited "s" 14 accented.toUTF8 = .ok accented ∧
      readLimited "s" 9 accented.toUTF8 = .error (.tooLarge 9 "s") ∧
      readLimited "s" 10 accented.toUTF8 = .error (.unreadable "s" .notText) ∧
      readLimited "s" 11 accented.toUTF8 = .error (.tooLarge 11 "s") := by
  have hcut {n : Nat} : CutBetween accented n ↔ String.Pos.Raw.IsValid accented ⟨n⟩ := cutBetween_iff
  refine ⟨(read_whole_or_refused "s" 14 accented).1 (by decide), ?_, ?_, ?_⟩
  · exact ((read_whole_or_refused "s" 9 accented).2.1 (by decide)).1 (hcut.mpr (by decide))
  · exact ((read_whole_or_refused "s" 10 accented).2.1 (by decide)).2 (hcut.not.mpr (by decide))
  · exact ((read_whole_or_refused "s" 11 accented).2.1 (by decide)).1 (hcut.mpr (by decide))

/-- Not every file that is too large is refused for its size. -/
theorem long_file_taken_for_no_text : ∃ path max text, max < String.utf8ByteSize text ∧
    readLimited path max text.toUTF8 ≠ .error (.tooLarge max path) := by
  refine ⟨"s", 10, accented, by decide, ?_⟩
  have hcut : ¬CutBetween accented 11 := cutBetween_iff.not.mpr (by decide)
  rw [(readLimited_of_long (by decide)).2 hcut]
  exact fun h => by cases h

end SchemaFile

end Catalog
