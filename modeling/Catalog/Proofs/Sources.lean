import Catalog.Json.Source

/-! The units of a text and of its UTF-8 bytes are the same. -/

namespace Catalog.Json.Source

theorem size_utf8Encode_cons (c : Char) (cs : List Char) :
    (c :: cs).utf8Encode.size = c.utf8Size + cs.utf8Encode.size := by
  rw [List.utf8Encode_cons, ByteArray.size_append, List.utf8Encode_singleton,
    List.size_toByteArray, String.length_utf8EncodeChar]

theorem length_le_size_utf8Encode (cs : List Char) : cs.length ≤ cs.utf8Encode.size := by
  induction cs with
  | nil => simp
  | cons c cs ih =>
    have hc := c.utf8Size_pos
    rw [size_utf8Encode_cons, List.length_cons]
    omega

/-- From the end of the bytes of `done` on, the units are the characters that follow. -/
theorem ofBytesFrom_utf8Encode (todo done : List Char) (fuel : Nat) (acc : Source)
    (hf : todo.length ≤ fuel) :
    ofBytesFrom (done ++ todo).utf8Encode fuel done.utf8Encode.size acc =
      (todo.map some).reverse ++ acc := by
  -- On the characters to come: with each step the next of them moves to `done`.
  induction todo generalizing done fuel acc with
  | nil => cases fuel <;> simp [ofBytesFrom]
  | cons c cs ih =>
    obtain ⟨fuel, rfl⟩ : ∃ n, fuel = n + 1 := ⟨fuel - 1, by simp only [List.length_cons] at hf; omega⟩
    have hsize : (done ++ c :: cs).utf8Encode.size =
        done.utf8Encode.size + (c :: cs).utf8Encode.size := by simp
    have hpos : 0 < (c :: cs).utf8Encode.size := by
      have hc := c.utf8Size_pos
      rw [size_utf8Encode_cons]
      omega
    have hdecode : (done ++ c :: cs).utf8Encode.utf8DecodeChar? done.utf8Encode.size = some c := by
      rw [ByteArray.utf8DecodeChar?_eq_utf8DecodeChar?_extract, hsize, List.utf8Encode_append,
        ByteArray.extract_append_eq_right rfl rfl, List.utf8DecodeChar?_utf8Encode_cons]
    have hnext : done.utf8Encode.size + c.utf8Size = (done ++ [c]).utf8Encode.size := by
      simp [size_utf8Encode_cons]
    have hsplit : done ++ c :: cs = (done ++ [c]) ++ cs := by simp
    rw [ofBytesFrom, if_pos (by omega), hdecode]
    simp only
    rw [hnext, hsplit, ih (done ++ [c]) fuel _ (by simpa using hf)]
    simp

theorem ofBytes_toUTF8 (s : String) : ofBytes s.toUTF8 = ofText s := by
  have hbytes : s.toUTF8 = s.toList.utf8Encode := by simp
  have hread := ofBytesFrom_utf8Encode s.toList [] _ [] (length_le_size_utf8Encode s.toList)
  rw [ofBytes, ofText, hbytes]
  simp only [List.nil_append, List.utf8Encode_nil, ByteArray.size_empty, List.append_nil] at hread
  rw [hread, List.reverse_reverse]

end Catalog.Json.Source
