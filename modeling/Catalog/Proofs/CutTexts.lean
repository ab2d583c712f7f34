import Catalog.Text.Split

/-! Where a text is cut at the first occurrence of a character: in front of the cut the character
does not occur, and the two parts with the character between them are the text. -/

namespace Catalog.Text
variable {c : Char} {s : String}

theorem splitFirst?_append {before : List Char} (h : c ∉ before) (after : List Char) :
    splitFirst? c (String.ofList (before ++ c :: after)) =
      some (String.ofList before, String.ofList after) := by
  have hne : ∀ d ∈ before, decide (d ≠ c) = true := by
    intro d hd
    exact decide_eq_true fun hdc => h (hdc ▸ hd)
  have hdrop : (before ++ c :: after).dropWhile (· ≠ c) = c :: after := by
    rw [List.dropWhile_append_of_pos hne, List.dropWhile_cons_of_neg (by simp)]
  have htake : (before ++ c :: after).takeWhile (· ≠ c) = before := by
    rw [List.takeWhile_append_of_pos hne, List.takeWhile_cons_of_neg (by simp), List.append_nil]
  simp only [splitFirst?, String.toList_ofList, hdrop, htake]

theorem splitFirst?_of_not_mem (h : c ∉ s.toList) : splitFirst? c s = none := by
  have hne : ∀ d ∈ s.toList, decide (d ≠ c) = true := by
    intro d hd
    exact decide_eq_true fun hdc => h (hdc ▸ hd)
  have hdrop : s.toList.dropWhile (· ≠ c) = [] := by
    rw [← s.toList.append_nil, List.dropWhile_append_of_pos hne, List.dropWhile_nil]
  simp only [splitFirst?, hdrop]

theorem splitFirst?_eq_some {before after : String} :
    splitFirst? c s = some (before, after) ↔
      s.toList = before.toList ++ c :: after.toList ∧ c ∉ before.toList := by
  constructor
  · intro h
    by_cases hmem : c ∈ s.toList
    · obtain ⟨front, rest, hsplit, hfree⟩ := List.eq_append_cons_of_mem hmem
      -- The text is cut at this occurrence, so these are the two parts.
      have hs : s = String.ofList (front ++ c :: rest) := by rw [← hsplit, String.ofList_toList]
      rw [hs, splitFirst?_append hfree, Option.some.injEq, Prod.mk.injEq] at h
      obtain ⟨rfl, rfl⟩ := h
      rw [String.toList_ofList, String.toList_ofList]
      exact ⟨hsplit, hfree⟩
    · rw [splitFirst?_of_not_mem hmem] at h
      cases h
  · intro h
    have hs : s = String.ofList (before.toList ++ c :: after.toList) := by
      rw [← h.1, String.ofList_toList]
    rw [hs, splitFirst?_append h.2, String.ofList_toList, String.ofList_toList]

end Catalog.Text
