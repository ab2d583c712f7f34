import Catalog.Json.Printer
import Catalog.Json.Reader

/-! Reading strings that have been printed. The reader passes from one printed character to the next
with that character taken up, whichever escape it is written with. -/

namespace Catalog.Json

theorem hexDigit_digitChar : ∀ d < 16, Text.hexDigit? (Nat.digitChar d) = some d := by
  decide

theorem textRest_next {paired : Bool} {state state' : TextState} {acc : List Char} {c : Char}
    {out : Option Char} {rest : Source} (hq : state = .plain → c ≠ '"')
    (h : state.next paired (some c) rest = .ok (state', out)) :
    textRest paired state acc true (some c :: rest) =
      textRest paired state' (out.elim acc (· :: acc)) true rest := by
  have hcond : (state = .plain && some c = some '"') = false := by
    by_cases hs : state = .plain
    · simp [hs, hq hs]
    · simp [hs]
  rw [textRest, hcond]
  simp only [Bool.false_eq_true, ↓reduceIte, h, Option.isSome_some, Bool.and_self]

/-- A step into a string that completes no character. -/
theorem textRest_silent {paired : Bool} {state state' : TextState} {acc : List Char} {c : Char}
    {rest : Source} (hq : state = .plain → c ≠ '"')
    (h : state.next paired (some c) rest = .ok (state', none)) :
    textRest paired state acc true (some c :: rest) = textRest paired state' acc true rest :=
  textRest_next hq h

/-- A step into a string that completes a character. -/
theorem textRest_complete {paired : Bool} {state state' : TextState} {acc : List Char} {c d : Char}
    {rest : Source} (hq : state = .plain → c ≠ '"')
    (h : state.next paired (some c) rest = .ok (state', some d)) :
    textRest paired state acc true (some c :: rest) = textRest paired state' (d :: acc) true rest :=
  textRest_next hq h

/-- A backslash and the letter of an escape. -/
theorem textRest_letter {c letter : Char} {acc : List Char} {rest : Source} (hu : letter ≠ 'u')
    (hc : escapeChar? letter = some c) :
    textRest true .plain acc true (some '\\' :: some letter :: rest) =
      textRest true .plain (c :: acc) true rest := by
  have hsecond : TextState.next true (some letter) rest .escape = .ok (.plain, some c) := by
    simp [TextState.next, hu, hc]
  rw [textRest_silent (by simp) rfl, textRest_complete (by simp) hsecond]

theorem textRest_digit {high : Option Nat} {count value d : Nat} {c : Char} {acc : List Char}
    {rest : Source} (hc : Text.hexDigit? c = some d) (h3 : count ≠ 3) :
    textRest true (.code high count value) acc true (some c :: rest) =
      textRest true (.code high (count + 1) (value * 16 + d)) acc true rest := by
  apply textRest_silent (by simp)
  simp [TextState.next, hc, h3]

/-- A control character by its code. -/
theorem textRest_control {c : Char} {acc : List Char} {rest : Source} (hc : c.toNat < 0x20) :
    textRest true .plain acc true
      (some '\\' :: some 'u' :: some '0' :: some '0' :: some (Nat.digitChar (c.toNat / 16)) ::
        some (Nat.digitChar (c.toNat % 16)) :: rest) =
      textRest true .plain (c :: acc) true rest := by
  have hhigh := hexDigit_digitChar (c.toNat / 16) (by omega)
  have hlow := hexDigit_digitChar (c.toNat % 16) (by omega)
  have hvalue : c.toNat / 16 * 16 + c.toNat % 16 = c.toNat := by omega
  have hl : isLow c.toNat = false := by simp [isLow]; omega
  have hh : isHigh c.toNat = false := by simp [isHigh]; omega
  have hzero : Text.hexDigit? '0' = some 0 := rfl
  -- Three digits only add to the code; the fourth completes the character.
  have hlast : TextState.next true (some (Nat.digitChar (c.toNat % 16))) rest
      (.code none 3 (c.toNat / 16)) = .ok (.plain, some c) := by
    simp [TextState.next, hlow, hvalue, closeCode, hl, hh]
  rw [textRest_silent (by simp) rfl, textRest_silent (by simp) rfl, textRest_digit hzero (by decide),
    textRest_digit hzero (by decide), textRest_digit hhigh (by decide)]
  simp only [Nat.zero_mul, Nat.zero_add]
  exact textRest_complete (by simp) hlast

theorem textRest_plain {c : Char} {acc : List Char} {rest : Source} (hq : c ≠ '"') (hb : c ≠ '\\')
    (hc : ¬c.toNat < 0x20) :
    textRest true .plain acc true (some c :: rest) = textRest true .plain (c :: acc) true rest := by
  apply textRest_complete (by simp [hq])
  simp only [TextState.next, hb, hc, ↓reduceIte]

theorem textRest_escaped (c : Char) (acc : List Char) (rest : Source) :
    textRest true .plain acc true ((escaped c).map some ++ rest) =
      textRest true .plain (c :: acc) true rest := by
  unfold escaped
  split
  · next h => subst h; exact textRest_letter (by decide) rfl
  split
  · next h => subst h; exact textRest_letter (by decide) rfl
  split
  · next h => subst h; exact textRest_letter (by decide) rfl
  split
  · next h => subst h; exact textRest_letter (by decide) rfl
  split
  · next h => subst h; exact textRest_letter (by decide) rfl
  split
  · next h => subst h; exact textRest_letter (by decide) rfl
  split
  · next h => subst h; exact textRest_letter (by decide) rfl
  split
  · next h => exact textRest_control h
  · next hq hb _ _ _ _ _ hc => exact textRest_plain hq hb hc

theorem textRest_escaped_all (cs acc : List Char) (rest : Source) :
    textRest true .plain acc true ((cs.flatMap escaped).map some ++ some '"' :: rest) =
      .ok (String.ofList (acc.reverse ++ cs), rest) := by
  induction cs generalizing acc with
  | nil => simp [textRest]
  | cons c cs ih =>
    rw [List.flatMap_cons, List.map_append, List.append_assoc, textRest_escaped, ih]
    simp

/-- A printed string is read back, after its opening quote, and nothing behind it is taken. -/
theorem readText_escaped (s : String) (rest : Source) :
    readText true ((s.toList.flatMap escaped).map some ++ some '"' :: rest) = .ok (s, rest) := by
  rw [readText, textRest_escaped_all]
  simp

end Catalog.Json
