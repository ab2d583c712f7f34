import Catalog.Proofs.Construction
import Catalog.Proofs.Grammar
import Catalog.Proofs.PrintedText

/-! Strings and numerals. A reader takes them off the front of a source where the grammar has them
there: it finds no others, and it finds all those that are followed by what may follow a value. -/

namespace Catalog.Json

section Strings
variable {acc : List Char} {s rest : Source} {t : String}

/-- A unit without a character spoils the string for good. -/
theorem textRest_unclean {state : TextState} {r : String × Source} :
    textRest true state acc false s ≠ .ok r := by
  induction s generalizing state acc with
  | nil => simp [textRest]
  | cons u s ih =>
    intro h
    rw [textRest] at h
    split at h
    · cases h
    · split at h
      · cases h
      · exact ih h

/-- In a string there comes its closing quote or a step to the rest. -/
theorem textRest_eq_ok {state : TextState} {r : String × Source}
    (h : textRest true state acc true s = .ok r) :
    (state = .plain ∧ s = some '"' :: r.2 ∧ r.1 = String.ofList acc.reverse) ∨
      ∃ c s' state' out, s = some c :: s' ∧ (state = .plain → c ≠ '"') ∧
        state.next true (some c) s' = .ok (state', out) ∧
        textRest true state' (out.elim acc (· :: acc)) true s' = .ok r := by
  cases s with
  | nil => cases h
  | cons u s =>
    rw [textRest] at h
    split at h
    · next hend =>
      simp only [Bool.and_eq_true, decide_eq_true_eq] at hend
      cases h
      exact Or.inl ⟨hend.1, by rw [hend.2], rfl⟩
    · next hgo =>
      split at h
      · cases h
      · next state' out hnext =>
        cases u with
        | none => exact absurd h textRest_unclean
        | some c =>
          refine Or.inr ⟨c, s, state', out, rfl, fun hplain hc => hgo ?_, hnext, h⟩
          simp [hplain, hc]

theorem textRest_code_eq_ok {high : Option Nat} {count value : Nat} {r : String × Source}
    (h : textRest true (.code high count value) acc true s = .ok r) :
    ∃ c d s', s = some c :: s' ∧ Text.hexDigit? c = some d ∧
      (count ≠ 3 → textRest true (.code high (count + 1) (value * 16 + d)) acc true s' = .ok r) ∧
      (count = 3 → ∃ state' out, closeCode true high (value * 16 + d) = .ok (state', out) ∧
        textRest true state' (out.elim acc (· :: acc)) true s' = .ok r) := by
  rcases textRest_eq_ok h with ⟨hplain, -⟩ | ⟨c, s', state', out, rfl, -, hnext, hmore⟩
  · cases hplain
  · cases hd : Text.hexDigit? c with
    | none =>
      simp only [TextState.next, Option.bind_some, hd] at hnext
      split at hnext <;> cases hnext
    | some d =>
      refine ⟨c, d, s', rfl, hd, fun h3 => ?_, fun h3 => ?_⟩
      · simp only [TextState.next, Option.bind_some, hd, h3, ↓reduceIte] at hnext
        cases hnext
        exact hmore
      · simp only [TextState.next, Option.bind_some, hd, h3, ↓reduceIte] at hnext
        exact ⟨state', out, hnext, hmore⟩

/-- The four digits of a code are read to their end. -/
theorem textRest_codeAt {high : Option Nat} {r : String × Source}
    (h : textRest true (.code high 0 0) acc true s = .ok r) :
    ∃ n s' state' out, CodeAt n s s' ∧ closeCode true high n = .ok (state', out) ∧
      textRest true state' (out.elim acc (· :: acc)) true s' = .ok r := by
  obtain ⟨c₁, d₁, s₁, rfl, h₁, hmore, -⟩ := textRest_code_eq_ok h
  obtain ⟨c₂, d₂, s₂, rfl, h₂, hmore, -⟩ := textRest_code_eq_ok (hmore (by decide))
  obtain ⟨c₃, d₃, s₃, rfl, h₃, hmore, -⟩ := textRest_code_eq_ok (hmore (by decide))
  obtain ⟨c₄, d₄, s₄, rfl, h₄, -, hlast⟩ := textRest_code_eq_ok (hmore (by decide))
  obtain ⟨state', out, hclose, hmore⟩ := hlast rfl
  rw [Nat.zero_mul, Nat.zero_add] at hclose
  exact ⟨_, s₄, state', out, .digits h₁ h₂ h₃ h₄, hclose, hmore⟩

theorem textRest_of_codeAt {high : Option Nat} {n : Nat} {state : TextState} {out : Option Char}
    (h : CodeAt n s rest) (hclose : closeCode true high n = .ok (state, out)) :
    textRest true (.code high 0 0) acc true s =
      textRest true state (out.elim acc (· :: acc)) true rest := by
  cases h with
  | @digits c₁ c₂ c₃ c₄ d₁ d₂ d₃ d₄ _ h₁ h₂ h₃ h₄ =>
    -- Three digits only add to the code; the fourth completes it.
    have hlast : TextState.next true (some c₄) rest (.code high 3 ((d₁ * 16 + d₂) * 16 + d₃)) =
        .ok (state, out) := by
      simp only [TextState.next, Option.bind_some, h₄, ↓reduceIte, hclose]
    rw [textRest_digit h₁ (by decide), textRest_digit h₂ (by decide), textRest_digit h₃ (by decide)]
    simp only [Nat.zero_mul, Nat.zero_add]
    exact textRest_next (by simp) hlast

theorem CodeAt.length_lt {n : Nat} (h : CodeAt n s rest) : rest.length < s.length := by
  cases h
  simp only [List.length_cons]
  omega

theorem CharAt.length_lt {c : Char} (h : CharAt c s rest) : rest.length < s.length := by
  cases h with
  | plain => exact Nat.lt_succ_self _
  | letter =>
    simp only [List.length_cons]
    omega
  | code digits =>
    have hlt := digits.length_lt
    simp only [List.length_cons]
    omega
  | pair first high second =>
    have hfirst := first.length_lt
    have hsecond := second.length_lt
    simp only [List.length_cons] at hfirst ⊢
    omega

/-- A character of the grammar is taken up by the reader. -/
theorem textRest_of_charAt {c : Char} (h : CharAt c s rest) :
    textRest true .plain acc true s = textRest true .plain (c :: acc) true rest := by
  cases h with
  | plain quote backslash control => exact textRest_plain quote backslash (Nat.not_lt.mpr control)
  | letter escape =>
    apply textRest_letter _ escape
    rintro rfl
    cases escape
  | @code n _ _ digits low high =>
    have hclose : closeCode true none n = .ok (.plain, some (Char.ofNat n)) := by
      simp [closeCode, low, high]
    rw [textRest_silent (by simp) rfl, textRest_silent (by simp) rfl]
    exact textRest_of_codeAt digits hclose
  | @pair m n s₁ s₂ _ first high second low =>
    have hlow : isLow m = false := by
      simp only [isHigh, isLow, Bool.and_eq_true, decide_eq_true_eq, Bool.and_eq_false_iff,
        decide_eq_false_iff_not] at high ⊢
      omega
    have hfirst : closeCode true none m = .ok (.partner m false, none) := by
      simp [closeCode, hlow, high]
    have hsecond : closeCode true (some m) n =
        .ok (.plain, some (Char.ofNat (0x10000 + (m - 0xD800) * 0x400 + (n - 0xDC00)))) := by
      simp [closeCode, low]
    rw [textRest_silent (by simp) rfl, textRest_silent (by simp) rfl,
      textRest_of_codeAt first hfirst, Option.elim_none, textRest_silent (by simp) rfl,
      textRest_silent (by simp) rfl]
    exact textRest_of_codeAt second hsecond

/-- After a high surrogate there comes a low one. -/
theorem textRest_partner_eq_ok {m : Nat} {r : String × Source}
    (h : textRest true (.partner m false) acc true s = .ok r) :
    ∃ n s₁ s₂, s = some '\\' :: some 'u' :: s₁ ∧ CodeAt n s₁ s₂ ∧ isLow n = true ∧
      textRest true .plain
        (Char.ofNat (0x10000 + (m - 0xD800) * 0x400 + (n - 0xDC00)) :: acc) true s₂ = .ok r := by
  rcases textRest_eq_ok h with ⟨hplain, -⟩ | ⟨c, s', state, out, rfl, -, hnext, hmore⟩
  · cases hplain
  simp only [TextState.next] at hnext
  split at hnext
  · next hc =>
    cases hc
    cases hnext
    rcases textRest_eq_ok hmore with ⟨hplain, -⟩ | ⟨c, s₁, state, out, rfl, -, hnext, hmore⟩
    · cases hplain
    simp only [TextState.next] at hnext
    split at hnext
    · next hc =>
      cases hc
      cases hnext
      obtain ⟨n, s₂, state, out, hcode, hclose, hmore⟩ := textRest_codeAt hmore
      simp only [closeCode] at hclose
      split at hclose
      · next hlow =>
        cases hclose
        exact ⟨n, s₁, s₂, rfl, hcode, hlow, hmore⟩
      · cases hclose
    · cases hnext
  · cases hnext

/-- After a backslash there comes the rest of a character. -/
theorem textRest_escape_eq_ok {r : String × Source}
    (h : textRest true .escape acc true s = .ok r) :
    ∃ c s', CharAt c (some '\\' :: s) s' ∧ textRest true .plain (c :: acc) true s' = .ok r := by
  rcases textRest_eq_ok h with ⟨hplain, -⟩ | ⟨l, s₁, state, out, rfl, -, hnext, hmore⟩
  · cases hplain
  simp only [TextState.next] at hnext
  split at hnext
  · next hu =>
    cases hu
    cases hnext
    obtain ⟨m, s₂, state, out, hcode, hclose, hmore⟩ := textRest_codeAt hmore
    simp only [closeCode, Bool.not_true, Bool.false_eq_true, ↓reduceIte] at hclose
    split at hclose
    · cases hclose
    · next hlow =>
      split at hclose
      · next hhigh =>
        cases hclose
        obtain ⟨n, s₃, s₄, rfl, hsecond, hlow, hmore⟩ := textRest_partner_eq_ok hmore
        exact ⟨_, s₄, .pair hcode hhigh hsecond hlow, hmore⟩
      · next hhigh =>
        cases hclose
        exact ⟨_, s₂, .code hcode (Bool.eq_false_iff.mpr hlow) (Bool.eq_false_iff.mpr hhigh), hmore⟩
  · split at hnext
    · next c hescape =>
      cases hnext
      exact ⟨c, s₁, .letter hescape, hmore⟩
    · cases hnext

/-- The reader of a string meets the closing quote or a character of the grammar. -/
theorem textRest_plain_eq_ok (h : textRest true .plain acc true s = .ok (t, rest)) :
    (s = some '"' :: rest ∧ t = String.ofList acc.reverse) ∨
      ∃ c s', CharAt c s s' ∧ textRest true .plain (c :: acc) true s' = .ok (t, rest) := by
  rcases textRest_eq_ok h with ⟨-, hs, ht⟩ | ⟨c, s', state, out, rfl, hquote, hnext, hmore⟩
  · exact Or.inl ⟨hs, ht⟩
  right
  simp only [TextState.next] at hnext
  split at hnext
  · next hc =>
    subst hc
    cases hnext
    exact textRest_escape_eq_ok hmore
  · next hbackslash =>
    split at hnext
    · cases hnext
    · next hcontrol =>
      cases hnext
      exact ⟨c, s', .plain (hquote rfl) hbackslash (Nat.not_lt.mp hcontrol), hmore⟩

/-- What the reader finds up to the closing quote are the characters of the grammar. -/
theorem charsAt_of_textRest (h : textRest true .plain acc true s = .ok (t, rest)) :
    ∃ cs, CharsAt cs s (some '"' :: rest) ∧ t = String.ofList (acc.reverse ++ cs) := by
  -- On the length of the source, of which a character takes up to twelve units.
  induction hn : s.length using Nat.strongRecOn generalizing s acc with
  | ind n ih =>
    subst hn
    rcases textRest_plain_eq_ok h with ⟨rfl, rfl⟩ | ⟨c, s', hc, hmore⟩
    · exact ⟨[], .nil _, by simp⟩
    · obtain ⟨cs, hcs, rfl⟩ := ih s'.length hc.length_lt hmore rfl
      exact ⟨c :: cs, .cons hc hcs, by simp⟩

theorem textRest_of_charsAt {cs : List Char} (h : CharsAt cs s (some '"' :: rest)) :
    textRest true .plain acc true s = .ok (String.ofList (acc.reverse ++ cs), rest) := by
  generalize hend : some '"' :: rest = s' at h
  induction h generalizing acc with
  | nil s =>
    subst hend
    simp [textRest]
  | cons first others ih => simp [textRest_of_charAt first, ih hend]

/-- A string is read after its opening quote where the grammar has it. -/
theorem readText_eq_ok : readText true s = .ok (t, rest) ↔ StringAt t (some '"' :: s) rest := by
  constructor
  · intro h
    obtain ⟨cs, hcs, rfl⟩ := charsAt_of_textRest h
    exact .quoted hcs
  · intro h
    cases h with
    | quoted chars => exact textRest_of_charsAt chars

theorem CharsAt.length_le {cs : List Char} (h : CharsAt cs s rest) :
    rest.length ≤ s.length := by
  induction h with
  | nil => exact Nat.le_refl _
  | cons first others ih => exact Nat.le_trans ih (Nat.le_of_lt first.length_lt)

theorem StringAt.length_lt (h : StringAt t s rest) : rest.length < s.length := by
  cases h with
  | quoted chars =>
    have hle := chars.length_le
    simp only [List.length_cons] at hle ⊢
    omega

end Strings

section Numerals
variable {s rest : Source} {ds : List Nat}

/-- The source does not go on with a digit. -/
def NoDigit (s : Source) : Prop :=
  s.head?.bind digit? = none

theorem takeDigits_of_noDigit (h : NoDigit s) : takeDigits s = ([], s) := by
  cases s with
  | nil => rfl
  | cons u s =>
    have hu : digit? u = none := h
    simp only [takeDigits, hu]

theorem noDigit_of_takeDigits (h : takeDigits s = ([], rest)) : rest = s := by
  cases s with
  | nil => exact (Prod.mk.inj h).2.symm
  | cons u s =>
    rw [takeDigits] at h
    split at h
    · cases h
    · exact (Prod.mk.inj h).2.symm

theorem digitsAt_of_takeDigits {d : Nat} (h : takeDigits s = (d :: ds, rest)) :
    DigitsAt (d :: ds) s rest := by
  induction s generalizing d ds with
  | nil => cases h
  | cons u s ih =>
    rw [takeDigits] at h
    split at h
    · next e hdigit =>
      rcases hs : takeDigits s with ⟨_ | ⟨d', ds'⟩, rest'⟩
      · rw [hs] at h
        cases h
        rw [noDigit_of_takeDigits hs]
        exact .one hdigit
      · rw [hs] at h
        cases h
        exact .more hdigit (ih hs)
    · cases h

theorem digitsAt_of_readDigits (h : readDigits s = .ok (ds, rest)) : DigitsAt ds s rest := by
  rcases hs : takeDigits s with ⟨_ | ⟨d, ds'⟩, rest'⟩
  · rw [readDigits, hs] at h
    cases rest' <;> cases h
  · rw [readDigits, hs] at h
    cases h
    exact digitsAt_of_takeDigits hs

theorem readDigits_of_digitsAt (h : DigitsAt ds s rest) (hrest : NoDigit rest) :
    readDigits s = .ok (ds, rest) := by
  have htake : takeDigits s = (ds, rest) := by
    induction h with
    | one digit => simp only [takeDigits, digit, takeDigits_of_noDigit hrest]
    | more digit others ih => simp only [takeDigits, digit, ih hrest]
  rw [readDigits, htake]
  cases h <;> rfl

theorem wholeAt_of_readWhole (h : readWhole s = .ok (ds, rest)) : WholeAt ds s rest := by
  unfold readWhole at h
  split at h
  · cases h
  · next hleading =>
    refine ⟨digitsAt_of_readDigits h, ?_⟩
    by_cases hzero : ds.head? = some 0
    · obtain ⟨_ | ⟨d, more⟩, rfl⟩ := List.head?_eq_some_iff.mp hzero
      · exact Or.inl rfl
      · exact absurd h (hleading d more rest)
    · exact Or.inr hzero

theorem readWhole_of_wholeAt (h : WholeAt ds s rest) (hrest : NoDigit rest) :
    readWhole s = .ok (ds, rest) := by
  have hread := readDigits_of_digitsAt h.digits hrest
  rw [readWhole, hread]
  split
  · next heq =>
    cases heq
    rcases h.leading with hone | hne
    · cases hone
    · exact absurd rfl hne
  · rfl

theorem fractionAt_of_readFraction {fraction : Option (List Nat)}
    (h : readFraction s = .ok (fraction, rest)) : FractionAt fraction s rest := by
  unfold readFraction at h
  split at h
  · obtain ⟨⟨ds, s'⟩, hdigits, he⟩ := map_eq_ok.mp h
    cases he
    exact .point (digitsAt_of_readDigits hdigits)
  · cases h
    exact .none s

theorem readFraction_of_fractionAt {fraction : Option (List Nat)} (h : FractionAt fraction s rest)
    (hrest : NoDigit rest) (hpoint : rest.head? ≠ some (some '.')) :
    readFraction s = .ok (fraction, rest) := by
  cases h with
  | none =>
    unfold readFraction
    split
    · exact absurd rfl hpoint
    · rfl
  | point digits => simp only [readFraction, readDigits_of_digitsAt digits hrest, Except.map]

/-- Both letters begin an exponent. -/
theorem readExponent_letter {e : Char} (he : e = 'e' ∨ e = 'E') :
    readExponent (some e :: s) = readExponent (some 'e' :: s) := by
  rcases he with rfl | rfl <;> rfl

theorem exponentAt_of_letter {e : Char} (he : e = 'e' ∨ e = 'E')
    {exponent : Option (Bool × List Nat)} (h : readExponent (some e :: s) = .ok (exponent, rest)) :
    ExponentAt exponent (some e :: s) rest := by
  rw [readExponent_letter he] at h
  simp only [readExponent] at h
  split at h
  · obtain ⟨⟨ds, s'⟩, hdigits, hpart⟩ := map_eq_ok.mp h
    cases hpart
    exact .minus he (digitsAt_of_readDigits hdigits)
  · obtain ⟨⟨ds, s'⟩, hdigits, hpart⟩ := map_eq_ok.mp h
    cases hpart
    exact .plus he (digitsAt_of_readDigits hdigits)
  · obtain ⟨⟨ds, s'⟩, hdigits, hpart⟩ := map_eq_ok.mp h
    cases hpart
    exact .plain he (digitsAt_of_readDigits hdigits)

/-- A source that begins with no such letter has no exponent. -/
theorem readExponent_none (h : s.head? ≠ some (some 'e') ∧ s.head? ≠ some (some 'E')) :
    readExponent s = .ok (none, s) := by
  unfold readExponent
  split
  · exact absurd rfl h.1
  · exact absurd rfl h.2
  · rfl

theorem exponentAt_of_readExponent {exponent : Option (Bool × List Nat)}
    (h : readExponent s = .ok (exponent, rest)) : ExponentAt exponent s rest := by
  by_cases hletter : s.head? = some (some 'e') ∨ s.head? = some (some 'E')
  · rcases hletter with hletter | hletter
    · obtain ⟨s', rfl⟩ := List.head?_eq_some_iff.mp hletter
      exact exponentAt_of_letter (Or.inl rfl) h
    · obtain ⟨s', rfl⟩ := List.head?_eq_some_iff.mp hletter
      exact exponentAt_of_letter (Or.inr rfl) h
  · rw [readExponent_none (not_or.mp hletter)] at h
    cases h
    exact .none s

theorem DigitsAt.head (h : DigitsAt ds s rest) :
    ∃ u d s', s = u :: s' ∧ digit? u = some d := by
  cases h with
  | one digit => exact ⟨_, _, _, rfl, digit⟩
  | more digit others => exact ⟨_, _, _, rfl, digit⟩

theorem readExponent_of_exponentAt {exponent : Option (Bool × List Nat)}
    (h : ExponentAt exponent s rest) (hrest : NoDigit rest)
    (hletter : rest.head? ≠ some (some 'e') ∧ rest.head? ≠ some (some 'E')) :
    readExponent s = .ok (exponent, rest) := by
  cases h with
  | none => exact readExponent_none hletter
  | plain letter digits =>
    rw [readExponent_letter letter]
    obtain ⟨u, d, s', rfl, hdigit⟩ := digits.head
    simp only [readExponent]
    split
    · next heq =>
      cases heq
      cases hdigit
    · next heq =>
      cases heq
      cases hdigit
    · rw [readDigits_of_digitsAt digits hrest]
      rfl
  | plus letter digits =>
    rw [readExponent_letter letter]
    simp only [readExponent, readDigits_of_digitsAt digits hrest, Except.map]
  | minus letter digits =>
    rw [readExponent_letter letter]
    simp only [readExponent, readDigits_of_digitsAt digits hrest, Except.map]

theorem numeralAt_of_readNumeral {n : Numeral} (h : readNumeral s = .ok (n, rest)) :
    NumeralAt n s rest := by
  unfold readNumeral at h
  split at h
  next negative s₂ hsign =>
  obtain ⟨⟨whole, s₃⟩, hwhole, h⟩ := bind_eq_ok.mp h
  obtain ⟨⟨fraction, s₄⟩, hfraction, h⟩ := bind_eq_ok.mp h
  obtain ⟨⟨exponent, s₅⟩, hexponent, h⟩ := bind_eq_ok.mp h
  cases h
  refine .parts ?_ (wholeAt_of_readWhole hwhole) (fractionAt_of_readFraction hfraction)
    (exponentAt_of_readExponent hexponent)
  split at hsign
  · cases hsign
    exact .minus _
  · cases hsign
    exact .none _

/-- What may follow a value: the end, a blank, a comma or a closing bracket. -/
def Stops (s : Source) : Prop :=
  ∀ u ∈ s.head?, Source.isBlank u = true ∨ u = some ',' ∨ u = some ']' ∨ u = some '\x7d'

/-- No numeral goes on with a unit that may follow a value. -/
theorem Stops.ends (h : Stops rest) : NoDigit rest ∧ rest.head? ≠ some (some '.') ∧
    rest.head? ≠ some (some 'e') ∧ rest.head? ≠ some (some 'E') := by
  cases rest with
  | nil => exact ⟨rfl, by simp⟩
  | cons u rest =>
    have hu := h u rfl
    simp only [Source.isBlank, Bool.or_eq_true, decide_eq_true_eq, or_assoc] at hu
    rcases hu with rfl | rfl | rfl | rfl | rfl | rfl | rfl <;> exact ⟨rfl, by simp⟩

/-- In front of an exponent there ends what ends behind it. -/
theorem ExponentAt.ends {exponent : Option (Bool × List Nat)} (h : ExponentAt exponent s rest)
    (hdigit : NoDigit rest) (hpoint : rest.head? ≠ some (some '.')) :
    NoDigit s ∧ s.head? ≠ some (some '.') := by
  cases h with
  | none => exact ⟨hdigit, hpoint⟩
  | plain letter | plus letter | minus letter =>
    rcases letter with rfl | rfl <;> exact ⟨rfl, by simp⟩

theorem FractionAt.ends {fraction : Option (List Nat)} (h : FractionAt fraction s rest)
    (hdigit : NoDigit rest) : NoDigit s := by
  cases h with
  | none => exact hdigit
  | point => rfl

theorem readNumeral_of_numeralAt {n : Numeral} (h : NumeralAt n s rest) (hrest : Stops rest) :
    readNumeral s = .ok (n, rest) := by
  obtain ⟨hdigit, hpoint, hletter⟩ := hrest.ends
  obtain ⟨negative, wholeDigits, fractionDigits, exponentDigits⟩ := n
  cases h with
  | @parts s₂ s₃ s₄ _ sign whole fraction exponent =>
    -- From the back: a part is read to its end as what follows it does not go on with it.
    obtain ⟨hdigit₄, hpoint₄⟩ := exponent.ends hdigit hpoint
    obtain ⟨u, d, s', rfl, hu⟩ := whole.digits.head
    unfold readNumeral
    split
    next negative' s₂' hsign =>
    have hafter : negative' = negative ∧ s₂' = u :: s' := by
      cases sign with
      | none =>
        split at hsign
        · -- A digit is no sign.
          next heq =>
          cases heq
          cases hu
        · cases hsign
          exact ⟨rfl, rfl⟩
      | minus =>
        cases hsign
        exact ⟨rfl, rfl⟩
    obtain ⟨rfl, rfl⟩ := hafter
    simp only [readWhole_of_wholeAt whole (fraction.ends hdigit₄),
      readFraction_of_fractionAt fraction hdigit₄ hpoint₄,
      readExponent_of_exponentAt exponent hdigit hletter, bind, Except.bind]
    rfl

theorem DigitsAt.length_lt (h : DigitsAt ds s rest) : rest.length < s.length := by
  induction h with
  | one => exact Nat.lt_succ_self _
  | more digit others ih => exact Nat.lt_succ_of_lt ih

theorem SignAt.length_le {negative : Bool} (h : SignAt negative s rest) :
    rest.length ≤ s.length := by
  cases h <;> simp

theorem FractionAt.length_le {fraction : Option (List Nat)} (h : FractionAt fraction s rest) :
    rest.length ≤ s.length := by
  cases h with
  | none => exact Nat.le_refl _
  | point digits => exact Nat.le_succ_of_le (Nat.le_of_lt digits.length_lt)

theorem ExponentAt.length_le {exponent : Option (Bool × List Nat)}
    (h : ExponentAt exponent s rest) : rest.length ≤ s.length := by
  cases h with
  | none => exact Nat.le_refl _
  | plain letter digits => exact Nat.le_succ_of_le (Nat.le_of_lt digits.length_lt)
  | plus letter digits | minus letter digits =>
    exact Nat.le_succ_of_le (Nat.le_succ_of_le (Nat.le_of_lt digits.length_lt))

theorem NumeralAt.length_lt {n : Numeral} (h : NumeralAt n s rest) :
    rest.length < s.length := by
  cases h with
  | parts sign whole fraction exponent =>
    calc
      rest.length ≤ _ := exponent.length_le
      _ ≤ _ := fraction.length_le
      _ < _ := whole.digits.length_lt
      _ ≤ s.length := sign.length_le

end Numerals
end Catalog.Json
