import Catalog.Json.Reader

/-! The grammar of JSON texts. Each rule relates what is written to the source that it stands in front
of and to what follows it there, so that rules are put one after the other. Nothing is said of how a
source is read. -/

namespace Catalog.Json

/-- Some blanks, or none. -/
inductive Blanks : Source → Source → Prop where
  | none (s : Source) : Blanks s s
  | more {u : Option Char} {s rest : Source} (blank : Source.isBlank u = true)
    (others : Blanks s rest) : Blanks (u :: s) rest

/-- Four hexadecimal digits. -/
inductive CodeAt : Nat → Source → Source → Prop where
  | digits {c₁ c₂ c₃ c₄ : Char} {d₁ d₂ d₃ d₄ : Nat} {rest : Source}
    (h₁ : Text.hexDigit? c₁ = some d₁) (h₂ : Text.hexDigit? c₂ = some d₂)
    (h₃ : Text.hexDigit? c₃ = some d₃) (h₄ : Text.hexDigit? c₄ = some d₄) :
    CodeAt (((d₁ * 16 + d₂) * 16 + d₃) * 16 + d₄)
      (some c₁ :: some c₂ :: some c₃ :: some c₄ :: rest) rest

/-- A character of a string: as it is, by a letter, by its code, or by the codes of two
surrogates. -/
inductive CharAt : Char → Source → Source → Prop where
  | plain {c : Char} {rest : Source} (quote : c ≠ '"') (backslash : c ≠ '\\')
    (control : 0x20 ≤ c.toNat) : CharAt c (some c :: rest) rest
  | letter {c letter : Char} {rest : Source} (escape : escapeChar? letter = some c) :
    CharAt c (some '\\' :: some letter :: rest) rest
  | code {n : Nat} {s rest : Source} (digits : CodeAt n s rest) (low : isLow n = false)
    (high : isHigh n = false) : CharAt (Char.ofNat n) (some '\\' :: some 'u' :: s) rest
  | pair {m n : Nat} {s₁ s₂ rest : Source} (first : CodeAt m s₁ (some '\\' :: some 'u' :: s₂))
    (high : isHigh m = true) (second : CodeAt n s₂ rest) (low : isLow n = true) :
    CharAt (Char.ofNat (0x10000 + (m - 0xD800) * 0x400 + (n - 0xDC00)))
      (some '\\' :: some 'u' :: s₁) rest

inductive CharsAt : List Char → Source → Source → Prop where
  | nil (s : Source) : CharsAt [] s s
  | cons {c : Char} {cs : List Char} {s₁ s₂ rest : Source} (first : CharAt c s₁ s₂)
    (others : CharsAt cs s₂ rest) : CharsAt (c :: cs) s₁ rest

/-- A string between its quotes. -/
inductive StringAt : String → Source → Source → Prop where
  | quoted {cs : List Char} {s rest : Source} (chars : CharsAt cs s (some '"' :: rest)) :
    StringAt (String.ofList cs) (some '"' :: s) rest

/-- At least one digit. -/
inductive DigitsAt : List Nat → Source → Source → Prop where
  | one {u : Option Char} {d : Nat} {rest : Source} (digit : digit? u = some d) :
    DigitsAt [d] (u :: rest) rest
  | more {u : Option Char} {d : Nat} {ds : List Nat} {s rest : Source} (digit : digit? u = some d)
    (others : DigitsAt ds s rest) : DigitsAt (d :: ds) (u :: s) rest

inductive SignAt : Bool → Source → Source → Prop where
  | none (s : Source) : SignAt false s s
  | minus (rest : Source) : SignAt true (some '-' :: rest) rest

/-- Digits without a leading zero. -/
structure WholeAt (ds : List Nat) (s rest : Source) : Prop where
  digits : DigitsAt ds s rest
  leading : ds = [0] ∨ ds.head? ≠ some 0

inductive FractionAt : Option (List Nat) → Source → Source → Prop where
  | none (s : Source) : FractionAt none s s
  | point {ds : List Nat} {s rest : Source} (digits : DigitsAt ds s rest) :
    FractionAt (some ds) (some '.' :: s) rest

inductive ExponentAt : Option (Bool × List Nat) → Source → Source → Prop where
  | none (s : Source) : ExponentAt none s s
  | plain {e : Char} {ds : List Nat} {s rest : Source} (letter : e = 'e' ∨ e = 'E')
    (digits : DigitsAt ds s rest) : ExponentAt (some (false, ds)) (some e :: s) rest
  | plus {e : Char} {ds : List Nat} {s rest : Source} (letter : e = 'e' ∨ e = 'E')
    (digits : DigitsAt ds s rest) : ExponentAt (some (false, ds)) (some e :: some '+' :: s) rest
  | minus {e : Char} {ds : List Nat} {s rest : Source} (letter : e = 'e' ∨ e = 'E')
    (digits : DigitsAt ds s rest) : ExponentAt (some (true, ds)) (some e :: some '-' :: s) rest

inductive NumeralAt : Numeral → Source → Source → Prop where
  | parts {n : Numeral} {s₁ s₂ s₃ s₄ rest : Source} (sign : SignAt n.negative s₁ s₂)
    (whole : WholeAt n.whole s₂ s₃) (fraction : FractionAt n.fraction s₃ s₄)
    (exponent : ExponentAt n.exponent s₄ rest) : NumeralAt n s₁ rest

/-- A value without parts. A numeral must stand for a number. -/
inductive ScalarAt : Json → Source → Source → Prop where
  | null (rest : Source) : ScalarAt .null (['n', 'u', 'l', 'l'].map some ++ rest) rest
  | true (rest : Source) : ScalarAt (.bool true) (['t', 'r', 'u', 'e'].map some ++ rest) rest
  | false (rest : Source) : ScalarAt (.bool false) (['f', 'a', 'l', 's', 'e'].map some ++ rest) rest
  | string {t : String} {s rest : Source} (h : StringAt t s rest) : ScalarAt (.string t) s rest
  | number {n : Numeral} {x : Number} {s rest : Source} (h : NumeralAt n s rest)
    (value : n.value? = some x) : ScalarAt (.number x) s rest

section Parts
variable (R : Json → Source → Source → Prop)

/-- A value with blanks around it. -/
inductive SpacedAt : Json → Source → Source → Prop where
  | spaced {v : Json} {s₁ s₂ s₃ rest : Source} (before : Blanks s₁ s₂) (value : R v s₂ s₃)
    (behind : Blanks s₃ rest) : SpacedAt v s₁ rest

/-- A key and a value with a colon between them. -/
inductive MemberAt : String × Json → Source → Source → Prop where
  | member {k : String} {v : Json} {s₁ s₂ s₃ s₄ rest : Source} (before : Blanks s₁ s₂)
    (key : StringAt k s₂ s₃) (colon : Blanks s₃ (some ':' :: s₄)) (value : SpacedAt R v s₄ rest) :
    MemberAt (k, v) s₁ rest

/-- One part or more, with a comma between each two. -/
inductive SeriesAt {α : Type} (E : α → Source → Source → Prop) :
    List α → Source → Source → Prop where
  | one {a : α} {s rest : Source} (part : E a s rest) : SeriesAt E [a] s rest
  | more {a : α} {as : List α} {s₁ s₂ rest : Source} (part : E a s₁ (some ',' :: s₂))
    (others : SeriesAt E as s₂ rest) : SeriesAt E (a :: as) s₁ rest

/-- An array or object of values that `R` relates. -/
inductive BracketAt : Json → Source → Source → Prop where
  | noItems {s rest : Source} (h : Blanks s (some ']' :: rest)) :
    BracketAt (.array []) (some '[' :: s) rest
  | items {vs : List Json} {s rest : Source} (h : SeriesAt (SpacedAt R) vs s (some ']' :: rest)) :
    BracketAt (.array vs) (some '[' :: s) rest
  | noMembers {s rest : Source} (h : Blanks s (some '\x7d' :: rest)) :
    BracketAt (.object []) (some '\x7b' :: s) rest
  | members {ms : Entries Json} {s rest : Source}
    (h : SeriesAt (MemberAt R) ms s (some '\x7d' :: rest)) :
    BracketAt (.object ms) (some '\x7b' :: s) rest

end Parts

/-- A value with at most `depth` arrays and objects nested in each other. -/
def ValueAt : (depth : Nat) → Json → Source → Source → Prop
  | 0 => ScalarAt
  | depth + 1 => fun v s rest => ScalarAt v s rest ∨ BracketAt (ValueAt depth) v s rest

/-- The source is a JSON text: the text of one value, of which the tree is `t`, that is nested no
deeper than the reader allows and has no numbers beyond the largest. -/
def IsText (t : Json) (s : Source) : Prop :=
  SpacedAt (ValueAt depthLimit) t s []

end Catalog.Json
