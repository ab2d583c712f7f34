import Catalog.Text.Hex

/-!
Regular expressions in the notation of JSON Schema's `pattern`: a text matches when some part of it
does, unless the expression is anchored. Groups, alternatives, classes and counted repetition are
read; expressions that look back or ahead are not.
-/

namespace Catalog.Schema

inductive Regex where
  | nothing
  /-- One character inside, or outside, the ranges of code points. -/
  | one (outside : Bool) (ranges : List (Nat × Nat))
  | atStart
  | atEnd
  | atEdge (inverted : Bool)
  | seq (a b : Regex)
  | either (a b : Regex)
  | times (r : Regex) (least : Nat) (most : Option Nat)

namespace Regex

/-- Letters, digits and the underscore. -/
def wordRanges : List (Nat × Nat) :=
  [(48, 57), (65, 90), (95, 95), (97, 122)]

def digitRanges : List (Nat × Nat) :=
  [(48, 57)]

def spaceRanges : List (Nat × Nat) :=
  [(9, 13), (32, 32), (0xA0, 0xA0), (0x1680, 0x1680), (0x2000, 0x200A), (0x2028, 0x2029),
    (0x202F, 0x202F), (0x205F, 0x205F), (0x3000, 0x3000), (0xFEFF, 0xFEFF)]

def inRanges (c : Char) (ranges : List (Nat × Nat)) : Bool :=
  ranges.any fun p => p.1 ≤ c.toNat && c.toNat ≤ p.2

/-- The code points that lie in none of the ranges, which need not be in order. -/
def complement (ranges : List (Nat × Nat)) : List (Nat × Nat) :=
  ranges.foldl
    (fun acc p => acc.flatMap fun q =>
      (if q.1 < p.1 then [(q.1, min q.2 (p.1 - 1))] else []) ++
        (if p.2 < q.2 then [(max q.1 (p.2 + 1), q.2)] else []))
    [(0, 0x10FFFF)]

def isWordAt (text : Array Char) (i : Nat) : Bool :=
  text[i]?.any (inRanges · wordRanges)

/-- Positions without repeats. -/
def unique (ps : List Nat) : List Nat :=
  ps.eraseDups

/-- What `step` reaches in exactly `n` rounds. -/
def exactly (step : Nat → List Nat) : Nat → List Nat → List Nat
  | 0, ps => ps
  | n + 1, ps => exactly step n (unique (ps.flatMap step))

/-- What `step` reaches in at most `n` rounds. -/
def within (step : Nat → List Nat) : Nat → List Nat → List Nat
  | 0, ps => ps
  | n + 1, ps => unique (ps ++ within step n (unique (ps.flatMap step)))

/-- Where a match that starts at `i` may end. A repetition without a bound needs no more rounds than
the text has characters, since rounds that match nothing reach nothing new. -/
def ends (text : Array Char) : Regex → Nat → List Nat
  | .nothing, i => [i]
  | .one outside ranges, i =>
    match text[i]? with
    | some c => if inRanges c ranges = outside then [] else [i + 1]
    | none => []
  | .atStart, i => if i = 0 then [i] else []
  | .atEnd, i => if i = text.size then [i] else []
  | .atEdge inverted, i =>
    let edge := (0 < i && isWordAt text (i - 1)) != isWordAt text i
    if edge != inverted then [i] else []
  | .seq a b, i => unique ((a.ends text i).flatMap (b.ends text))
  | .either a b, i => unique (a.ends text i ++ b.ends text i)
  | .times r least most, i =>
    let rounds := match most with
      | some m => m - least
      | none => text.size
    within (r.ends text) rounds (exactly (r.ends text) least [i])

/-- Some part of the text matches. -/
def isMatch (r : Regex) (s : String) : Bool :=
  let text := s.toList.toArray
  (List.range (text.size + 1)).any fun i => !(r.ends text i).isEmpty

/-- A regular expression read off the front, and the rest. -/
abbrev Parsed := Option (Regex × List Char)

/-- The value of `n` hexadecimal digits in front. -/
def takeHex : Nat → Nat → List Char → Option (Nat × List Char)
  | 0, value, cs => some (value, cs)
  | n + 1, value, c :: cs => (Text.hexDigit? c).bind fun d => takeHex n (value * 16 + d) cs
  | _ + 1, _, [] => none

/-- The ranges that an escape stands for, after its backslash. -/
def escapeRanges : List Char → Option (List (Nat × Nat) × List Char)
  | [] => none
  | c :: cs =>
    let single (n : Nat) : Option (List (Nat × Nat) × List Char) := some ([(n, n)], cs)
    match c with
    | 'd' => some (digitRanges, cs)
    | 'D' => some (complement digitRanges, cs)
    | 'w' => some (wordRanges, cs)
    | 'W' => some (complement wordRanges, cs)
    | 's' => some (spaceRanges, cs)
    | 'S' => some (complement spaceRanges, cs)
    | 't' => single 9
    | 'n' => single 10
    | 'v' => single 11
    | 'f' => single 12
    | 'r' => single 13
    | 'x' => (takeHex 2 0 cs).map fun r => ([(r.1, r.1)], r.2)
    | 'u' => (takeHex 4 0 cs).map fun r => ([(r.1, r.1)], r.2)
    | c => if c.isAlphanum then none else single c.toNat

/-- One element of a class: a character or an escape. -/
def classElement : List Char → Option (List (Nat × Nat) × List Char)
  | [] => none
  | '\\' :: cs => escapeRanges cs
  | c :: cs => some ([(c.toNat, c.toNat)], cs)

/-- The elements of a class up to its bracket. -/
def classRanges : Nat → List (Nat × Nat) → List Char → Option (List (Nat × Nat) × List Char)
  | 0, _, _ => none
  | _ + 1, acc, ']' :: cs => some (acc, cs)
  | fuel + 1, acc, cs =>
    (classElement cs).bind fun (low, rest) =>
      match low, rest with
      | [(a, _)], '-' :: c :: after =>
        if c = ']' then classRanges fuel (low ++ acc) rest
        else (classElement (c :: after)).bind fun (high, rest) =>
          match high with
          | [(_, b)] => if a ≤ b then classRanges fuel ((a, b) :: acc) rest else none
          | _ => none
      | _, _ => classRanges fuel (low ++ acc) rest

/-- The digits in front as a number. -/
def takeNumber (cs : List Char) : Option (Nat × List Char) :=
  let ds := cs.takeWhile Char.isDigit
  if ds.isEmpty then none
  else some (ds.foldl (fun n d => n * 10 + (d.toNat - 48)) 0, cs.dropWhile Char.isDigit)

/-- The bounds of a counted repetition, after its opening brace. -/
def takeBounds (cs : List Char) : Option ((Nat × Option Nat) × List Char) :=
  (takeNumber cs).bind fun (least, rest) =>
    match rest with
    | '\x7d' :: rest => some ((least, some least), rest)
    | ',' :: '\x7d' :: rest => some ((least, none), rest)
    | ',' :: rest =>
      (takeNumber rest).bind fun (most, rest) =>
        match rest with
        | '\x7d' :: rest => if least ≤ most then some ((least, some most), rest) else none
        | _ => none
    | _ => none

/-- A mark of reluctance changes which match is found first, not whether there is one. -/
def dropReluctance : List Char → List Char
  | '?' :: cs => cs
  | cs => cs

/-- The repetition that follows `r`. -/
def repeated (r : Regex) : List Char → Parsed
  | '*' :: cs => some (.times r 0 none, dropReluctance cs)
  | '+' :: cs => some (.times r 1 none, dropReluctance cs)
  | '?' :: cs => some (.times r 0 (some 1), dropReluctance cs)
  | '\x7b' :: cs =>
    (takeBounds cs).map fun ((least, most), rest) => (.times r least most, dropReluctance rest)
  | cs => some (r, cs)

/-- Something to be repeated; `group` reads what stands in brackets. -/
def atom (group : List Char → Parsed) : List Char → Parsed
  | '^' :: cs => some (.atStart, cs)
  | '$' :: cs => some (.atEnd, cs)
  | '.' :: cs => some (.one true [(10, 10)], cs)
  | '\\' :: 'b' :: cs => some (.atEdge false, cs)
  | '\\' :: 'B' :: cs => some (.atEdge true, cs)
  | '\\' :: cs => (escapeRanges cs).map fun (ranges, rest) => (.one false ranges, rest)
  | '[' :: '^' :: cs =>
    (classRanges (cs.length + 1) [] cs).map fun (rs, rest) => (.one true rs, rest)
  | '[' :: cs => (classRanges (cs.length + 1) [] cs).map fun (rs, rest) => (.one false rs, rest)
  | '(' :: '?' :: ':' :: cs => group cs
  | '(' :: '?' :: _ => none
  | '(' :: cs => group cs
  | c :: cs => if "*+?)\x7b".contains c then none else some (.one false [(c.toNat, c.toNat)], cs)
  | [] => none

/-- What follows `r` up to a bar, a closing bracket or the end. -/
def sequence (group : List Char → Parsed) : Nat → Regex → List Char → Parsed
  | 0, _, _ => none
  | fuel + 1, r, cs =>
    match cs with
    | [] => some (r, [])
    | c :: _ =>
      if c = '|' || c = ')' then some (r, cs)
      else do
        let (a, rest) ← atom group cs
        let (a, rest) ← repeated a rest
        sequence group fuel (.seq r a) rest

/-- What stands in brackets, read by `inner`, and the closing bracket. -/
def bracketed (inner : List Char → Parsed) (cs : List Char) : Parsed :=
  match inner cs with
  | some (r, ')' :: rest) => some (r, rest)
  | _ => none

/-- Alternatives up to a closing bracket or the end. -/
def alternatives : Nat → List Char → Parsed
  | 0, _ => none
  | fuel + 1, cs =>
    match sequence (bracketed (alternatives fuel)) (cs.length + 1) .nothing cs with
    | some (r, '|' :: rest) => (alternatives fuel rest).map fun (s, rest) => (.either r s, rest)
    | other => other

def parse (s : String) : Option Regex :=
  match alternatives (s.length + 1) s.toList with
  | some (r, []) => some r
  | _ => none

end Regex

/-- A regular expression with the text that it was read from. -/
structure Pattern where
  text : String
  regex : Regex

def Pattern.parse (s : String) : Option Pattern :=
  (Regex.parse s).map fun r => ⟨s, r⟩

def Pattern.isMatch (p : Pattern) (s : String) : Bool :=
  p.regex.isMatch s

end Catalog.Schema
