/-!
Cutting texts at the occurrences of a character, and putting lines together.
-/

namespace Catalog.Text

/-- The text before the first `c` and the text after it, or none without a `c`. -/
def splitFirst? (c : Char) (s : String) : Option (String × String) :=
  match s.toList.dropWhile (· ≠ c) with
  | [] => none
  | _ :: after => some (String.ofList (s.toList.takeWhile (· ≠ c)), String.ofList after)

/-- The parts of a text between the occurrences of `c`; there is always at least one. -/
def splitChars (c : Char) : List Char → List (List Char)
  | [] => [[]]
  | d :: cs =>
    if d = c then [] :: splitChars c cs
    else
      match splitChars c cs with
      | [] => [[d]]
      | part :: parts => (d :: part) :: parts

def split (c : Char) (s : String) : List String :=
  (splitChars c s.toList).map String.ofList

/-- The characters of lines, with a line break between each two. -/
def joinLines : List String → List Char
  | [] => []
  | [line] => line.toList
  | line :: lines => line.toList ++ '\n' :: joinLines lines

/-- The text without `ending` at its end, if it stands there. -/
def dropEnding? (ending s : String) : Option String :=
  if ending.toList.isSuffixOf s.toList then
    some (String.ofList (s.toList.take (s.toList.length - ending.toList.length)))
  else none

end Catalog.Text
