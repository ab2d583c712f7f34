import Catalog.Json.Basic
import Catalog.Text.Hex
import Catalog.Text.Split

/-!
Pointers into the document that a reference stands in: `#` is the whole document, and `#/$defs/name`
leads to a member of a member. In a step, `~1` stands for a slash and `~0` for a tilde, and any byte
may be given by its two hexadecimal digits after a percent sign.
-/

namespace Catalog.Schema.Pointer

/-- The bytes of a fragment with its percent escapes undone. -/
def percentDecoded : List Char → List UInt8
  | '%' :: a :: b :: cs =>
    match Text.hexDigit? a, Text.hexDigit? b with
    | some x, some y => UInt8.ofNat (x * 16 + y) :: percentDecoded cs
    | _, _ => '%'.toUInt8 :: percentDecoded (a :: b :: cs)
  | c :: cs => (String.singleton c).toUTF8.toList ++ percentDecoded cs
  | [] => []

/-- A step with its tilde escapes undone. -/
def unescape : List Char → List Char
  | '~' :: '1' :: cs => '/' :: unescape cs
  | '~' :: '0' :: cs => '~' :: unescape cs
  | c :: cs => c :: unescape cs
  | [] => []

/-- The steps of a pointer, each after a slash. -/
def steps (cs : List Char) : Option (List String) :=
  match cs with
  | [] => some []
  | '/' :: cs => some ((Text.splitChars '/' cs).map fun p => String.ofList (unescape p))
  | _ => none

/-- A fragment as text; without a percent sign it is what it stands for. -/
def fragmentChars (cs : List Char) : Option (List Char) :=
  if cs.contains '%' then (String.fromUTF8? ⟨(percentDecoded cs).toArray⟩).map String.toList
  else some cs

/-- The position that a step names: its digits, and nothing between them. -/
def index? (step : String) : Option Nat :=
  if step.all Char.isDigit then step.toNat? else none

/-- The part of a value that a step leads to. -/
def part? (v : Json) (step : String) : Option Json :=
  match v with
  | .object members => members.lookup step
  | .array vs => (index? step).bind fun i => vs[i]?
  | _ => none

/-- The part of `root` that the reference names, if it names one there. -/
def resolve? (root : Json) (reference : String) : Option Json :=
  match reference.toList with
  | '#' :: fragment => do
    (← steps (← fragmentChars fragment)).foldlM part? root
  | _ => none

end Catalog.Schema.Pointer
