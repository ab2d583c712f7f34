import Catalog.Request.Error

/-!
Why a JSON value does not fit the form of a type.
-/

namespace Catalog

/-- The front of a value that does not fit. -/
inductive Found where
  | null
  | boolean (b : Bool)
  | integer (n : Int)
  | floating (x : Double)
  | text (s : String)
  | sequence
  | map
deriving DecidableEq

namespace Found

def ofJson : Json → Found
  | .null => .null
  | .bool b => .boolean b
  | .number (.int n) => .integer n
  | .number (.double x) => .floating x
  | .string s => .text s
  | .array _ => .sequence
  | .object _ => .map

def phrase : Found → String
  | .null => "null"
  | .boolean b => "boolean `" ++ toString b ++ "`"
  | .integer n => "integer `" ++ toString n ++ "`"
  | .floating x => "floating point `" ++ x.text ++ "`"
  | .text s => "string " ++ Text.quote s
  | .sequence => "sequence"
  | .map => "map"

end Found

/-- What a form asks for at some place. -/
inductive Expected where
  | text
  | sequence
  | textMap
  | record (name : String)
  | choice
  | choiceName
  | nothing
deriving DecidableEq

def Expected.phrase : Expected → String
  | .text => "a string"
  | .sequence => "a sequence"
  | .textMap => "a map of strings"
  | .record name => "struct " ++ name
  | .choice => "string or map"
  | .choiceName => "variant identifier"
  | .nothing => "unit"

inductive Misfit where
  | wrongType (found : Found) (expected : Expected)
  /-- An array that stands for a record ends before the last field. -/
  | tooShort (length : Nat) (record : String) (fields : Nat)
  | tooLong (length : Nat)
  | unknownField (name : String) (known : List String)
  | duplicateField (name : String)
  | missingField (name : String)
  | duplicateKey (key : String)
  | unknownChoice (name : String) (known : List String)
  /-- An object that names a choice has another number of members than one. -/
  | manyChoices
  | refused (e : RequestError)
deriving DecidableEq

/-- A list of names as the alternatives to an unknown one. -/
def Misfit.alternatives (names : List String) : String :=
  match names.map fun n => "`" ++ n ++ "`" with
  | [] => "there are none"
  | [a] => "expected " ++ a
  | [a, b] => "expected " ++ a ++ " or " ++ b
  | all => "expected one of " ++ ", ".intercalate all

def Misfit.message : Misfit → String
  | .wrongType found expected =>
    "invalid type: " ++ found.phrase ++ ", expected " ++ expected.phrase
  | .tooShort length record fields =>
    "invalid length " ++ toString length ++ ", expected struct " ++ record ++ " with "
      ++ toString fields ++ " elements"
  | .tooLong length => "invalid length " ++ toString length ++ ", expected fewer elements in array"
  | .unknownField name known => "unknown field `" ++ name ++ "`, " ++ alternatives known
  | .duplicateField name => "duplicate field `" ++ name ++ "`"
  | .missingField name => "missing field `" ++ name ++ "`"
  | .duplicateKey key => "duplicate key " ++ Text.quote key
  | .unknownChoice name known => "unknown variant `" ++ name ++ "`, " ++ alternatives known
  | .manyChoices => "invalid value: map, expected map with a single key"
  | .refused e => e.message

/-- Why a text does not stand for a value of a form: it is no JSON, or JSON that does not fit. -/
inductive Fault where
  | unread (e : Json.ReadError)
  | misfit (m : Misfit)
deriving DecidableEq

end Catalog
