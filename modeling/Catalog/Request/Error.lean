import Catalog.Field
import Catalog.Json.Basic
import Catalog.Json.Source
import Catalog.Request.Kind
import Catalog.Text.Quoted

/-!
Why something is no request. A violation blames one place of a request; a mismatch says that a value
has not the shape of any request.
-/

namespace Catalog

/-- What is wrong at a place. -/
inductive Reason where
  | empty
  | emptyKey
  | tooLong (length max : Nat)
  | forbidden (c : Char)
  | unqualified (text : String)
  | alsoUpdated (key : String)
  | sameAsSource (source : String)
  | repeatedField
  | missing
  | duplicateKey (key : String)
  | unknownField
  | wrongShape (expected found : Json.Shape)
deriving DecidableEq

/-- A shape with its article. -/
def Json.Shape.phrase : Json.Shape → String
  | .array => "an array"
  | .object => "an object"
  | s => "a " ++ s.name

def Reason.message : Reason → String
  | .empty => "must not be empty"
  | .emptyKey => "keys must not be empty"
  | .tooLong length max => "name is " ++ toString length ++ " characters, max " ++ toString max
  | .forbidden c => "name contains forbidden character " ++ Text.quoteChar c
  | .unqualified text => "expected <database>.<object>, got " ++ Text.quote text
  | .alsoUpdated key => "key " ++ Text.quote key ++ " is also in updates"
  | .sameAsSource source => "same as source " ++ source
  | .repeatedField => "given more than once"
  | .missing => "missing"
  | .duplicateKey key => "duplicate key " ++ Text.quote key
  | .unknownField => "unknown field"
  | .wrongShape expected found => "expected " ++ expected.phrase ++ ", found " ++ found.name

structure Violation where
  field : Field
  reason : Reason
deriving DecidableEq

def Violation.message (v : Violation) : String :=
  "invalid " ++ v.field.text ++ ": " ++ v.reason.message

inductive Mismatch where
  | notObject (found : Json.Shape)
  | unknownFields (names : List String)
  | unknownKind (name : String)
  | otherKind (expected found : Kind)
deriving DecidableEq

def Mismatch.message : Mismatch → String
  | .notObject found => "expected a JSON object, found " ++ found.name
  | .unknownFields names => "no request has fields [" ++ ", ".intercalate names ++ "]"
  | .unknownKind name => "unknown request kind " ++ Text.quote name
  | .otherKind expected found => "expected a " ++ expected.name ++ " body, found " ++ found.name

inductive RequestError where
  | violation (v : Violation)
  | mismatch (m : Mismatch)
  | unread (e : Json.ReadError)
deriving DecidableEq

def RequestError.message : RequestError → String
  | .violation v => v.message
  | .mismatch m => "not a catalog request: " ++ m.message
  | .unread e => "request body is not valid JSON: " ++ e.message

/-- Reads a kind by its name. -/
def Kind.parse (s : String) : Except Mismatch Kind :=
  match Kind.ofName? s with
  | some k => .ok k
  | none => .error (.unknownKind s)

end Catalog
