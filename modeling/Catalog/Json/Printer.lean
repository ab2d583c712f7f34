import Catalog.Json.Basic

/-!
JSON texts of values. Members are written in the order in which the value holds them. Only the
characters that JSON requires to be escaped are escaped.
-/

namespace Catalog.Json

/-- How one character is written inside a JSON string. -/
def escaped (c : Char) : List Char :=
  if c = '"' then ['\\', '"']
  else if c = '\\' then ['\\', '\\']
  else if c = '\x08' then ['\\', 'b']
  else if c = '\x0c' then ['\\', 'f']
  else if c = '\n' then ['\\', 'n']
  else if c = '\r' then ['\\', 'r']
  else if c = '\t' then ['\\', 't']
  else if c.toNat < 0x20 then
    ['\\', 'u', '0', '0', Nat.digitChar (c.toNat / 16), Nat.digitChar (c.toNat % 16)]
  else [c]

def textChars (s : String) : List Char :=
  '"' :: s.toList.flatMap escaped ++ ['"']

mutual

/-- The compact text: no space between the lexemes. -/
def chars : Json → List Char
  | .null => ['n', 'u', 'l', 'l']
  | .bool true => ['t', 'r', 'u', 'e']
  | .bool false => ['f', 'a', 'l', 's', 'e']
  | .number n => n.text.toList
  | .string s => textChars s
  | .array items => '[' :: charsItems items
  | .object members => '\x7b' :: charsMembers members

/-- The items of an array and the bracket that closes it. -/
def charsItems : List Json → List Char
  | [] => [']']
  | [v] => v.chars ++ [']']
  | v :: w :: vs => v.chars ++ ',' :: charsItems (w :: vs)

def charsMembers : List (String × Json) → List Char
  | [] => ['\x7d']
  | [(k, v)] => textChars k ++ ':' :: v.chars ++ ['\x7d']
  | (k, v) :: m :: ms => textChars k ++ ':' :: v.chars ++ ',' :: charsMembers (m :: ms)

end

/-- The compact text of a value. -/
def compact (v : Json) : String :=
  String.ofList v.chars

/-- A text as a JSON string. -/
def quoted (s : String) : String :=
  String.ofList (textChars s)

def newline (indent : Nat) : String :=
  "\n" ++ String.ofList (List.replicate indent ' ')

mutual

/-- The text with one item or member a line, each level two columns further in. -/
def pretty (indent : Nat) : Json → String
  | .array [] => "[]"
  | .array items =>
    "[" ++ ",".intercalate (prettyItems (indent + 2) items) ++ newline indent ++ "]"
  | .object [] => "\x7b\x7d"
  | .object members =>
    "\x7b" ++ ",".intercalate (prettyMembers (indent + 2) members) ++ newline indent ++ "\x7d"
  | v => v.compact

def prettyItems (indent : Nat) : List Json → List String
  | [] => []
  | v :: vs => (newline indent ++ v.pretty indent) :: prettyItems indent vs

def prettyMembers (indent : Nat) : List (String × Json) → List String
  | [] => []
  | (k, v) :: ms =>
    (newline indent ++ quoted k ++ ": " ++ v.pretty indent) :: prettyMembers indent ms

end

end Catalog.Json
