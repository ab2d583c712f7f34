import Catalog.Json.Source
import Catalog.Text.Hex

/-!
The inside of a JSON string, read one unit at a time. An escape `\u` names a code unit of UTF-16, so
a character beyond the basic plane takes two of them: a high surrogate and then a low one. A string
that stands in for a value must be well-formed to the end; a string that is only skipped may hold a
surrogate without its partner.
-/

namespace Catalog.Json

/-- Where in a string the reader is. -/
inductive TextState where
  | plain
  /-- After a backslash. -/
  | escape
  /-- In the four digits of `\u`, after `count` of them with the value `value`. -/
  | code (high : Option Nat) (count value : Nat)
  /-- After a high surrogate, where `\u` must follow; `started` says that the backslash has been
  read. -/
  | partner (high : Nat) (started : Bool)
deriving DecidableEq

def isHigh (n : Nat) : Bool :=
  0xD800 ≤ n && n ≤ 0xDBFF

def isLow (n : Nat) : Bool :=
  0xDC00 ≤ n && n ≤ 0xDFFF

/-- The character that an escape of one letter stands for. -/
def escapeChar? (c : Char) : Option Char :=
  if c = '"' || c = '\\' || c = '/' then some c
  else if c = 'b' then some '\x08'
  else if c = 'f' then some '\x0c'
  else if c = 'n' then some '\n'
  else if c = 'r' then some '\r'
  else if c = 't' then some '\t'
  else none

/-- What follows the last digit of `\u`: the next state and the character that is now complete. -/
def closeCode (paired : Bool) (high : Option Nat) (n : Nat) :
    Except ReadError (TextState × Option Char) :=
  match high with
  | some h =>
    if isLow n then .ok (.plain, some (Char.ofNat (0x10000 + (h - 0xD800) * 0x400 + (n - 0xDC00))))
    else .error .malformed
  | none =>
    if !paired then .ok (.plain, none)
    else if isLow n then .error .malformed
    else if isHigh n then .ok (.partner n false, none)
    else .ok (.plain, some (Char.ofNat n))

/-- One step from the unit `u`, before `rest`. With fewer than four bytes left for the digits of
`\u` the text ends too early, whatever they are. -/
def TextState.next (paired : Bool) (u : Option Char) (rest : Source) :
    TextState → Except ReadError (TextState × Option Char)
  | .plain =>
    match u with
    | none => .ok (.plain, none)
    | some c =>
      if c = '\\' then .ok (.escape, none)
      else if c.toNat < 0x20 then .error .malformed
      else .ok (.plain, some c)
  | .escape =>
    if u = some 'u' then .ok (.code none 0 0, none)
    else match u.bind escapeChar? with
      | some c => .ok (.plain, some c)
      | none => .error .malformed
  | .code high count value =>
    match u.bind Text.hexDigit? with
    | some d =>
      if count = 3 then closeCode paired high (value * 16 + d)
      else .ok (.code high (count + 1) (value * 16 + d), none)
    | none =>
      if count + Source.byteCount ((u :: rest).take 4) < 4 then .error .unfinished
      else .error .malformed
  | .partner high false =>
    if u = some '\\' then .ok (.partner high true, none) else .error .malformed
  | .partner high true =>
    if u = some 'u' then .ok (.code (some high) 0 0, none) else .error .malformed

/-- The rest of a string up to its closing quote. The characters read so far stand in `acc`, last
first; `clean` says that no unit so far was without a character, and is asked for when the string
closes. -/
def textRest (paired : Bool) (state : TextState) (acc : List Char) (clean : Bool) :
    Source → Except ReadError (String × Source)
  | [] => .error .unfinished
  | u :: rest =>
    if state = .plain && u = some '"' then
      if clean then .ok (String.ofList acc.reverse, rest) else .error .malformed
    else
      match state.next paired u rest with
      | .error e => .error e
      | .ok (state, out) =>
        textRest paired state (out.elim acc (· :: acc)) (clean && u.isSome) rest

/-- A string after its opening quote. -/
def readText (paired : Bool) : Reader ReadError String :=
  textRest paired .plain [] true

end Catalog.Json
