import Catalog.Schema.Check
import Catalog.Schema.Compile
import Catalog.Schema.Pointer

/-!
Contracts: a schema together with the schemas that it refers to in its own document. References are
followed while a value is checked. Each chain of references at one part of a value is at most as
long as there are targets, unless it leads back to itself, so a budget that grows with the depth of
the value is enough.
-/

namespace Catalog

namespace Schema

mutual

/-- The references that may be followed while a value is checked. -/
def refs : Schema → List String
  | .every rules => refsEvery rules
  | .properties known => refsNamed known
  | .patternProperties matching => refsMatching matching
  | .others known matching rest => refsNamed known ++ refsMatching matching ++ refs rest
  | .closed known matching _ => refsNamed known ++ refsMatching matching
  | .propertyNames s => refs s
  | .items _ s => refs s
  | .prefixItems ss => refsEvery ss
  | .contains s _ _ => refs s
  | .dependentSchemas known => refsNamed known
  | .allOf ss => refsEvery ss
  | .anyOf ss => refsEvery ss
  | .oneOf ss => refsEvery ss
  | .not _ s => refs s
  | .conditional condition consequence alternative =>
    refs condition ++ refs consequence ++ refs alternative
  | .ref pointer => [pointer]
  -- What stands beside these rules has been listed on its own.
  | .unevaluatedItems _ s => refs s
  | .unevaluatedProperties _ s => refs s
  | _ => []

def refsEvery : List Schema → List String
  | [] => []
  | s :: ss => refs s ++ refsEvery ss

def refsNamed : List (String × Schema) → List String
  | [] => []
  | (_, s) :: known => refs s ++ refsNamed known

def refsMatching : List (Pattern × Schema) → List String
  | [] => []
  | (_, s) :: matching => refs s ++ refsMatching matching

end

/-- Keywords that hold references. -/
def referenceKeywords : List String :=
  ["$ref", "$dynamicRef"]

mutual

/-- How many references stand anywhere in a document. -/
def refCount : Json → Nat
  | .array vs => refCountItems vs
  | .object ms => refCountMembers ms
  | _ => 0

def refCountItems : List Json → Nat
  | [] => 0
  | v :: vs => refCount v + refCountItems vs

def refCountMembers : List (String × Json) → Nat
  | [] => 0
  | (k, v) :: ms => (if referenceKeywords.contains k then 1 else 0) + refCount v + refCountMembers ms

end

/-- Keywords by which a document tells its name and its draft. -/
def headKeywords : List String :=
  ["$id", "$schema"]

/-- The members tell a name or a draft, as those of a document do. -/
def isHeaded (members : Entries Json) : Bool :=
  members.any fun e => headKeywords.contains e.1 && e.2.shape = .string

mutual

/-- The value, or a part of it, is headed. -/
def holdsDocument : Json → Bool
  | .array vs => itemsHoldDocument vs
  | .object ms => isHeaded ms || membersHoldDocument ms
  | _ => false

def itemsHoldDocument : List Json → Bool
  | [] => false
  | v :: vs => holdsDocument v || itemsHoldDocument vs

def membersHoldDocument : List (String × Json) → Bool
  | [] => false
  | (_, v) :: ms => holdsDocument v || membersHoldDocument ms

end

/-- Nothing in the document is a document of its own, in which references would lead elsewhere or
keywords say something else. -/
def isSingle : Json → Bool
  | .object ms => !membersHoldDocument ms
  | _ => true

end Schema

structure Contract where
  root : Schema
  /-- The referenced schemas by their references. -/
  targets : List (String × Schema)

namespace Contract

/-- Adds the targets of `pending`, and then those that they refer to in turn. Every round that adds
a target takes a reference of the document that was not there before. -/
def collect (draft : Draft) (document : Json) :
    Nat → List (String × Schema) → List String → Option (List (String × Schema))
  | 0, targets, _ => some targets
  | fuel + 1, targets, pending =>
    match pending.filter fun p => (targets.lookup p).isNone with
    | [] => some targets
    | p :: rest => do
      let s ← Schema.ofJson? draft (← Schema.Pointer.resolve? document p)
      collect draft document fuel ((p, s) :: targets) (rest ++ s.refs)

/-- The contract of a document, if it is a schema of a known draft and all its references lead to
schemas. Documents in documents are not followed up. -/
def ofDocument? (document : Json) : Option Contract := do
  let draft ← Draft.ofDocument? document
  if Schema.isSingle document then
    let root ← Schema.ofJson? draft document
    let targets ← collect draft document (Schema.refCount document + 1) [] root.refs
    return ⟨root, targets⟩
  else none

/-- What the target of a reference finds and evaluates, where at most so many references are followed
in turn. -/
def follow (c : Contract) : Nat → Schema.Followed
  | 0 => ⟨fun p _ => [.endless p], fun _ _ _ => false⟩
  | budget + 1 =>
    { issues p v :=
        match c.targets.lookup p with
        | some s => s.issues (c.follow budget) v
        | none => []
      evaluates p v part :=
        match c.targets.lookup p with
        | some s => s.evaluates (c.follow budget) v part
        | none => false }

def issues (c : Contract) (v : Json) : List Issue :=
  c.root.issues (c.follow ((v.depth + 1) * (c.targets.length + 1))) v

end Contract
end Catalog
