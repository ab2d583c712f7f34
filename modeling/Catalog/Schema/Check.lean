import Catalog.Schema.Issue

/-!
Checking values against schemas. Every rule is checked, and the issues stand in the order of the
rules and then in the order of the value. A value is valid when it has no issues. What is left over
by all other rules can have a rule of its own, so it counts as well which parts of a value a schema
evaluates.
-/

namespace Catalog

namespace Assertion

/-- One issue if the condition fails. -/
def ensure (holds : Bool) (issue : Issue) : List Issue :=
  if holds then [] else [issue]

/-- No two of the values agree. -/
def allDistinct : List Json → Bool
  | [] => true
  | x :: xs => !xs.any x.agrees && allDistinct xs

def issues (a : Assertion) (v : Json) : List Issue :=
  match a, v with
  | .type names, v => ensure (names.any (·.admits v)) (.wrongType v names)
  | .const c, v => ensure (c.agrees v) (.notConst c)
  | .enum options, v => ensure (options.any (·.agrees v)) (.notInEnum v options)
  | .bound b limit, .number n => ensure (b.holds limit n) (.outOfBounds v b limit)
  | .minLength n, .string s => ensure (n ≤ s.length) (.shorter v n)
  | .maxLength n, .string s => ensure (s.length ≤ n) (.longer v n)
  | .minItems n, .array items => ensure (n ≤ items.length) (.fewerItems v n)
  | .maxItems n, .array items => ensure (items.length ≤ n) (.moreItems v n)
  | .minProperties n, .object members => ensure (n ≤ members.length) (.fewerMembers v n)
  | .maxProperties n, .object members => ensure (members.length ≤ n) (.moreMembers v n)
  | .uniqueItems, .array items => ensure (allDistinct items) (.repeatedItems v)
  | .dependentRequired names, .object members =>
    names.flatMap fun (name, others) =>
      if (members.lookup name).isSome then
        others.flatMap fun other => ensure (members.lookup other).isSome (.missing other)
      else []
  | .required names, .object members =>
    names.flatMap fun name => ensure (members.lookup name).isSome (.missing name)
  | .pattern p, .string s => ensure (p.isMatch s) (.noMatch v p.text)
  | _, _ => []

end Assertion

/-- A part of a value: a member of an object by its name, or an item of an array by its place. -/
inductive Part where
  | member (name : String)
  | item (index : Nat)

namespace Schema

/-- What references lead to: the issues that a referenced schema finds, and the parts that it
evaluates. -/
structure Followed where
  issues : String → Json → List Issue
  evaluates : String → Json → Part → Bool

/-- The name stands among the known ones, or matches. -/
def isListed (known : List (String × Schema)) (matching : List (Pattern × Schema)) (name : String) :
    Bool :=
  (known.lookup name).isSome || matching.any fun m => m.1.isMatch name

/-- The names of the members that are neither known nor match. -/
def unexpectedNames (known : List (String × Schema)) (matching : List (Pattern × Schema))
    (members : Entries Json) : List String :=
  (Entries.keys members).filter fun k =>
    (known.lookup k).isNone && matching.all fun m => !m.1.isMatch k

/-- A name stands among the known ones and among the members. -/
def isPresent (known : List (String × Schema)) (members : Entries Json) (name : String) : Bool :=
  (known.lookup name).isSome && (members.lookup name).isSome

section
variable (follow : Followed)

mutual

/-- The issues of a value, where `follow` says what references lead to. -/
def issues : Schema → Json → List Issue
  | .anything, _ => []
  | .nothing, v => [.refused v]
  | .every rules, v => issuesEvery rules v
  | .assert a, v => a.issues v
  | .properties known, .object members => issuesKnown known members
  | .patternProperties matching, .object members => issuesByPattern matching members
  | .others known matching rest, .object members =>
    members.flatMap fun (k, x) =>
      issuesNamed known k x ++ issuesMatching matching k x ++
        if (known.lookup k).isNone && matching.all (fun m => !m.1.isMatch k) then issues rest x
        else []
  | .closed known matching single, .object members =>
    (members.flatMap fun (k, x) => issuesNamed known k x ++ issuesMatching matching k x) ++
      (let names := unexpectedNames known matching members
       if names.isEmpty then [] else [.unexpected names]) ++
      single.elim [] fun name =>
        if isPresent known members name then [] else [.missing name]
  | .memberless, .object ((_, x) :: _) => [.refused x]
  | .propertyNames .nothing, .object members =>
    if members.isEmpty then [] else [.refused (.object members)]
  | .propertyNames s, .object members => members.flatMap fun (k, _) => issues s (.string k)
  | .items start s, .array xs => (xs.drop start).flatMap fun x => issues s x
  | .prefixItems ss, .array xs => issuesPairwise ss xs
  | .contains s least most, .array xs =>
    let count := xs.countP fun x => (issues s x).isEmpty
    if least ≤ count && most.all (count ≤ ·) then [] else [.noneContained (.array xs)]
  | .dependentSchemas known, .object members => issuesDependent known members
  | .allOf ss, v => issuesEvery ss v
  | .anyOf ss, v => if validCount ss v = 0 then [.noneOf v "anyOf"] else []
  | .oneOf ss, v =>
    match validCount ss v with
    | 0 => [.noneOf v "oneOf"]
    | 1 => []
    | _ => [.manyOf v]
  | .not source s, v => if (issues s v).isEmpty then [.excluded source v] else []
  | .conditional condition consequence alternative, v =>
    if (issues condition v).isEmpty then issues consequence v else issues alternative v
  | .ref pointer, v => follow.issues pointer v
  | .unevaluatedItems beside s, .array xs =>
    let left := xs.zipIdx.filter fun (x, i) =>
      !evaluatesAny beside (.array xs) (.item i) && !(issues s x).isEmpty
    if left.isEmpty then [] else [.unevaluatedItems (left.map Prod.fst)]
  | .unevaluatedProperties beside s, .object members =>
    let left := members.filter fun (k, x) =>
      !evaluatesAny beside (.object members) (.member k) && !(issues s x).isEmpty
    if left.isEmpty then [] else [.unevaluatedMembers (left.map Prod.fst)]
  | _, _ => []

def issuesEvery : List Schema → Json → List Issue
  | [], _ => []
  | s :: ss, v => issues s v ++ issuesEvery ss v

/-- The issues of the known members that are present. -/
def issuesKnown : List (String × Schema) → Entries Json → List Issue
  | [], _ => []
  | (k, s) :: known, members =>
    (match members.lookup k with
      | some x => issues s x
      | none => []) ++ issuesKnown known members

/-- The issues of the member `k` by the schemas of its name. -/
def issuesNamed : List (String × Schema) → String → Json → List Issue
  | [], _, _ => []
  | (l, s) :: known, k, x => (if l = k then issues s x else []) ++ issuesNamed known k x

/-- The issues of the member `k` by the schemas whose patterns its name matches. -/
def issuesMatching : List (Pattern × Schema) → String → Json → List Issue
  | [], _, _ => []
  | (p, s) :: matching, k, x =>
    (if p.isMatch k then issues s x else []) ++ issuesMatching matching k x

def issuesByPattern : List (Pattern × Schema) → Entries Json → List Issue
  | [], _ => []
  | (p, s) :: matching, members =>
    (members.flatMap fun (k, x) => if p.isMatch k then issues s x else []) ++
      issuesByPattern matching members

def issuesPairwise : List Schema → List Json → List Issue
  | s :: ss, x :: xs => issues s x ++ issuesPairwise ss xs
  | _, _ => []

/-- The issues of the whole object by the schemas of the members that are present. -/
def issuesDependent : List (String × Schema) → Entries Json → List Issue
  | [], _ => []
  | (k, s) :: known, members =>
    (if (members.lookup k).isSome then issues s (.object members) else []) ++
      issuesDependent known members

/-- How many of the schemas accept the value. -/
def validCount : List Schema → Json → Nat
  | [], _ => 0
  | s :: ss, v => (if (issues s v).isEmpty then 1 else 0) + validCount ss v

/-- The schema has something to say of the part. Schemas that are applied to the same value pass
this on, and those that only some values keep do so if the value keeps them. -/
def evaluates : Schema → Json → Part → Bool
  | .every rules, v, p => evaluatesAny rules v p
  | .properties known, .object _, .member k => isListed known [] k
  | .patternProperties matching, .object _, .member k => isListed [] matching k
  | .others known matching rest, .object members, .member k =>
    isListed known matching k || (members.lookup k).any fun x => (issues rest x).isEmpty
  | .closed known matching _, .object _, .member k => isListed known matching k
  | .items start _, .array _, .item i => start ≤ i
  | .prefixItems ss, .array _, .item i => i < ss.length
  | .contains s _ _, .array xs, .item i => xs[i]?.any fun x => (issues s x).isEmpty
  | .dependentSchemas known, .object members, p => evaluatesDependent known members p
  | .allOf ss, v, p => evaluatesAny ss v p
  | .anyOf ss, v, p => evaluatesValid ss v p
  | .oneOf ss, v, p => evaluatesValid ss v p
  | .conditional condition consequence alternative, v, p =>
    if (issues condition v).isEmpty then evaluates condition v p || evaluates consequence v p
    else evaluates alternative v p
  | .ref pointer, v, p => follow.evaluates pointer v p
  | .unevaluatedItems _ _, .array _, .item _ => true
  | .unevaluatedProperties _ _, .object _, .member _ => true
  | _, _, _ => false

def evaluatesAny : List Schema → Json → Part → Bool
  | [], _, _ => false
  | s :: ss, v, p => evaluates s v p || evaluatesAny ss v p

/-- One of the schemas that the value keeps evaluates the part. -/
def evaluatesValid : List Schema → Json → Part → Bool
  | [], _, _ => false
  | s :: ss, v, p => (issues s v).isEmpty && evaluates s v p || evaluatesValid ss v p

/-- The schema of a member that is there evaluates the part of the whole object. -/
def evaluatesDependent : List (String × Schema) → Entries Json → Part → Bool
  | [], _, _ => false
  | (k, s) :: known, members, p =>
    (members.lookup k).isSome && evaluates s (.object members) p ||
      evaluatesDependent known members p

end

end

end Schema
end Catalog
