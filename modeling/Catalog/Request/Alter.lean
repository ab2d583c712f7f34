import Catalog.KeyMap
import Catalog.Request.Error

/-!
Requests to alter the properties of a database, and what they do to a property map. Removals may
repeat and may name keys that the database does not have; no key is both removed and updated.
-/

namespace Catalog

structure AlterDatabase where
  removals : List String
  updates : KeyMap String
  keys_ne : (∀ k ∈ removals, k ≠ "") ∧ updates.contains "" = false
  disjoint : ∀ k ∈ removals, updates.contains k = false
deriving DecidableEq

namespace AlterDatabase

/-- The place of the removal at `i`. -/
def removalField (i : Nat) : Field :=
  [.key "removals", .index i]

/-- The first empty removal. -/
def emptyRemoval? (removals : List String) : Option Nat :=
  removals.findIdx? (· = "")

/-- Empty removals are reported before empty keys of the updates, and both before a key that stands
in both. -/
def new (removals : List String) (updates : KeyMap String) : Except Violation AlterDatabase :=
  match he : emptyRemoval? removals with
  | some i => .error ⟨removalField i, .empty⟩
  | none =>
    if hk : updates.startsEmpty = true then .error ⟨.ofKey "updates", .emptyKey⟩
    else
      match ho : removals.findIdx? (updates.contains ·) with
      | some i => .error ⟨removalField i, .alsoUpdated (removals.getD i "")⟩
      | none => .ok ⟨removals, updates,
          ⟨fun k h => of_decide_eq_false (List.findIdx?_eq_none_iff.mp he k h),
            KeyMap.contains_empty_eq_false hk⟩,
          fun k h => List.findIdx?_eq_none_iff.mp ho k h⟩

/-- The list without repeats, each text where it occurs first. -/
def distinct : List String → List String
  | [] => []
  | k :: ks => k :: (distinct ks).filter (· ≠ k)

def distinctRemovals (r : AlterDatabase) : List String :=
  distinct r.removals

/-- Both requests have the same effect: they update the same, and remove the same in any order. -/
def equivalent (a b : AlterDatabase) : Bool :=
  a.removals.all (b.removals.contains ·) && b.removals.all (a.removals.contains ·)
    && a.updates = b.updates

def encode (r : AlterDatabase) : Json :=
  .object [("removals", .array (r.removals.map .string)), ("updates", .ofTexts r.updates)]

end AlterDatabase

/-- What an alteration did to a property map. -/
structure AlterOutcome where
  /-- Keys that were present and are removed. -/
  removed : List String
  /-- Keys that were added or overwritten. -/
  updated : List String
  /-- Keys to be removed that were not present. -/
  missing : List String
deriving DecidableEq

namespace AlterOutcome

def encode (o : AlterOutcome) : Json :=
  .object [("removed", .array (o.removed.map .string)), ("updated", .array (o.updated.map .string)),
    ("missing", .array (o.missing.map .string))]

end AlterOutcome

namespace AlterDatabase

/-- A property map under alteration, with what has been done to it. -/
abbrev Progress := AlterOutcome × KeyMap String

def remove (p : Progress) (key : String) : Progress :=
  let (o, m) := p
  if m.contains key then (⟨o.removed ++ [key], o.updated, o.missing⟩, m.erase key)
  else (⟨o.removed, o.updated, o.missing ++ [key]⟩, m)

def write (p : Progress) (e : String × String) : Progress :=
  let (o, m) := p
  (⟨o.removed, o.updated ++ [e.1], o.missing⟩, m.insert e.1 e.2)

/-- Removals come first. To remove a key that is not present is noted and is no error. -/
def apply (r : AlterDatabase) (properties : KeyMap String) : Progress :=
  r.updates.entries.foldl write (r.distinctRemovals.foldl remove (⟨[], [], []⟩, properties))

end AlterDatabase
end Catalog
