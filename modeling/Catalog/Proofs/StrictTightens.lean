import Catalog.Proofs.Agreement
import Catalog.Proofs.RegistryRuns
import Catalog.Proofs.StrictTargets

/-! Strict contracts only tighten. What a strict contract accepts is accepted without it, unless an
object schema is closed where its refusing more can make the whole accept more, or a reference leads
to members that are no schema in themselves. -/

namespace Catalog

namespace Schema

/-- What is not looked at from the schema itself matters no more than what is looked at from around
it. -/
theorem Tracks.of_beside {f f' : Followed} {w : View} {looks : Bool} {s s' : Schema}
    (h : Tracks f f' (w.beside looks) s s') : Tracks f f' w s s' where
  accepting := h.accepting
  evaluating hw := h.evaluating (View.beside_watched.mpr (Or.inl hw))

/-- What matters carries over between the rules of two documents side by side. -/
theorem relates_tracks {draft : Draft} {D D' : Json} {f f' : Followed}
    (hclosed : ∀ w ms ms', Counterpart draft D D' w (.object ms) (.object ms') →
      isOpen ms = true → ms' ≠ ms → w.up = true)
    (hfollow : ∀ w ms ms' p, Counterpart draft D D' w (.object ms) (.object ms') →
      Refers draft ms p → Refers draft ms' p → Tracks f f' (around draft w ms) (.ref p) (.ref p)) :
    Relates draft D D' (Tracks f f') fun w => w.up = true where
  always _ b := tracks_always b
  closing := hclosed
  reference := by
    intro w ms ms' p hmet hp hp'
    have hfollowed := (hfollow w ms ms' p hmet hp hp').of_beside
    constructor
    · intro v hv
      have hevery {f : Followed} : issues f (.every [.ref p]) v = [] ↔ issues f (.ref p) v = [] := by
        rw [issues_every_eq_nil, List.forall_mem_singleton]
      exact .congr hevery hevery (hfollowed.accepting v hv)
    · intro hw v hv part
      have hevery {f : Followed} : evaluates f (.every [.ref p]) v part = true ↔
          evaluates f (.ref p) v part = true := by
        simp [evaluates, evaluatesAny]
      exact .congr hevery hevery (hfollowed.evaluating hw v hv part)
  keywords := by
    intro w ms ms' k k' s s' hmet hk hk' hpaired honly hs hs'
    have honly' : ¬k'.OnlyRef draft := fun h => honly ⟨h.1, hpaired.ref ▸ h.2⟩
    have hrefs : ∀ p ∈ k.references, Tracks f f' (w.beside k.looks) (.ref p) (.ref p) := by
      intro p hp
      rw [← around_eq hk]
      have hp' : p ∈ k'.references := hpaired.references.symm ▸ hp
      exact hfollow w ms ms' p hmet (refers_of_mem hk hp) (refers_of_mem hk' hp')
    constructor
    · intro v hv
      exact .congr (k.issues_schema_eq_nil hs honly hv) (k'.issues_schema_eq_nil hs' honly' hv)
        (hpaired.accepts hv hrefs id)
    · intro hw v hv part
      have hwatched : (w.beside k.looks).watched = true := View.beside_watched.mpr (Or.inl hw)
      have hrest : k.EvaluatesRest v part ↔ k'.EvaluatesRest v part := by
        rw [Keywords.EvaluatesRest, Keywords.EvaluatesRest,
          Keywords.isSome_of_rel hpaired.unevaluatedItems,
          Keywords.isSome_of_rel hpaired.unevaluatedProperties]
      exact .congr (k.evaluates_schema_iff hs honly) (k'.evaluates_schema_iff hs' honly')
        (.or (hpaired.evaluates hv hrefs hwatched part) (.of_iff hrest))

end Schema

namespace Contract
open Schema
variable {S : Json} {c c' : Contract}

/-- Strict mode does a document no harm: the schemas that its references lead to are in place in the
strict document, and an object schema is closed only where what matters is that all that is accepted
of it was accepted before. -/
structure Tightens (S : Json) (c : Contract) : Prop where
  targets : ∀ e ∈ c.targets, ∀ T T', Pointer.resolve? S e.1 = some T →
    Pointer.resolve? (strict S) e.1 = some T' → InPlace T T'
  closed : ∀ w ms ms',
    Counterpart (Draft.ofDocument S) S (strict S) w (.object ms) (.object ms') →
      isOpen ms = true → ms' ≠ ms → w.up = true

/-- The contract of a document and that of its strict version have targets for the same references.
-/
theorem keys_of_strict (hS : S.collapse = S) (h : Contract.ofDocument? S = some c)
    (h' : Contract.ofDocument? (strict S) = some c') (ht : Tightens S c) :
    Entries.keys c'.targets = Entries.keys c.targets := by
  obtain ⟨hroot, htargets⟩ := ofDocument_eq_some h
  obtain ⟨hroot', htargets'⟩ := ofDocument_eq_some h'
  rw [ofDocument_strict] at hroot' htargets'
  have hrefs : c'.root.refs = c.root.refs := refs_inPlace hS (Or.inr rfl) hroot hroot'
  rw [refCount_strict, hrefs] at htargets'
  exact keys_of_collect hS rfl htargets htargets' ht.targets

/-- Following a reference, with whatever is left of the budget, what matters carries over. -/
theorem follow_tracks (hS : S.collapse = S) (h : c.Complete S) (h' : c'.Complete (strict S))
    (hkeys : Entries.keys c'.targets = Entries.keys c.targets) (ht : Tightens S c) (budget : Nat) :
    ∀ w ms ms' p,
      Counterpart (Draft.ofDocument S) S (strict S) w (.object ms) (.object ms') →
        Refers (Draft.ofDocument S) ms p → Refers (Draft.ofDocument S) ms' p →
          Tracks (c.follow budget) (c'.follow budget) (around (Draft.ofDocument S) w ms) (.ref p)
            (.ref p) := by
  induction budget with
  | zero =>
    intro w ms ms' p _ _ _
    constructor
    · intro v _
      exact .of_iff (by simp [Schema.issues, follow])
    · intro _ v _ part
      exact .of_iff (by simp [evaluates, follow])
  | succ budget ih =>
    intro w ms ms' p hmet hp hp'
    have hnone := Entries.isNone_lookup hkeys p
    cases hs : c.targets.lookup p with
    | none =>
      rw [hs, Option.isNone_none, Option.isNone_iff_eq_none] at hnone
      constructor
      · intro v _
        exact .of_iff (by simp [Schema.issues, follow, hs, hnone])
      · intro _ v _ part
        exact .of_iff (by simp [evaluates, follow, hs, hnone])
    | some s =>
      obtain ⟨s', hs'⟩ : ∃ s', c'.targets.lookup p = some s' := by
        cases hl : c'.targets.lookup p with
        | none => simp [hs, hl] at hnone
        | some s' => exact ⟨s', rfl⟩
      obtain ⟨T, hT, hTs⟩ := h.collected.resolved _ (Entries.mem_of_lookup hs)
      obtain ⟨T', hT', hTs'⟩ := h'.collected.resolved _ (Entries.mem_of_lookup hs')
      rw [ofDocument_strict] at hTs'
      have hreached := hmet.reference hp hp' hT hT'
      have hr := relates_tracks ht.closed ih
      -- The target is in place, so its schema and the strict one track each other in turn.
      have htracks : Tracks (c.follow budget) (c'.follow budget)
          (around (Draft.ofDocument S) w ms) s s' := by
        rcases ht.targets _ (Entries.mem_of_lookup hs) T T' hT hT' with rfl | rfl
        · exact hr.inPlace _ (collapse_of_resolve hS hT) id (Or.inl rfl) _ s s' hreached hTs hTs'
        · exact hr.inPlace T (collapse_of_resolve hS hT) strict (Or.inr rfl) _ s s' hreached hTs
            hTs'
      constructor
      · intro v hv
        simp only [Schema.issues, follow, hs, hs']
        exact htracks.accepting v hv
      · intro hw v hv part
        simp only [Schema.evaluates, follow, hs, hs']
        exact htracks.evaluating hw v hv part

/-- Where strict mode only tightens, a strict contract accepts nothing that the contract refuses. -/
theorem accepts_of_strict (hS : S.collapse = S) (h : Contract.ofDocument? S = some c)
    (h' : Contract.ofDocument? (strict S) = some c') (ht : Tightens S c) {v : Json}
    (hv : v.collapse = v) (haccepted : c'.issues v = []) : c.issues v = [] := by
  -- With as many targets on both sides, the two checks start with the same budget.
  have hkeys := keys_of_strict hS h h' ht
  have hlength : c'.targets.length = c.targets.length := by
    have heq := congrArg List.length hkeys
    rwa [Entries.keys, Entries.keys, List.length_map, List.length_map] at heq
  have hcomplete := complete_of_ofDocument h
  have hcomplete' := complete_of_ofDocument h'
  have hroot' := hcomplete'.root
  rw [ofDocument_strict] at hroot'
  rw [issues, hlength] at haccepted
  have hfollow := follow_tracks hS hcomplete hcomplete' hkeys ht
    ((v.depth + 1) * (c.targets.length + 1))
  have htracks := (relates_tracks ht.closed hfollow).inPlace S hS strict (Or.inr rfl) _ _ _ .root
    hcomplete.root hroot'
  exact htracks.accepting v hv haccepted

end Contract

namespace Registry
variable {g g' h h' : Registry} {k : Kind} {S v : Json}

theorem validateValue_put (g : Registry) (k : Kind) (c : Contract) (v : Json) :
    (g.put k c).validateValue k v = .ok () ↔ c.issues v = [] := by
  have hcontract : (g.put k c).contracts k = some c := by simp [put_contracts]
  rw [validateValue, hcontract]
  exact checkContract_eq_ok

/-- Of two registries that differ in strict mode, the strict one accepts no body that the other
refuses, where the schema is one that strict mode only tightens. -/
theorem strict_never_loosens (hS : S.collapse = S)
    (hstrict : g.config.strictMode = false ∧ g'.config = { g.config with strictMode := true })
    (hregistered : g.registerValue k S = .ok h) (hregistered' : g'.registerValue k S = .ok h')
    (htightens : ∀ c, h.contracts k = some c → Contract.Tightens S c)
    (haccepted : h'.validateValue k v.collapse = .ok ()) :
    h.validateValue k v.collapse = .ok () := by
  obtain ⟨c, hc, rfl⟩ := registerValue_eq_ok.mp hregistered
  obtain ⟨c', hc', rfl⟩ := registerValue_eq_ok.mp hregistered'
  rw [contract?, hstrict.1, if_neg (by decide)] at hc
  rw [contract?, hstrict.2, if_pos rfl] at hc'
  rw [validateValue_put] at haccepted ⊢
  have ht := htightens c (by simp [put_contracts])
  exact Contract.accepts_of_strict hS hc hc' ht v.collapse_collapse haccepted

/-- A definition is closed that a property refers to, and the excluded schema is no object schema.
-/
def tightenedMembers : Entries Json :=
  [("$defs", .object [("t", .object [("properties", .object [])])]),
    ("not", .object [("type", .string "string")]),
    ("properties", .object [("a", .object [("$ref", .string "#/$defs/t")])])]

/-- A check comes to the excluded schema with the one outcome in view, and to all others with the
other. -/
theorem tightened_counterparts {w : Schema.View} {T T' : Json}
    (h : Schema.Counterpart .draft2020 (.object tightenedMembers)
      (Schema.strict (.object tightenedMembers)) w T T') :
    w = ⟨true, false⟩ ∧ (T = .object tightenedMembers ∨
      T = .object [("$ref", .string "#/$defs/t")] ∨ T = .object [("properties", .object [])]) ∨
        T = .object [("type", .string "string")] := by
  have hroot : ∀ a ∈ Schema.applicators .draft2020, (tightenedMembers.lookup a.key).isSome = true →
      a = ⟨"not", .one, .opposite⟩ ∨ a = ⟨"properties", .named, .part⟩ := by
    decide
  have htarget : ∀ a ∈ Schema.applicators .draft2020,
      (List.lookup a.key [("properties", Json.object [])]).isSome = true →
        a = ⟨"properties", .named, .part⟩ := by
    decide
  have hnone : ∀ a ∈ Schema.applicators .draft2020,
      (List.lookup a.key [("$ref", Json.string "#/$defs/t")]).isSome = false ∧
        (List.lookup a.key [("type", Json.string "string")]).isSome = false := by
    decide
  induction h with
  | root => exact Or.inl ⟨rfl, Or.inl rfl⟩
  | @part w ms ms' a u u' T T' _ ha _ hu _ hT ih =>
    have hmem := (List.of_mem_zip hT).1
    rcases ih with ⟨rfl, hms | hms | hms⟩ | hms
    · cases hms
      rcases hroot a ha (by rw [hu]; rfl) with rfl | rfl
      · cases hu
        exact Or.inr (List.mem_singleton.mp hmem)
      · cases hu
        exact Or.inl ⟨rfl, Or.inr (Or.inl (List.mem_singleton.mp hmem))⟩
    · cases hms
      have habsent := (hnone a ha).1
      rw [hu] at habsent
      cases habsent
    · cases hms
      cases htarget a ha (by rw [hu]; rfl)
      cases hu
      cases hmem
    · cases hms
      have habsent := (hnone a ha).2
      rw [hu] at habsent
      cases habsent
  | @reference w ms ms' p T T' _ hr _ hT _ ih =>
    have hresolved : Schema.Pointer.resolve? (.object tightenedMembers) "#/$defs/t" =
        some (.object [("properties", .object [])]) := rfl
    rcases ih with ⟨rfl, hms | hms | hms⟩ | hms <;> cases hms <;>
      rcases hr with hr | ⟨-, hr⟩ <;> cases hr
    rw [hresolved] at hT
    exact Or.inl ⟨rfl, Or.inr (Or.inr (Option.some.inj hT).symm)⟩

theorem strict_never_loosens_tightened : ∃ h h',
    (empty {}).registerValue .renameTable (.object tightenedMembers) = .ok h ∧
    (empty { strictMode := true }).registerValue .renameTable (.object tightenedMembers) = .ok h' ∧
    h'.validateValue .renameTable (Json.object [("a", .object [])]).collapse = .ok () ∧
    h.validateValue .renameTable (Json.object [("a", .object [])]).collapse = .ok () := by
  have hcontract : (Contract.ofDocument? (.object tightenedMembers)).map
      (fun c => Entries.keys c.targets) = some ["#/$defs/t"] := by
    decide +kernel
  have hstrict : (Contract.ofDocument? (Schema.strict (.object tightenedMembers))).map (fun c =>
      (c.issues (Json.object [("a", .object [])]).collapse).isEmpty) = some true := by
    decide +kernel
  obtain ⟨c, hc, hkeys⟩ := Option.map_eq_some_iff.mp hcontract
  obtain ⟨c', hc', haccepts⟩ := Option.map_eq_some_iff.mp hstrict
  have hregistered : (empty {}).registerValue .renameTable (.object tightenedMembers) =
      .ok ((empty {}).put .renameTable c) := registerValue_eq_ok.mpr ⟨c, hc, rfl⟩
  have hregistered' : (empty { strictMode := true }).registerValue .renameTable
      (.object tightenedMembers) = .ok ((empty { strictMode := true }).put .renameTable c') :=
    registerValue_eq_ok.mpr ⟨c', hc', rfl⟩
  have htightens : Contract.Tightens (.object tightenedMembers) c :=
    { targets := by
        intro e he T T' hT hT'
        have hkey : e.1 = "#/$defs/t" := by
          have hmem := Entries.mem_keys_of_mem he
          rw [hkeys] at hmem
          exact List.mem_singleton.mp hmem
        rw [hkey] at hT hT'
        cases hT
        cases hT'
        exact Or.inr rfl
      closed := by
        intro w ms ms' hmet ho _
        rcases tightened_counterparts hmet with ⟨rfl, -⟩ | hms
        · rfl
        · cases hms
          cases ho }
  have haccepted : ((empty { strictMode := true }).put .renameTable c').validateValue .renameTable
      (Json.object [("a", .object [])]).collapse = .ok () := by
    rw [validateValue_put]
    exact List.isEmpty_iff.mp haccepts
  have hcontracts : ∀ d, ((empty {}).put .renameTable c).contracts .renameTable = some d →
      Contract.Tightens (.object tightenedMembers) d := by
    intro d hd
    cases hd
    exact htightens
  exact ⟨_, _, hregistered, hregistered', haccepted, strict_never_loosens rfl ⟨rfl, rfl⟩ hregistered
    hregistered' hcontracts haccepted⟩

/-- The schema is registered with and without strict mode, and only the strict contract accepts the
body. -/
def Loosens (S v : Json) : Prop :=
  ∃ h h', (empty {}).registerValue .createDatabase S = .ok h ∧
    (empty { strictMode := true }).registerValue .createDatabase S = .ok h' ∧
    h'.validateValue .createDatabase v.collapse = .ok () ∧
    h.validateValue .createDatabase v.collapse ≠ .ok ()

theorem loosens_of_issues {S v : Json} (hcheck : ((Contract.ofDocument? S).bind fun c =>
    (Contract.ofDocument? (Schema.strict S)).map fun c' =>
      ((c.issues v.collapse).isEmpty, (c'.issues v.collapse).isEmpty)) = some (false, true)) :
    Loosens S v := by
  obtain ⟨c, hc, hc'⟩ := Option.bind_eq_some_iff.mp hcheck
  obtain ⟨c', hc', hissues⟩ := Option.map_eq_some_iff.mp hc'
  obtain ⟨hrefuses, haccepts⟩ := Prod.mk.inj hissues
  refine ⟨_, _, registerValue_eq_ok.mpr ⟨c, hc, rfl⟩, registerValue_eq_ok.mpr ⟨c', hc', rfl⟩, ?_,
    ?_⟩
  · rw [validateValue_put]
    exact List.isEmpty_iff.mp haccepts
  · rw [ne_eq, validateValue_put]
    exact fun hnil => by simp [hnil] at hrefuses

/-- Strict mode loosens a contract where an object schema is closed that is excluded, that is
counted with others, that items may keep only so often, or that is a condition, also where it is only
looked at what the other outcome evaluates, and where a reference leads to a map of schemas, in which
a constant is taken for a schema. -/
theorem strict_loosens_some :
    Loosens (.object [("not", .object [("properties", .object [])])]) (.object [("b", .null)]) ∧
    Loosens (.object [("oneOf", .array [.object [("properties", .object [])], .object []])])
      (.object [("b", .null)]) ∧
    Loosens (.object [("$defs", .object [("t", .object [("properties", .object [])])]),
      ("contains", .object [("$ref", .string "#/$defs/t")]), ("maxContains", .number (.int 1))])
      (.array [.object [], .object [("b", .null)]]) ∧
    Loosens (.object [("$defs", .object [("t", .object [("properties", .object [])])]),
      ("if", .object [("$ref", .string "#/$defs/t")]), ("then", .bool false)])
      (.object [("b", .null)]) ∧
    Loosens (.object [("$defs", .object [("t", .object [("properties", .object [])])]),
      ("else", .object [("properties", .object [("b", .bool true)])]),
      ("if", .object [("$ref", .string "#/$defs/t")]), ("unevaluatedProperties", .bool false)])
      (.object [("b", .null)]) ∧
    Loosens (.object [("$defs", .object [("const", .object [("properties", .object [])])]),
      ("$ref", .string "#/$defs")])
      (.object [("additionalProperties", .bool false), ("properties", .object [])]) := by
  refine ⟨?_, ?_, ?_, ?_, ?_, ?_⟩
  all_goals
    apply loosens_of_issues
    decide +kernel

end Registry
end Catalog
