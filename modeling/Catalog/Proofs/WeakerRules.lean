import Catalog.Proofs.Spellings
import Catalog.Proofs.WellFormedTexts

/-! Naming rules against each other. Rules decide whether the request that a text spells may be made,
and nothing else; so weaker rules let through what stricter ones do, and texts that are no requests
to create a database are read alike under all rules. -/

namespace Catalog
namespace NamingRules
variable {weak strong : NamingRules}

/-- The rules `weak` ask for nothing that the rules `strong` do not ask for: a limit of theirs is met
by the names within the limit there, and what they forbid is forbidden there. -/
structure Weaker (weak strong : NamingRules) : Prop where
  length : ∀ max, weak.maxLength = some max → ∃ max', strong.maxLength = some max' ∧ max' ≤ max
  forbidden : ∀ c ∈ weak.forbidden, c ∈ strong.forbidden

theorem weaker_default (rules : NamingRules) : Weaker {} rules := by
  constructor
  · intro max hmax
    cases hmax
  · intro c hc
    exact absurd hc List.not_mem_nil

theorem Weaker.allows (h : weak.Weaker strong) {name : String} (hname : strong.Allows name) :
    weak.Allows name := by
  refine ⟨hname.ne, fun max hmax => ?_, fun c hc hforbidden => ?_⟩
  · obtain ⟨max', hmax', hle⟩ := h.length max hmax
    exact (hname.length max' hmax').trans hle
  · exact hname.chars c hc (h.forbidden c hforbidden)

end NamingRules

namespace Request
variable {weak strong rules rules' : NamingRules} {s : Json.Source} {t : Json} {r : Request}

theorem Allowed.weaken (hallowed : r.Allowed strong) (h : weak.Weaker strong) :
    r.Allowed weak := by
  intro c hc
  have hname : strong.Allows c.name :=
    NamingRules.breach_eq_none.mp (NamingRules.check_eq_ok.mp (hallowed c hc))
  exact NamingRules.check_eq_ok.mpr (NamingRules.breach_eq_none.mpr (h.allows hname))

/-- The texts of a request spell its encoding, and the rules that allow the request accept them all. -/
theorem ofSource_eq_ok :
    ofSource rules s = .ok r ↔ ∃ t, Json.IsText t s ∧ t.Spells r.encode ∧ r.Allowed rules := by
  constructor
  · intro h
    cases ht : Json.parseTree s with
    | ok t =>
      rw [ofSource_eq_ofScanned ht] at h
      exact ⟨t, Json.parseTree_eq_ok.mp ht, ofScanned_ofTree_eq_ok_iff.mp h⟩
    | error e => simp [ofSource, Json.scan, ht, Except.map] at h
  · rintro ⟨t, ht, hspelled⟩
    rw [ofSource_eq_ofScanned (Json.parseTree_eq_ok.mpr ht)]
    exact ofScanned_ofTree_eq_ok_iff.mpr hspelled

theorem ofSource_of_weaker (h : weak.Weaker strong) (hr : ofSource strong s = .ok r) :
    ofSource weak s = .ok r := by
  obtain ⟨t, ht, hspells, hallowed⟩ := ofSource_eq_ok.mp hr
  exact ofSource_eq_ok.mpr ⟨t, ht, hspells, hallowed.weaken h⟩

/-- Only the fields of a database to be created are read with the rules at hand. -/
theorem ofScanned_congr_rules {body : Json.Scanned}
    (h : Kind.classify body.value ≠ .ok .createDatabase) :
    ofScanned rules body = ofScanned rules' body := by
  unfold ofScanned
  split
  · next k members hk _ =>
    cases k with
    | createDatabase => exact absurd hk h
    | alterDatabase | renameTable => rfl
  · rfl
  · rfl

theorem ofSource_congr_rules (h : ¬∃ t, Json.IsText t s ∧ Kind.createDatabase.Fits t) :
    ofSource rules s = ofSource rules' s := by
  cases ht : Json.parseTree s with
  | ok t =>
    rw [ofSource_eq_ofScanned ht, ofSource_eq_ofScanned ht]
    apply ofScanned_congr_rules
    intro hcreate
    exact h ⟨t, Json.parseTree_eq_ok.mp ht, Kind.classify_collapse_eq_ok.mp hcreate⟩
  | error e => simp only [ofSource, Json.scan, ht, Except.map]

/-- Naming rules only narrow what texts are read as requests: under weaker rules, and so without any,
a text is read as the same request. What is no body of a database to be created, be it of another
shape or no JSON text, is read with the same result under all rules, errors included. -/
theorem rules_only_narrow (s : Json.Source) :
    (∀ weak strong : NamingRules, weak.Weaker strong → ∀ r, ofSource strong s = .ok r →
      ofSource weak s = .ok r ∧ ofSource {} s = .ok r) ∧
    ((¬∃ t, Json.IsText t s ∧ Kind.createDatabase.Fits t) →
      ∀ rules rules' : NamingRules, ofSource rules s = ofSource rules' s) := by
  refine ⟨fun weak strong h r hr => ⟨?_, ?_⟩, fun h rules rules' => ofSource_congr_rules h⟩
  · exact ofSource_of_weaker h hr
  · exact ofSource_of_weaker strong.weaker_default hr

/-- Names have four characters at most, whatever their bytes, and no slash. -/
def tightRules : NamingRules :=
  ⟨some 4, ['/']⟩

/-- The name has four characters in five bytes. -/
def hallText : String :=
  "\x7b\"name\":\"säle\",\"properties\":\x7b\x7d\x7d"

/-- The fields are those of a renaming, and both are at fault. -/
def unnamedText : String :=
  "\x7b\"source\":\"a/b\",\"destination\":null\x7d"

/-- Rules with a higher limit and without forbidden characters are weaker. -/
theorem rules_only_narrow_hall :
    NamingRules.Weaker ⟨some 5, []⟩ tightRules ∧
      (∃ r, ofSource tightRules (.ofText hallText) = .ok r ∧
        ofSource ⟨some 5, []⟩ (.ofText hallText) = .ok r ∧
          ofSource {} (.ofText hallText) = .ok r) ∧
      (¬∃ t, Json.IsText t (.ofText unnamedText) ∧ Kind.createDatabase.Fits t) ∧
      ofSource tightRules (.ofText unnamedText) = ofSource {} (.ofText unnamedText) := by
  have hweaker : NamingRules.Weaker ⟨some 5, []⟩ tightRules :=
    ⟨fun max hmax => ⟨4, rfl, by cases hmax; decide⟩, fun c hc => absurd hc List.not_mem_nil⟩
  let hall : CreateDatabase := ⟨"säle", .empty, by decide, rfl⟩
  have hread : ofSource tightRules (.ofText hallText) = .ok (.create hall) := by
    have htree : Json.parseTree (.ofText hallText) = .ok (Request.create hall).encode := by cbv
    have hfresh : ¬(Request.create hall).encode.RepeatsKey := by
      rw [encode, ← CreateDatabase.collapse_encode]
      exact Json.not_repeatsKey_collapse _
    have hname : tightRules.Allows "säle" := by
      refine ⟨by decide, fun max hmax => ?_, by simp [tightRules]⟩
      cases hmax
      decide
    have hallowed : (Request.create hall).Allowed tightRules := by
      intro c hc
      cases hc
      exact NamingRules.check_eq_ok.mpr (NamingRules.breach_eq_none.mpr hname)
    exact ofSource_eq_ok.mpr ⟨_, Json.parseTree_eq_ok.mp htree, ⟨rfl, hfresh⟩, hallowed⟩
  have htree : Json.parseTree (.ofText unnamedText) =
      .ok (.object [("source", .string "a/b"), ("destination", .null)]) := by cbv
  have hshape : ¬∃ t, Json.IsText t (.ofText unnamedText) ∧ Kind.createDatabase.Fits t := by
    rintro ⟨t, ht, ms, hms, hkeys⟩
    cases (Json.IsText.unique ht (Json.parseTree_eq_ok.mp htree)).symm.trans hms
    have hname : "name" ∈ Kind.createDatabase.fields := by decide
    exact absurd ((hkeys "name").mpr hname) (by decide)
  refine ⟨hweaker, ⟨_, hread, ?_⟩, hshape, ?_⟩
  · exact (rules_only_narrow _).1 _ _ hweaker _ hread
  · exact (rules_only_narrow _).2 hshape _ _

end Request
end Catalog
