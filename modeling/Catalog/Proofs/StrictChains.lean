import Catalog.Proofs.StrictDocuments
import Catalog.Proofs.RegistryRuns

/-! Chains of schemas. A schema that stands in a document, or is referred to, applies to a part of
the value that the document is asked to check. Strict documents have the same chains, and where one
of them ends at an object schema, the object may have no members but those that the schema declares.
-/

namespace Catalog
namespace Json

mutual

/-- The key stands anywhere in the document. -/
def mentions (key : String) : Json → Bool
  | .array vs => mentionsItems key vs
  | .object ms => mentionsMembers key ms
  | _ => false

def mentionsItems (key : String) : List Json → Bool
  | [] => false
  | v :: vs => mentions key v || mentionsItems key vs

def mentionsMembers (key : String) : List (String × Json) → Bool
  | [] => false
  | (k, v) :: ms => k = key || mentions key v || mentionsMembers key ms

end

theorem lookup_of_not_mentions {key : String} {ms : Entries Json}
    (h : (object ms).mentions key = false) : ms.lookup key = none := by
  rw [mentions] at h
  induction ms with
  | nil => rfl
  | cons e ms ih =>
    obtain ⟨k, v⟩ := e
    simp only [mentionsMembers, Bool.or_eq_false_iff, decide_eq_false_iff_not] at h
    obtain ⟨⟨hk, -⟩, hms⟩ := h
    rw [Entries.lookup_cons, if_neg (Ne.symm hk), ih hms]

end Json

namespace Schema

namespace Pointer

/-- The steps that a reference takes from the root of its document. -/
def path? (reference : String) : Option (List String) :=
  match reference.toList with
  | '#' :: fragment => (fragmentChars fragment).bind steps
  | _ => none

theorem resolve?_eq {reference : String} {path : List String} (h : path? reference = some path)
    (root : Json) : resolve? root reference = path.foldlM part? root := by
  unfold path? at h
  unfold resolve?
  generalize reference.toList = text at h ⊢
  split at h
  · next fragment =>
    obtain ⟨cs, hcs, hsteps⟩ := Option.bind_eq_some_iff.mp h
    simp only [hcs, hsteps, Option.bind_eq_bind, Option.bind_some]
  · cases h

end Pointer

/-- From the document `S` and the value `v`, a chain of schemas leads to the schema `T` and the part
`x` of the value: through members, items, branches that must all hold, and references to the
definitions of the document. -/
inductive Leads (S v : Json) : (T x : Json) → Prop where
  | root : Leads S v S v
  | property {ms children xs : Entries Json} {name : String} {T x : Json}
    (h : Leads S v (.object ms) (.object xs))
    (hp : ms.lookup "properties" = some (.object children)) (hT : children.lookup name = some T)
    (hx : xs.lookup name = some x) : Leads S v T x
  | item {ms : Entries Json} {xs : List Json} {T x : Json} (h : Leads S v (.object ms) (.array xs))
    (hp : ms.lookup "prefixItems" = none) (hT : ms.lookup "items" = some T) (hx : x ∈ xs) :
    Leads S v T x
  | branch {ms : Entries Json} {branches : List Json} {T x : Json} (h : Leads S v (.object ms) x)
    (hb : ms.lookup "allOf" = some (.array branches)) (hT : T ∈ branches) : Leads S v T x
  | reference {ms root defs : Entries Json} {p name : String} {T x : Json}
    (h : Leads S v (.object ms) x) (hr : ms.lookup "$ref" = some (.string p))
    (hp : Pointer.path? p = some ["$defs", name]) (hroot : S = .object root)
    (hdefs : root.lookup "$defs" = some (.object defs)) (hT : defs.lookup name = some T) :
    Leads S v T x

/-- A strict document leads to the strict schemas that the document leads to. -/
theorem Leads.strict {S v T x : Json} (h : Leads S v T x) :
    Leads (strict S) v (strict T) x := by
  -- The members that a chain goes through are kept under their names.
  have hkept {ms : Entries Json} {name : String} {w : Json} (hw : ms.lookup name = some w)
      (hne : name ≠ "additionalProperties") :
      (strictObject ms).lookup name = some (strictMember name w) := by
    rw [lookup_strictObject_of_ne hne, hw, Option.map_some]
  have hchild {children : Entries Json} {name : String} {w : Json}
      (hw : children.lookup name = some w) :
      (strictChildren children).lookup name = some (Schema.strict w) := by
    rw [strictChildren_eq_map, Entries.lookup_map_keyed fun _ => Schema.strict, hw,
      Option.map_some]
  induction h with
  | root => exact .root
  | property _ hp hT hx ih =>
    rw [strict_object] at ih
    exact .property ih (hkept hp (by decide)) (hchild hT) hx
  | @item ms _ _ _ _ hp hT hx ih =>
    rw [strict_object] at ih
    have hleading : (strictObject ms).lookup "prefixItems" = none := by
      rw [lookup_strictObject_of_ne (by decide), hp, Option.map_none]
    exact .item ih hleading (hkept hT (by decide)) hx
  | @branch _ branches T _ _ hb hT ih =>
    rw [strict_object] at ih
    have hmem : Schema.strict T ∈ strictItems branches := by
      rw [strictItems_eq_map]
      exact List.mem_map_of_mem hT
    exact .branch ih (hkept hb (by decide)) hmem
  | @reference ms root defs p name T x _ hr hp hroot hdefs hT ih =>
    rw [strict_object] at ih
    have hstrict : Schema.strict S = .object (strictObject root) := by rw [hroot, strict_object]
    exact .reference ih (hkept hr (by decide)) hp hstrict (hkept hdefs (by decide)) (hchild hT)

end Schema

/-- A part of a value is accepted by the schema that a document stands for, whose references all
have their targets. -/
structure Contract.Admits (c : Contract) (budget : Nat) (T x : Json) : Prop where
  collapsed : x.collapse = x
  compiled : ∃ t, Schema.ofJson? .draft2020 T = some t ∧ t.issues (c.follow budget) x = [] ∧
    ∀ p ∈ t.refs, (c.targets.lookup p).isSome = true

namespace Contract.Admits
open Schema
variable {c : Contract} {budget : Nat} {x : Json} {ms : Entries Json}

theorem keywords (h : c.Admits budget (.object ms) x) :
    ∃ k : Keywords, k.Of .draft2020 ms ∧ k.Accepts (c.follow budget) x ∧
      ∀ p ∈ k.refs, (c.targets.lookup p).isSome = true := by
  obtain ⟨hx, t, ht, hissues, hrefs⟩ := h
  obtain ⟨k, hk, hschema⟩ := ofJson?_object_eq_some.mp ht
  have hr : ¬k.OnlyRef .draft2020 := fun hr => absurd hr.1 (by decide)
  rw [Keywords.issues_schema_eq_nil hschema hr hx] at hissues
  rcases Keywords.refs_schema hschema with ⟨hr', -⟩ | ⟨-, heq⟩
  · exact absurd hr' hr
  · exact ⟨k, keywords?_of hk, hissues, heq ▸ hrefs⟩

theorem property {xs children : Entries Json} {name : String} {T : Json}
    (h : c.Admits budget (.object ms) (.object xs))
    (hp : ms.lookup "properties" = some (.object children)) (hT : children.lookup name = some T)
    (hx : xs.lookup name = some x) : c.Admits budget T x := by
  obtain ⟨k, hof, haccepts, hrefs⟩ := h.keywords
  obtain ⟨known, hknown, hprops⟩ := reads_of_lookup hof.properties hp
  obtain ⟨s, hs, hname, hTs⟩ := exists_of_mem_left (named?_eq_some.mp hknown)
    (Entries.mem_of_lookup hT)
  have hmem := Entries.mem_of_lookup hx
  refine ⟨Json.collapse_of_mem_object h.collapsed hmem, s.2, hTs, ?_, fun p hp => hrefs p ?_⟩
  · have hkept := (haccepts.members xs rfl _ hmem).1
    rw [hprops] at hkept
    exact hkept s hs hname
  · have hin : p ∈ refsIn refsNamed k.properties :=
      mem_refsIn.mpr ⟨known, hprops, mem_refsNamed.mpr ⟨s, hs, hp⟩⟩
    simp [Keywords.refs, hin]

theorem item {xs : List Json} {T : Json} (h : c.Admits budget (.object ms) (.array xs))
    (hp : ms.lookup "prefixItems" = none) (hT : ms.lookup "items" = some T) (hx : x ∈ xs) :
    c.Admits budget T x := by
  obtain ⟨k, hof, haccepts, hrefs⟩ := h.keywords
  obtain ⟨s, hs, hitems⟩ := reads_of_lookup (hof.items rfl) hT
  have hleading := reads_of_lookup_eq_none (hof.prefixItems rfl) hp
  refine ⟨Json.collapse_of_mem_array h.collapsed hx, s, hs, ?_, fun p hp => hrefs p ?_⟩
  · have hall := issues_items_eq_nil.mp (haccepts.items s hitems)
    rw [hleading] at hall
    exact hall x hx
  · have hin : p ∈ refsIn Schema.refs k.items := mem_refsIn.mpr ⟨s, hitems, hp⟩
    simp [Keywords.refs, hin]

theorem branch {branches : List Json} {T : Json} (h : c.Admits budget (.object ms) x)
    (hb : ms.lookup "allOf" = some (.array branches)) (hT : T ∈ branches) :
    c.Admits budget T x := by
  obtain ⟨k, hof, haccepts, hrefs⟩ := h.keywords
  obtain ⟨ss, hss, hall⟩ := reads_of_lookup hof.allOf hb
  obtain ⟨vs, hvs, hlist⟩ := array_of_schemas hss
  cases hvs
  obtain ⟨s, hs, hTs⟩ := exists_of_mem_left hlist hT
  refine ⟨h.collapsed, s, hTs, ?_, fun p hp => hrefs p ?_⟩
  · have hissues := haccepts.allOf ss hall
    rw [Schema.issues, issuesEvery_eq_nil] at hissues
    exact hissues s hs
  · have hin : p ∈ refsIn refsEvery k.allOf :=
      mem_refsIn.mpr ⟨ss, hall, mem_refsEvery.mpr ⟨s, hs, hp⟩⟩
    simp [Keywords.refs, hin]

/-- A reference is followed with what is left of the budget, since without any it would be
refused. -/
theorem reference {S T : Json} {p : String} (hc : c.Complete S)
    (hdraft : Draft.ofDocument S = .draft2020) (h : c.Admits budget (.object ms) x)
    (hr : ms.lookup "$ref" = some (.string p)) (hT : Pointer.resolve? S p = some T) :
    ∃ b, c.Admits b T x := by
  obtain ⟨k, hof, haccepts, hrefs⟩ := h.keywords
  obtain ⟨q, hq, href⟩ := reads_of_lookup hof.ref hr
  obtain rfl : p = q := Option.some.inj hq
  have hmentioned : p ∈ k.references := by simp [Keywords.references, href]
  have htarget : (c.targets.lookup p).isSome = true := hrefs p (by simp [Keywords.refs, hmentioned])
  obtain ⟨s, hs⟩ := Option.isSome_iff_exists.mp htarget
  have hfollowed := haccepts.references p hmentioned
  rw [Schema.issues] at hfollowed
  cases budget with
  | zero => cases hfollowed
  | succ b =>
    simp only [follow, hs] at hfollowed
    have hmem := Entries.mem_of_lookup hs
    obtain ⟨d, hd, hds⟩ := hc.collected.resolved _ hmem
    obtain rfl : d = T := Option.some.inj (hd.symm.trans hT)
    rw [hdraft] at hds
    exact ⟨b, h.collapsed, s, hds, hfollowed, fun q hq => hc.collected.met q (Or.inr ⟨_, hmem, hq⟩)⟩

end Contract.Admits

/-- What a contract accepts is accepted by every schema that its document leads to. -/
theorem Contract.admits_of_leads {c : Contract} {S v T x : Json} (hc : c.Complete S)
    (hdraft : Draft.ofDocument S = .draft2020) (hv : v.collapse = v) (haccepted : c.issues v = [])
    (h : Schema.Leads S v T x) : ∃ b, c.Admits b T x := by
  induction h with
  | root =>
    have hroot : Schema.ofJson? .draft2020 S = some c.root := hdraft ▸ hc.root
    exact ⟨_, hv, c.root, hroot, haccepted, fun p hp => hc.collected.met p (Or.inl hp)⟩
  | property _ hp hT hx ih =>
    obtain ⟨b, hb⟩ := ih
    exact ⟨b, hb.property hp hT hx⟩
  | item _ hp hT hx ih =>
    obtain ⟨b, hb⟩ := ih
    exact ⟨b, hb.item hp hT hx⟩
  | branch _ hbranches hT ih =>
    obtain ⟨b, hb⟩ := ih
    exact ⟨b, hb.branch hbranches hT⟩
  | @reference ms root defs p name T x _ hr hp hroot hdefs hT ih =>
    obtain ⟨b, hb⟩ := ih
    have htarget : Schema.Pointer.resolve? S p = some T := by
      rw [Schema.Pointer.resolve?_eq hp, hroot]
      simp [Schema.Pointer.part?, hdefs, hT]
    exact hb.reference hc hdraft hr htarget

namespace Schema

/-- The names that a schema lists under its properties. -/
def declared (ms : Entries Json) : List String :=
  match ms.lookup "properties" with
  | some (.object children) => Entries.keys children
  | _ => []

theorem keys_of_named {draft : Draft} {ms : Entries Json} {known : List (String × Schema)}
    (h : named? draft ms = some known) : Entries.keys known = Entries.keys ms := by
  have hread := named?_eq_some.mp h
  clear h
  induction hread with
  | nil => rfl
  | cons he _ ih => exact congrArg₂ List.cons he.1 ih

/-- A name that the schema does not list stays unlisted, since strict documents list the same
ones. -/
theorem unlisted_of_not_declared {ms : Entries Json} {k : Keywords} {name : String}
    (hof : k.Of .draft2020 (strictObject ms)) (hpatterns : ms.lookup "patternProperties" = none)
    (hname : name ∉ declared ms) : k.Unlisted name := by
  constructor
  · cases hk : k.properties with
    | none => rfl
    | some known =>
      obtain ⟨w, hw, hknown⟩ := reads_some (hk ▸ hof.properties)
      rw [lookup_strictObject_of_ne (by decide)] at hw
      obtain ⟨props, hprops, rfl⟩ := Option.map_eq_some_iff.mp hw
      cases props with
      | object children =>
        have hnamed : named? .draft2020 (strictChildren children) = some known := hknown
        rw [declared, hprops] at hname
        have hkeys := keys_of_named hnamed
        rw [strictChildren_eq_map, Entries.keys_map_keyed fun _ => strict] at hkeys
        have hnone : name ∉ Entries.keys known := hkeys ▸ hname
        rw [Option.getD_some, ← Option.not_isSome_iff_eq_none, ← Entries.mem_keys_iff]
        exact hnone
      | _ => cases hknown
  · have habsent : (strictObject ms).lookup "patternProperties" = none := by
      rw [lookup_strictObject_of_ne (by decide), hpatterns, Option.map_none]
    simp [reads_of_lookup_eq_none hof.patternProperties habsent]

end Schema

/-- An object that a closed schema accepts has no member that is not listed. -/
theorem Contract.Admits.declared {c : Contract} {budget : Nat} {ts o : Entries Json} {name : String}
    (h : c.Admits budget (Schema.strict (.object ts)) (.object o))
    (hopen : Schema.isOpen ts = true) (hpatterns : ts.lookup "patternProperties" = none)
    (hname : name ∈ Entries.keys o) : name ∈ Schema.declared ts := by
  by_contra hundeclared
  rw [Schema.strict_object] at h
  obtain ⟨k, hof, haccepts, -⟩ := h.keywords
  have hclosed : k.additionalProperties = some .nothing := by
    obtain ⟨s, hs, hk⟩ := Schema.reads_of_lookup hof.additionalProperties
      (Schema.lookup_strictObject_of_open hopen)
    rw [hk, ← hs]
    rfl
  obtain ⟨e, he, rfl⟩ := List.mem_map.mp hname
  have hunlisted := Schema.unlisted_of_not_declared hof hpatterns hundeclared
  have hrefused := (haccepts.members o rfl e he).2.2 hunlisted .nothing hclosed
  simp [Schema.issues] at hrefused

namespace Registry
variable {g h : Registry} {k : Kind}

/-- A document that names no draft is read as the newest. -/
theorem draft_of_plain {S : Json} (h : S.mentions "$schema" = false) :
    Draft.ofDocument S = .draft2020 := by
  cases S with
  | object ms =>
    rw [Draft.ofDocument, Draft.ofDocument?, Json.lookup_of_not_mentions h]
    rfl
  | _ => rfl

/-- A strict registry refuses every body in which a chain of schemas leads to an object schema that
leaves further members open, and to an object with a member that the schema does not list. -/
theorem strict_refuses_undeclared {S v : Json} {ts o : Entries Json} {name : String}
    (hstrict : g.config.strictMode = true)
    (hplain : S.mentions "$schema" = false ∧ S.mentions "$id" = false)
    (hregistered : g.registerValue k S = .ok h)
    (hchain : Schema.Leads S v.collapse (.object ts) (.object o))
    (hobject : Schema.isObjectSchema ts = true)
    (hadditional : ts.lookup "additionalProperties" = none)
    (hpatterns : ts.lookup "patternProperties" = none) (hname : name ∈ Entries.keys o)
    (hundeclared : name ∉ Schema.declared ts) :
    ∃ first others, h.validateValue k v.collapse = .error (.invalid k first others) := by
  obtain ⟨c, hc, rfl⟩ := registerValue_eq_ok.mp hregistered
  rw [contract?, if_pos hstrict] at hc
  have hcontract : (g.put k c).contracts k = some c := by simp [put_contracts]
  rw [validateValue, hcontract]
  cases hissues : c.issues v.collapse with
  | cons first others => exact ⟨first, others, by simp only [checkContract, hissues]⟩
  | nil =>
    -- An accepted body would be accepted along the chain, and the closed schema at its end is not.
    have hdraft : Draft.ofDocument (Schema.strict S) = .draft2020 := by
      rw [Schema.ofDocument_strict]
      exact draft_of_plain hplain.1
    have hopen : Schema.isOpen ts = true := by simp [Schema.isOpen, hobject, hadditional]
    obtain ⟨b, hadmits⟩ := Contract.admits_of_leads (Contract.complete_of_ofDocument hc) hdraft
      v.collapse_collapse hissues hchain.strict
    exact absurd (hadmits.declared hopen hpatterns hname) hundeclared

/-- A list of things, which a definition describes by one member. -/
def thingsSchema : Json :=
  .object [("$defs", .object [("thing", .object [("properties", .object [("x", .object [])])])]),
    ("allOf", .array [.object [("properties", .object [("things", .object [
      ("items", .object [("$ref", .string "#/$defs/thing")])])])]])]

/-- The one thing has another member than the definition lists. -/
def thingsBody : Json :=
  .object [("things", .array [.object [("y", .null)]])]

/-- The other member is found through a branch, a property, the items and a reference. -/
theorem strict_refuses_other_thing : ∃ h, (empty ⟨true, false, 0, 0, 0⟩).registerValue
    .renameTable thingsSchema = .ok h ∧
      ∃ first others, h.validateValue .renameTable thingsBody.collapse =
        .error (.invalid .renameTable first others) := by
  have hregisters : (Contract.ofDocument? (Schema.strict thingsSchema)).isSome = true := by
    decide +kernel
  obtain ⟨c, hc⟩ := Option.isSome_iff_exists.mp hregisters
  have hregistered : (empty ⟨true, false, 0, 0, 0⟩).registerValue .renameTable thingsSchema =
      .ok ((empty ⟨true, false, 0, 0, 0⟩).put .renameTable c) :=
    registerValue_eq_ok.mpr ⟨c, hc, rfl⟩
  have hplain : thingsSchema.mentions "$schema" = false ∧ thingsSchema.mentions "$id" = false := by
    decide
  have hchain : Schema.Leads thingsSchema thingsBody.collapse
      (.object [("properties", .object [("x", .object [])])]) (.object [("y", .null)]) := by
    have hroot : Schema.Leads thingsSchema thingsBody.collapse thingsSchema thingsBody := .root
    have hbranch := hroot.branch rfl List.mem_cons_self
    have hthings : List.lookup "things" [("things", Json.array [.object [("y", .null)]])] =
        some (.array [.object [("y", .null)]]) := rfl
    have hproperty := hbranch.property rfl rfl hthings
    have hitem := hproperty.item rfl rfl List.mem_cons_self
    exact hitem.reference rfl rfl rfl rfl rfl
  have hmember : "y" ∈ Entries.keys [("y", Json.null)] := by decide
  have hother : "y" ∉ Schema.declared [("properties", .object [("x", .object [])])] := by decide
  exact ⟨_, hregistered,
    strict_refuses_undeclared rfl hplain hregistered hchain rfl rfl rfl hmember hother⟩

end Registry
end Catalog
