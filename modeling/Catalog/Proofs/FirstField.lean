import Catalog.Proofs.BuiltBodies
import Catalog.Proofs.RepeatPlaces
import Catalog.Proofs.RoundTrip
import Catalog.Proofs.Spellings
import Catalog.Proofs.WellFormedTexts

/-! The field that is declared first decides alone whether it is at fault. It is read and checked to
its end before the other field is looked at, and what a text repeats in the other field is kept at
places of its own; so a fault of the first field hides all that may be wrong with the other one. -/

namespace Catalog
namespace Kind

/-- The field that is declared first. -/
def first : Kind → String
  | .createDatabase => "name"
  | .alterDatabase => "removals"
  | .renameTable => "source"

/-- The field that is declared after it. -/
def second : Kind → String
  | .createDatabase => "properties"
  | .alterDatabase => "updates"
  | .renameTable => "destination"

/-- The body of the kind with two values in its fields. -/
def body (k : Kind) (x y : Json) : Json :=
  .object [(k.first, x), (k.second, y)]

/-- The tree is a body of the kind that gives the first field once, and what is given there spells
`x`. The other field may hold anything, and may be given more than once. -/
def HasFirst (k : Kind) (x t : Json) : Prop :=
  ∃ ms, t = .object ms ∧ (∀ name, name ∈ Entries.keys ms ↔ name ∈ k.fields) ∧
    (Entries.keys ms).count k.first = 1 ∧ ∃ u, (k.first, u) ∈ ms ∧ u.Spells x

theorem mem_fields {k : Kind} {name : String} :
    name ∈ k.fields ↔ name = k.first ∨ name = k.second := by
  cases k <;> simp [fields, first, second, or_comm]

theorem first_ne (k : Kind) : k.first ≠ "" ∧ k.first ≠ k.second := by
  cases k <;> decide

/-- No place in the second field is written like the first field. -/
theorem second_append_ne (k : Kind) (w : String) : k.second ++ w ≠ k.first := by
  intro h
  have hchars : k.second.toList ++ w.toList = k.first.toList := by rw [← h, String.toList_append]
  have hhead := congrArg List.head? hchars
  cases k <;> simp [first, second] at hhead

/-- A body of two values has them in its fields. -/
theorem hasFirst_body (k : Kind) {x u : Json} (hu : u.Spells x) (y : Json) :
    k.HasFirst x (k.body u y) := by
  refine ⟨_, rfl, fun name => ?_, ?_, u, List.mem_cons_self, hu⟩
  · simp [mem_fields, Entries.keys]
  · simp [Entries.keys, k.first_ne.2.symm]

theorem fits_body (k : Kind) (x y : Json) : k.Fits (k.body x y) :=
  ⟨_, rfl, fun name => by simp [mem_fields, Entries.keys]⟩

end Kind

namespace Scope

/-- Both scopes show the same at a field and in an object that may stand there. -/
structure SameAt (s s' : Scope) (name : String) : Prop where
  place : s.place = s'.place
  value : s.value name = s'.value name
  inside : ∀ members field,
    (s.inside name members).value field = (s'.inside name members).value field

variable {s s' : Scope} {name : String}

theorem SameAt.field (h : s.SameAt s' name) : s.field name = s'.field name := by
  simp only [Scope.field, h.place]

theorem SameAt.text (h : s.SameAt s' name) : s.text name = s'.text name := by
  simp only [Scope.text, h.field, h.value]

theorem SameAt.textList (h : s.SameAt s' name) : s.textList name = s'.textList name := by
  simp only [Scope.textList, h.field, h.value]

theorem SameAt.identifier (h : s.SameAt s' name) : s.identifier name = s'.identifier name := by
  obtain ⟨place, ms, repeats⟩ := s
  obtain ⟨place', ms', repeats'⟩ := s'
  obtain rfl : place = place' := h.place
  have htext (members : Entries Json) (field : String) :
      Scope.text ⟨place.child (.key name), members, repeats⟩ field =
        Scope.text ⟨place.child (.key name), members, repeats'⟩ field := by
    have hvalue : Scope.value ⟨place.child (.key name), members, repeats⟩ field =
        Scope.value ⟨place.child (.key name), members, repeats'⟩ field := h.inside members field
    simp only [Scope.text, Scope.field, hvalue]
  unfold Scope.identifier
  rw [h.value]
  apply bind_congr
  intro v
  cases v with
  | object members => simp only [Scope.field, htext]
  | _ => rfl

end Scope

namespace Request
variable {rules : NamingRules} {k : Kind} {s s' : Scope} {x t : Json}

/-- Reads and checks the field that is declared first. -/
def readFirst (rules : NamingRules) (s : Scope) : Kind → Except Violation Unit
  | .createDatabase => do
    rules.check (s.field "name") (← s.text "name")
  | .alterDatabase => do
    match AlterDatabase.emptyRemoval? (← s.textList "removals") with
    | some i => .error ⟨AlterDatabase.removalField i, .empty⟩
    | none => .ok ()
  | .renameTable => do
    let _ ← s.identifier "source"

/-- A fault of the first field is the fault of the body. -/
theorem ofScope_of_readFirst {v : Violation} (h : readFirst rules s k = .error v) :
    ofScope rules s k = .error v := by
  cases k with
  | createDatabase =>
    simp only [readFirst, bind_eq_error] at h
    simp only [ofScope, bind_eq_error]
    rcases h with htext | ⟨name, htext, hcheck⟩
    · exact Or.inl htext
    · exact Or.inr ⟨name, htext, Or.inl hcheck⟩
  | alterDatabase =>
    simp only [readFirst, bind_eq_error] at h
    simp only [ofScope, bind_eq_error]
    rcases h with hlist | ⟨removals, hlist, hempty⟩
    · exact Or.inl hlist
    · refine Or.inr ⟨removals, hlist, ?_⟩
      cases hi : AlterDatabase.emptyRemoval? removals with
      | none =>
        rw [hi] at hempty
        cases hempty
      | some i =>
        rw [hi] at hempty
        cases hempty
        rfl
  | renameTable =>
    simp only [readFirst, bind_eq_error] at h
    simp only [ofScope, bind_eq_error]
    rcases h with hsource | ⟨_, -, hok⟩
    · exact Or.inl hsource
    · cases hok

theorem readFirst_congr (h : s.SameAt s' k.first) : readFirst rules s k = readFirst rules s' k := by
  cases k with
  | createDatabase =>
    have htext : s.text "name" = s'.text "name" := h.text
    have hfield : s.field "name" = s'.field "name" := h.field
    simp only [readFirst, htext, hfield]
  | alterDatabase =>
    have hlist : s.textList "removals" = s'.textList "removals" := h.textList
    simp only [readFirst, hlist]
  | renameTable =>
    have hsource : s.identifier "source" = s'.identifier "source" := h.identifier
    simp only [readFirst, hsource]

/-- What is found in the first field, with nothing else at hand than its value. -/
def firstFault (rules : NamingRules) (k : Kind) (x : Json) : Except Violation Unit :=
  readFirst rules ⟨[], [(k.first, x.collapse)], []⟩ k

/-- In a body whose text repeats neither the first field nor anything in it, the field is read as if
it were alone. -/
theorem readFirst_eq_firstFault {members : Entries Json} {repeats : List Json.Repeat}
    (hx : members.lookup k.first = some x.collapse)
    (ho : Scope.Once ⟨[], members, repeats⟩ k.first)
    (hu : Scope.Unrepeated ⟨[], members, repeats⟩ (.ofKey k.first)) :
    readFirst rules ⟨[], members, repeats⟩ k = firstFault rules k x := by
  have halone : Scope.Once ⟨[], [(k.first, x.collapse)], []⟩ k.first := by simp [Scope.Once]
  apply readFirst_congr
  refine ⟨rfl, ?_, fun inner field => ?_⟩
  · rw [Scope.value_of_once ho, Scope.value_of_once halone, hx, List.lookup_cons_self]
    rfl
  · have hinner : Scope.Once (Scope.inside ⟨[], members, repeats⟩ k.first inner) field :=
      Scope.Unrepeated.once hu field
    rw [Scope.value_of_once hinner, Scope.value_of_once (by simp [Scope.Once, Scope.inside])]
    rfl

theorem ofScope_of_firstFault {members : Entries Json} {repeats : List Json.Repeat} {v : Violation}
    (hx : members.lookup k.first = some x.collapse)
    (ho : Scope.Once ⟨[], members, repeats⟩ k.first)
    (hu : Scope.Unrepeated ⟨[], members, repeats⟩ (.ofKey k.first))
    (hv : firstFault rules k x = .error v) :
    ofScope rules ⟨[], members, repeats⟩ k = .error v :=
  ofScope_of_readFirst ((readFirst_eq_firstFault hx ho hu).trans hv)

/-- The value of a body has the value of a field that is given once. -/
theorem lookup_of_once {ms members : Entries Json} {name : String} {u : Json}
    (hc : (Json.object ms).collapse = .object members)
    (hcount : (Entries.keys ms).count name = 1) (hu : (name, u) ∈ ms) :
    members.lookup name = some u.collapse := by
  rw [Json.collapse_object, Json.object.injEq, ← Entries.collect_map] at hc
  have hkeys : Entries.keys (ms.map fun e => (e.1, e.2.collapse)) = Entries.keys ms :=
    Entries.keys_map_keyed (fun _ => Json.collapse) ms
  rw [← hc]
  apply Entries.lookup_collect_of_count (hkeys ▸ hcount)
  exact List.mem_map_of_mem (f := fun e : String × Json => (e.1, e.2.collapse)) hu

theorem ofValue_of_firstFault {v : Violation} (hv : firstFault rules k x = .error v) (y : Json) :
    ofValue rules (k.body x y) = .error (.violation v) := by
  obtain ⟨members, hbody, -, hread⟩ := ofScanned_eq_of_fits rules (k.fits_body x y) []
  have hcount : (Entries.keys [(k.first, x), (k.second, y)]).count k.first = 1 := by
    simp [Entries.keys, k.first_ne.2.symm]
  have hx : members.lookup k.first = some x.collapse :=
    lookup_of_once hbody hcount List.mem_cons_self
  rw [ofValue, Json.Scanned.ofValue, hread,
    ofScope_of_firstFault hx (by simp [Scope.Once]) (by simp [Scope.Unrepeated]) hv]
  rfl

/-- A text of the shape of a kind is decided by the fields of its object, and a field that it gives
once has the value of what it gives there. -/
theorem ofSource_eq_ofScope (rules : NamingRules) {ms : Entries Json} {source : Json.Source}
    (ht : Json.IsText (.object ms) source)
    (hkeys : ∀ name, name ∈ Entries.keys ms ↔ name ∈ k.fields) :
    ∃ members, ofSource rules source =
        (ofScope rules ⟨[], members, (Json.object ms).repeats []⟩ k).mapError .violation ∧
      ∀ name u, (Entries.keys ms).count name = 1 → (name, u) ∈ ms →
        Scope.value ⟨[], members, (Json.object ms).repeats []⟩ name = .ok u.collapse := by
  obtain ⟨members, hbody, -, hread⟩ :=
    ofScanned_eq_of_fits rules ⟨ms, rfl, hkeys⟩ ((Json.object ms).repeats [])
  have hempty : "" ∉ Entries.keys ms := by
    rw [hkeys]
    cases k <;> decide
  refine ⟨members, ?_, fun name u hcount hu => ?_⟩
  · rw [ofSource_eq_ofScanned (Json.parseTree_eq_ok.mpr ht), Json.Scanned.ofTree, hread]
  · exact Scope.value_eq_ok.mpr
      ⟨Scope.once_of_count hempty hcount, lookup_of_once hbody hcount hu⟩

theorem ofSource_of_firstFault {source : Json.Source} {v : Violation}
    (hv : firstFault rules k x = .error v) (ht : Json.IsText t source) (hf : k.HasFirst x t) :
    ofSource rules source = .error (.violation v) := by
  obtain ⟨ms, rfl, hkeys, hcount, u, hu, hspells⟩ := hf
  obtain ⟨members, hread, hvalue⟩ := ofSource_eq_ofScope rules ht hkeys
  obtain ⟨ho, hx⟩ := Scope.value_eq_ok.mp (hvalue k.first u hcount hu)
  rw [hspells.collapse] at hx
  have hu' : Scope.Unrepeated ⟨[], members, (Json.object ms).repeats []⟩ (.ofKey k.first) := by
    apply Scope.unrepeated_of_values k.first_ne.1
    · -- The field is given once, so `u` is all that is given there.
      intro w hw
      have hlookup := Entries.lookup_of_count hcount hw
      rw [Entries.lookup_of_count hcount hu] at hlookup
      cases hlookup
      exact hspells.fresh
    · intro name hname hne w
      rw [hkeys, Kind.mem_fields] at hname
      rcases hname with rfl | rfl
      · exact absurd rfl hne
      · exact k.second_append_ne w
  rw [hread, ofScope_of_firstFault hx ho hu' hv]
  rfl

/-- With a first field that is not at fault there is a request. -/
theorem exists_of_firstFault (h : firstFault rules k x = .ok ()) :
    ∃ r : Request, r.Allowed rules ∧ ∃ u y, r.encode = k.body u y ∧ u.collapse = x.collapse := by
  have hs : Scope.Settled ⟨[], [(k.first, x.collapse)], []⟩ :=
    ⟨rfl, fun e he => by simp [List.mem_singleton.mp he]⟩
  have hlookup {v : Json} (hv : List.lookup k.first [(k.first, x.collapse)] = some v) :
      x.collapse = v := by
    rw [List.lookup_cons_self] at hv
    exact Option.some.inj hv
  cases k with
  | createDatabase =>
    simp only [firstFault, readFirst, bind_eq_ok, NamingRules.check_eq_ok] at h
    obtain ⟨name, hname, hrules⟩ := h
    have hx : x.collapse = .string name := hlookup (hs.text_eq_ok.mp hname)
    let c : CreateDatabase :=
      ⟨name, .empty, NamingRules.ne_empty_of_breach?_eq_none hrules, rfl⟩
    refine ⟨.create c, ?_, .string name, .ofTexts .empty, rfl, hx.symm⟩
    intro d hd
    cases hd
    exact NamingRules.check_eq_ok.mpr hrules
  | alterDatabase =>
    simp only [firstFault, readFirst, bind_eq_ok] at h
    obtain ⟨removals, hlist, hempty⟩ := h
    have hx : x.collapse = .array (removals.map .string) := hlookup (hs.textList_eq_ok.mp hlist)
    have hnames : ∀ k ∈ removals, k ≠ "" := by
      split at hempty
      · cases hempty
      · next hnone =>
        exact fun k hk => of_decide_eq_false (List.findIdx?_eq_none_iff.mp hnone k hk)
    let a : AlterDatabase := ⟨removals, .empty, ⟨hnames, rfl⟩, fun _ _ => rfl⟩
    refine ⟨.alter a, by simp [Allowed], .array (removals.map .string), .ofTexts .empty, rfl, ?_⟩
    simp [hx]
  | renameTable =>
    simp only [firstFault, readFirst, bind_eq_ok] at h
    obtain ⟨id, hid, -⟩ := h
    have hx : x.collapse = id.encode := hlookup (hs.identifier_eq_ok.mp hid)
    -- Any other table of the database will do as the destination.
    have hother : id.object ++ "_" ≠ "" := by simp
    let other : Identifier := ⟨id.database, id.object ++ "_", id.names_ne.1, hother⟩
    have hne : id ≠ other := by
      intro he
      have hlength : id.object.length = (id.object ++ "_").length :=
        congrArg (fun id => id.object.length) he
      rw [String.length_append] at hlength
      exact absurd hlength (Nat.ne_of_lt (Nat.lt_add_of_pos_right (by decide)))
    refine ⟨.rename ⟨id, other, hne⟩, by simp [Allowed], id.encode, other.encode, rfl, ?_⟩
    rw [hx, Identifier.collapse_encode]

theorem isText_text (r : Request) : Json.IsText r.encode (.ofText r.text) := by
  apply Json.parseTree_eq_ok.mp
  rw [text, Json.ofText_compact]
  exact Json.parseTree_units r.readable_encode (by decide)

/-- Whatever stands in the first field of a body, it is decided there alone whether the field is at
fault. Either some value of the other field makes a request of it, in a value and in a text, or all
bodies with it are refused with one and the same violation: whatever the other field holds, and in a
text that gives the first field once and repeats no key in it, whatever is repeated elsewhere. -/
theorem first_field_decides (k : Kind) (rules : NamingRules) (x : Json) :
    ((∃ y r, ofValue rules (k.body x y) = .ok r) ∧
      ∃ s t r, Json.IsText t s ∧ k.HasFirst x t ∧ ofSource rules s = .ok r) ∨
    ∃ v, (∀ y, ofValue rules (k.body x y) = .error (.violation v)) ∧
      ∀ s t, Json.IsText t s → k.HasFirst x t → ofSource rules s = .error (.violation v) := by
  cases h : firstFault rules k x with
  | error v =>
    exact Or.inr ⟨v, ofValue_of_firstFault h, fun s t ht hf => ofSource_of_firstFault h ht hf⟩
  | ok u =>
    obtain ⟨r, hallowed, u, y, hencode, hu⟩ := exists_of_firstFault h
    have hbody : (k.body x y).collapse = r.body := by
      rw [body, hencode]
      exact Json.collapse_pair_congr hu.symm rfl
    have hfresh : ¬u.RepeatsKey := by
      intro hr
      apply r.not_repeatsKey_encode
      rw [hencode]
      exact .member List.mem_cons_self hr
    refine Or.inl ⟨⟨y, r, ofValue_of_body hbody hallowed⟩, _, r.encode, r, r.isText_text, ?_,
      ofSource_of_allowed hallowed rfl r.not_repeatsKey_encode r.readable_encode⟩
    rw [hencode]
    exact k.hasFirst_body ⟨hu, hfresh⟩ y

example : ofSource {} (.ofText
    "\x7b\"properties\":\x7b\"a\":\"1\",\"a\":\"2\"\x7d,\"name\":\"\"\x7d") =
      .error (.violation ⟨.ofKey "name", .empty⟩) := by cbv

end Request
end Catalog
