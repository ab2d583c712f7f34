import Catalog.Proofs.SideBySide

/-! The keywords of two object schemas that are met side by side. They correspond, each in the form
in which it holds schemas. -/

namespace Catalog.Schema
variable {draft : Draft}

theorem lookup_lists {b : Bool} {ms : Entries Json} (hn : (Entries.keys ms).Nodup) {key : String}
    {w : Json} : (lists b ms).lookup key = some w ↔
      ms.lookup key = some w ∧ decide (w.shape = .array) = b := by
  have hsub : (Entries.keys (lists b ms)).Sublist (Entries.keys ms) := List.filter_sublist.map _
  constructor
  · intro h
    obtain ⟨hmem, hshape⟩ := List.mem_filter.mp (Entries.mem_of_lookup h)
    exact ⟨Entries.lookup_of_mem hn hmem, by simpa using hshape⟩
  · rintro ⟨h, hshape⟩
    have hmem : (key, w) ∈ lists b ms :=
      List.mem_filter.mpr ⟨Entries.mem_of_lookup h, by simpa using hshape⟩
    exact Entries.lookup_of_mem (hn.sublist hsub) hmem

/-- Of two lists of members, lists that hold the member with a key if and only if the other does. -/
structure Aligned (key : String) (ms ms' l l' : Entries Json) : Prop where
  left : ∀ w, l.lookup key = some w → ms.lookup key = some w
  right : ∀ w, l'.lookup key = some w → ms'.lookup key = some w
  none : l.lookup key = none ↔ l'.lookup key = none

/-- What a keyword says is there on both sides or on neither, and related if what stands under it on
the two sides is read as something related. -/
theorem Aligned.rel {key : String} {ms ms' l l' : Entries Json} (h : Aligned key ms ms' l l')
    {α : Type} {read : Json → Option α} {q : α → α → Prop} {x x' : Option α}
    (hx : Reads l key read x) (hx' : Reads l' key read x')
    (hq : ∀ u u' a a', ms.lookup key = some u → ms'.lookup key = some u' → read u = some a →
      read u' = some a' → q a a') : Option.Rel q x x' := by
  cases hu : l.lookup key with
  | none =>
    rw [reads_of_lookup_eq_none hx hu, reads_of_lookup_eq_none hx' (h.none.mp hu)]
    exact .none
  | some u =>
    obtain ⟨u', hu'⟩ := Option.ne_none_iff_exists'.mp fun hnone => by simp [h.none.mpr hnone] at hu
    obtain ⟨a, ha, rfl⟩ := reads_of_lookup hx hu
    obtain ⟨a', ha', rfl⟩ := reads_of_lookup hx' hu'
    exact .some (hq u u' a a' (h.left u hu) (h.right u' hu') ha ha')

theorem looks_eq {ms : Entries Json} {k : Keywords} (hk : k.Of draft ms) :
    k.looks = looks draft ms := by
  have hitems := isSome_of_reads hk.unevaluatedItems
  have hproperties := isSome_of_reads hk.unevaluatedProperties
  rw [Keywords.looks, ← hitems, ← hproperties, looks]
  cases draft <;> simp [only]

theorem around_eq {w : View} {ms : Entries Json} {k : Keywords} (hk : k.Of draft ms) :
    around draft w ms = w.beside k.looks := by
  rw [around, looks_eq hk]

/-- Two object schemas that are met side by side, in the documents `D` and `D'`, where the schemas
that their parts stand for are related. -/
structure Pairing (draft : Draft) (D D' : Json) (r : View → Schema → Schema → Prop) (w : View)
    (ms ms' : Entries Json) : Prop where
  inPlace : InPlace (.object ms) (.object ms')
  distinct : (Entries.keys ms).Nodup ∧ (Entries.keys ms').Nodup
  met : Counterpart draft D D' w (.object ms) (.object ms')
  whole : draft = .draft2020 ∨ ms.lookup "$ref" = none
  related : ∀ e ∈ ms, ∀ form : Form, ∀ U ∈ form.schemas e.2, ∀ g, Placing g → ∀ w' s s',
    Counterpart draft D D' w' U (g U) → ofJson? draft U = some s → ofJson? draft (g U) = some s' →
      r w' s s'

namespace Pairing
variable {D D' : Json} {r : View → Schema → Schema → Prop} {w : View} {ms ms' l l' : Entries Json}

theorem forall₂_of_common {α β : Type} {c c' : α → β → Prop} {q : β → β → Prop} {l : List α}
    {m m' : List β} (h : List.Forall₂ c l m) (h' : List.Forall₂ c' l m')
    (hq : ∀ a ∈ l, ∀ b b', c a b → c' a b' → q b b') : List.Forall₂ q m m' := by
  induction h generalizing m' with
  | nil =>
    cases h'
    exact .nil
  | cons hb _ ih =>
    cases h' with
    | cons hb' hrest =>
      obtain ⟨hhead, htail⟩ := List.forall_mem_cons.mp hq
      exact .cons (hhead _ _ hb hb') (ih hrest htail)

theorem mem_zip_map {α β γ : Type} {l : List α} (f : α → β) (g : α → γ) {x : α} (h : x ∈ l) :
    (f x, g x) ∈ (l.map f).zip (l.map g) := by
  rw [List.zip_map']
  exact List.mem_map_of_mem h

/-- Strict mode looks for a single schema under its keyword and not for schemas by name or in a list,
and the other way around. -/
theorem plain_of_one {a : Applicator} (ha : a ∈ applicators draft) (hform : a.form = .one) :
    mapKeywords.contains a.key = false ∧ listKeywords.contains a.key = false := by
  have hall : ∀ a ∈ applicators draft, a.form = .one →
      mapKeywords.contains a.key = false ∧ listKeywords.contains a.key = false := by
    cases draft <;> decide
  exact hall a ha hform

theorem plain_of_named {a : Applicator} (ha : a ∈ applicators draft) (hform : a.form = .named) :
    schemaKeywords.contains a.key = false := by
  have hall : ∀ a ∈ applicators draft, a.form = .named →
      schemaKeywords.contains a.key = false := by
    cases draft <;> decide
  exact hall a ha hform

theorem aligned (h : Pairing draft D D' r w ms ms') {key : String}
    (hkey : isOpen ms = true → key ≠ "additionalProperties") : Aligned key ms ms' ms ms' where
  left := fun _ hw => hw
  right := fun _ hw => hw
  none := (h.inPlace.lookup_eq_none hkey).symm

/-- Lists stay lists, and what is no list does not become one. -/
theorem aligned_lists (h : Pairing draft D D' r w ms ms') {key : String}
    (hkey : isOpen ms = true → key ≠ "additionalProperties") (b : Bool) :
    Aligned key ms ms' (lists b ms) (lists b ms') where
  left := fun _ hw => ((lookup_lists h.distinct.1).mp hw).1
  right := fun _ hw => ((lookup_lists h.distinct.2).mp hw).1
  none := by
    obtain ⟨m, hm, hlookup⟩ : ∃ m : Json → Json, (∀ w, (m w).shape = w.shape) ∧
        ms'.lookup key = (ms.lookup key).map m := by
      rcases h.inPlace.lookup hkey with h | h
      · exact ⟨id, fun _ => rfl, by rw [h, Option.map_id, id]⟩
      · exact ⟨strictMember key, shape_strictMember key, h⟩
    cases hw : ms.lookup key with
    | none =>
      rw [hw, Option.map_none] at hlookup
      simp [Option.eq_none_iff_forall_ne_some, lookup_lists h.distinct.1, lookup_lists h.distinct.2,
        hw, hlookup]
    | some w =>
      rw [hw, Option.map_some] at hlookup
      simp [Option.eq_none_iff_forall_ne_some, lookup_lists h.distinct.1, lookup_lists h.distinct.2,
        hw, hlookup, hm]

section Under
variable {a : Applicator} (h : Pairing draft D D' r w ms ms') (ha : a ∈ applicators draft)
  (hserves : a.serves (around draft w ms) ms = true)
  (hkey : isOpen ms = true → a.key ≠ "additionalProperties") (hl : Aligned a.key ms ms' l l')
include h ha hserves hkey hl

theorem one (hform : a.form = .one) {x x' : Option Schema} (hx : Reads l a.key (ofJson? draft) x)
    (hx' : Reads l' a.key (ofJson? draft) x') :
    Option.Rel (r (a.turn.view (around draft w ms))) x x' := by
  refine hl.rel hx hx' fun u u' s s' hu hu' hs hs' => ?_
  obtain ⟨hmap, hlist⟩ := plain_of_one ha hform
  obtain ⟨g, hg, hplaced⟩ := h.inPlace.lookup_one hkey hmap hlist hu
  obtain rfl : u' = g u := Option.some.inj (hu'.symm.trans hplaced)
  have hpart : Counterpart draft D D' (a.turn.view (around draft w ms)) u (g u) :=
    .part h.met ha (heeded_of_whole h.whole hserves) hu hu' (by simp [hform, Form.schemas])
  exact h.related _ (Entries.mem_of_lookup hu) .one u (by simp [Form.schemas]) g hg _ s s' hpart hs
    hs'

theorem list (hform : a.form = .list) {x x' : Option (List Schema)}
    (hx : Reads l a.key (schemas? draft) x) (hx' : Reads l' a.key (schemas? draft) x') :
    Option.Rel (List.Forall₂ (r (a.turn.view (around draft w ms)))) x x' := by
  refine hl.rel hx hx' fun u u' ss ss' hu hu' hss hss' => ?_
  obtain ⟨vs, rfl, hlist⟩ := array_of_schemas hss
  obtain ⟨g, hg, hplaced⟩ := h.inPlace.lookup_list hkey hu
  obtain rfl : u' = .array (vs.map g) := Option.some.inj (hu'.symm.trans hplaced)
  obtain ⟨vs', hvs', hlist'⟩ := array_of_schemas hss'
  cases hvs'
  refine forall₂_of_common hlist (List.forall₂_map_left_iff.mp hlist') ?_
  intro U hU s s' hs hs'
  have hzip := mem_zip_map (fun V => V) g hU
  rw [List.map_id'] at hzip
  have hpart : Counterpart draft D D' (a.turn.view (around draft w ms)) U (g U) :=
    .part h.met ha (heeded_of_whole h.whole hserves) hu hu'
      (by simpa only [hform, Form.schemas] using hzip)
  exact h.related _ (Entries.mem_of_lookup hu) .list U hU g hg _ s s' hpart hs hs'

/-- The schemas that are read by name from some of the members under a keyword. -/
theorem named (hform : a.form = .named) {read : Json → Option (List (String × Schema))}
    {pick : Entries Json → Entries Json} (hread : ∀ v known, read v = some known →
      ∃ children, v = .object children ∧ named? draft (pick children) = some known)
    (hsub : ∀ children, ∀ e ∈ pick children, e ∈ children)
    (hpick : ∀ g, Placing g → ∀ children, pick (children.map fun e => (e.1, g e.2)) =
      (pick children).map fun e => (e.1, g e.2)) {x x' : Option (List (String × Schema))}
    (hx : Reads l a.key read x) (hx' : Reads l' a.key read x') :
    Option.Rel (Named (r (a.turn.view (around draft w ms)))) x x' := by
  refine hl.rel hx hx' fun u u' known known' hu hu' hknown hknown' => ?_
  obtain ⟨children, rfl, hnamed⟩ := hread u known hknown
  obtain ⟨g, hg, hplaced⟩ := h.inPlace.lookup_named hkey (plain_of_named ha hform) hu
  obtain rfl : u' = .object (children.map fun e => (e.1, g e.2)) :=
    Option.some.inj (hu'.symm.trans hplaced)
  obtain ⟨children', hchildren', hnamed'⟩ := hread _ known' hknown'
  cases hchildren'
  rw [hpick g hg] at hnamed'
  refine forall₂_of_common (named?_eq_some.mp hnamed)
    (List.forall₂_map_left_iff.mp (named?_eq_some.mp hnamed')) ?_
  rintro e he s s' ⟨hname, hs⟩ ⟨hname', hs'⟩
  refine ⟨hname'.trans hname.symm, ?_⟩
  have hchild := hsub children e he
  have hzip : (e.2, g e.2) ∈ (children.map Prod.snd).zip
      ((children.map fun e => (e.1, g e.2)).map Prod.snd) := by
    rw [List.map_map]
    exact mem_zip_map Prod.snd (fun e => g e.2) hchild
  have hpart : Counterpart draft D D' (a.turn.view (around draft w ms)) e.2 (g e.2) :=
    .part h.met ha (heeded_of_whole h.whole hserves) hu hu'
      (by simpa only [hform, Form.schemas] using hzip)
  exact h.related _ (Entries.mem_of_lookup hu) .named e.2 (List.mem_map_of_mem hchild) g hg _ s.2
    s'.2 hpart hs hs'

end Under

section Keyword
variable (h : Pairing draft D D' r w ms ms') (a : Applicator) (ha : a ∈ applicators draft)
  {view : View} (hview : a.turn.view (around draft w ms) = view)
  (hserves : a.serves (around draft w ms) ms = true) (hne : a.key ≠ "additionalProperties")
include h ha hview hserves hne

/-- The schemas under a keyword that is read from its member, in each form. -/
theorem schema (hform : a.form = .one) {x x' : Option Schema}
    (hx : Reads ms a.key (ofJson? draft) x) (hx' : Reads ms' a.key (ofJson? draft) x') :
    Option.Rel (r view) x x' :=
  hview ▸ h.one ha hserves (fun _ => hne) (h.aligned fun _ => hne) hform hx hx'

theorem schemas (hform : a.form = .list) {x x' : Option (List Schema)}
    (hx : Reads ms a.key (schemas? draft) x) (hx' : Reads ms' a.key (schemas? draft) x') :
    Option.Rel (List.Forall₂ (r view)) x x' :=
  hview ▸ h.list ha hserves (fun _ => hne) (h.aligned fun _ => hne) hform hx hx'

theorem members (hform : a.form = .named) {x x' : Option (List (String × Schema))}
    (hx : Reads ms a.key (members? draft) x) (hx' : Reads ms' a.key (members? draft) x') :
    Option.Rel (Named (r view)) x x' := by
  have hread (v : Json) (known : List (String × Schema)) (hv : members? draft v = some known) :
      ∃ children, v = .object children ∧ named? draft (id children) = some known := by
    obtain ⟨children, rfl, -⟩ := object_of_members hv
    exact ⟨children, rfl, hv⟩
  exact hview ▸ h.named ha hserves (fun _ => hne) (h.aligned fun _ => hne) hform hread
    (fun _ _ he => he) (fun _ _ _ => rfl) hx hx'

/-- What depends on a member is read where it is no list of names, and such lists stay lists. -/
theorem dependents (hform : a.form = .named) {x x' : Option (List (String × Schema))}
    (hx : Reads ms a.key (dependents? draft) x) (hx' : Reads ms' a.key (dependents? draft) x') :
    Option.Rel (Named (r view)) x x' := by
  have hread (v : Json) (known : List (String × Schema)) (hv : dependents? draft v = some known) :
      ∃ children, v = .object children ∧ named? draft (lists false children) = some known := by
    cases v with
    | object children => exact ⟨children, rfl, (unlisted?_eq children).symm.trans hv⟩
    | _ => cases hv
  have hpick (g : Json → Json) (hg : Placing g) (children : Entries Json) :
      lists false (children.map fun e => (e.1, g e.2)) =
        (lists false children).map fun e => (e.1, g e.2) := by
    have hshape (v : Json) : (g v).shape = v.shape := by
      rcases hg with rfl | rfl
      · rfl
      · exact shape_strict v
    simp [lists, List.filter_map, Function.comp_def, hshape]
  exact hview ▸ h.named ha hserves (fun _ => hne) (h.aligned fun _ => hne) hform hread
    (fun _ _ he => List.mem_of_mem_filter he) hpick hx hx'

end Keyword

/-- A keyword that holds no schemas says the same. -/
theorem same (h : Pairing draft D D' r w ms ms') {key : String}
    (hkey : [schemaKeywords, mapKeywords, listKeywords].all (!List.contains · key) = true ∧
      key ≠ "additionalProperties") {α : Type} {read : Json → Option α} {x x' : Option α}
    (hx : Reads ms key read x) (hx' : Reads ms' key read x') : x' = x := by
  simp only [List.all_cons, List.all_nil, Bool.and_true, Bool.and_eq_true,
    Bool.not_eq_true'] at hkey
  obtain ⟨⟨hs, hm, hl⟩, hne⟩ := hkey
  exact h.inPlace.plain (fun _ => hne) hs hm hl hx hx'

theorem reads_only {d : Draft} {key : String} {α : Type} {read : Json → Option α} {x : Option α}
    (hx : Reads (only d draft ms) key read x) : draft = d ∧ Reads ms key read x ∨
      draft ≠ d ∧ x = none := by
  unfold only at hx
  split at hx
  · next hd => exact Or.inl ⟨hd, hx⟩
  · next hd => exact Or.inr ⟨hd, reads_of_lookup_eq_none hx rfl⟩

/-- A keyword of the one draft is there in it, and in the other it is passed over on both sides. -/
theorem of_reads_only {d : Draft} {key : String} {α : Type} {read : Json → Option α}
    {P : Option α → Option α → Prop} {x x' : Option α} (hx : Reads (only d draft ms) key read x)
    (hx' : Reads (only d draft ms') key read x')
    (h : draft = d → Reads ms key read x → Reads ms' key read x' → P x x') (hnone : P none none) :
    P x x' := by
  rcases reads_only hx with ⟨hd, hread⟩ | ⟨hd, rfl⟩ <;>
    rcases reads_only hx' with ⟨hd', hread'⟩ | ⟨hd', rfl⟩
  · exact h hd hread hread'
  · exact absurd hd hd'
  · exact absurd hd' hd
  · exact hnone

theorem schema_only (h : Pairing draft D D' r w ms ms') {d : Draft} (a : Applicator)
    (ha : a ∈ applicators d) {view : View} (hview : a.turn.view (around draft w ms) = view)
    (hserves : draft = d → a.serves (around draft w ms) ms = true)
    (hne : a.key ≠ "additionalProperties") (hform : a.form = .one) {x x' : Option Schema}
    (hx : Reads (only d draft ms) a.key (ofJson? draft) x)
    (hx' : Reads (only d draft ms') a.key (ofJson? draft) x') : Option.Rel (r view) x x' := by
  refine of_reads_only hx hx' (fun hd hread hread' => ?_) .none
  exact h.schema a (hd ▸ ha) hview (hserves hd) hne hform hread hread'

theorem same_only (h : Pairing draft D D' r w ms ms') {d : Draft} {key : String}
    (hkey : [schemaKeywords, mapKeywords, listKeywords].all (!List.contains · key) = true ∧
      key ≠ "additionalProperties") {α : Type} {read : Json → Option α} {x x' : Option α}
    (hx : Reads (only d draft ms) key read x) (hx' : Reads (only d draft ms') key read x') :
    x' = x :=
  of_reads_only (P := fun x x' => x' = x) hx hx' (fun _ => h.same hkey) rfl

/-- An excluded schema is kept with its source, which says nothing more. -/
theorem excluded (h : Pairing draft D D' r w ms ms') {x x' : Option (Json × Schema)}
    (hx : Reads ms "not" (fun v => (ofJson? draft v).map fun s => (v, s)) x)
    (hx' : Reads ms' "not" (fun v => (ofJson? draft v).map fun s => (v, s)) x') :
    Option.Rel (fun e e' => r w.opposite e.2 e'.2) x x' := by
  have hschema {ms : Entries Json} {x : Option (Json × Schema)}
      (hx : Reads ms "not" (fun v => (ofJson? draft v).map fun s => (v, s)) x) :
      Reads ms "not" (ofJson? draft) (x.map Prod.snd) := by
    unfold Reads at *
    cases hu : ms.lookup "not" with
    | none =>
      rw [hu] at hx
      cases x <;> simp at hx ⊢
    | some u =>
      obtain ⟨e, he, rfl⟩ := reads_of_lookup hx hu
      obtain ⟨s, hs, rfl⟩ := Option.map_eq_some_iff.mp he
      simp [hs]
  have hrel := h.schema ⟨"not", .one, .opposite⟩ (by cases draft <;> decide) rfl rfl (by decide)
    rfl (hschema hx) (hschema hx')
  cases x <;> cases x' <;> cases hrel
  · exact .none
  · next hs => exact .some hs

section Keywords
variable (h : Pairing draft D D' r w ms ms') {k k' : Keywords} (hk : k.Of draft ms)
  (hk' : k'.Of draft ms')
include h hk hk'

theorem additional {closes : Prop} (hcloses : isOpen ms = true → ms' ≠ ms → closes) :
    Option.Rel (r w.part) k.additionalProperties k'.additionalProperties ∨
      closes ∧ k.additionalProperties = none ∧ k'.additionalProperties = some .nothing := by
  by_cases ho : isOpen ms = true
  · have hnone : ms.lookup "additionalProperties" = none := (isOpen_eq_true.mp ho).2
    have habsent := reads_of_lookup_eq_none hk.additionalProperties hnone
    -- The left says nothing about other members, and the right either nothing too or closes them.
    rcases h.inPlace with hsame | hstrict
    · rw [Json.object.injEq] at hsame
      rw [habsent, reads_of_lookup_eq_none hk'.additionalProperties (hsame ▸ hnone)]
      exact Or.inl .none
    · rw [strict_object, Json.object.injEq] at hstrict
      have hclosed := lookup_strictObject_of_open ho
      rw [← hstrict] at hclosed
      obtain ⟨s, hs, hk'⟩ := reads_of_lookup hk'.additionalProperties hclosed
      have hne : ms' ≠ ms := by
        intro hsame
        rw [hsame, hnone] at hclosed
        cases hclosed
      refine Or.inr ⟨hcloses ho hne, habsent, ?_⟩
      rw [hk', ← hs]
      rfl
  · have hkey : isOpen ms = true → "additionalProperties" ≠ "additionalProperties" :=
      fun ho' => absurd ho' ho
    exact Or.inl (h.one (a := ⟨"additionalProperties", .one, .part⟩)
      (List.mem_append_left _ (by decide)) rfl hkey (h.aligned hkey) rfl
      hk.additionalProperties hk'.additionalProperties)

theorem assertions : k'.assertions = k.assertions := by
  have hdependent : k'.dependentRequired = k.dependentRequired := by
    cases draft with
    | draft2020 => exact h.same (by decide) (hk.dependentRequired rfl) (hk'.dependentRequired rfl)
    | draft7 =>
      exact h.same (by decide) (hk.oldDependentRequired rfl) (hk'.oldDependentRequired rfl)
  simp only [Keywords.assertions, h.same (by decide) hk.type hk'.type,
    h.same (by decide) hk.const hk'.const, h.same (by decide) hk.enum hk'.enum,
    h.same (by decide) hk.minimum hk'.minimum, h.same (by decide) hk.maximum hk'.maximum,
    h.same (by decide) hk.exclusiveMinimum hk'.exclusiveMinimum,
    h.same (by decide) hk.exclusiveMaximum hk'.exclusiveMaximum,
    h.same (by decide) hk.minLength hk'.minLength, h.same (by decide) hk.maxLength hk'.maxLength,
    h.same (by decide) hk.minItems hk'.minItems, h.same (by decide) hk.maxItems hk'.maxItems,
    h.same (by decide) hk.minProperties hk'.minProperties,
    h.same (by decide) hk.maxProperties hk'.maxProperties,
    h.same (by decide) hk.uniqueItems hk'.uniqueItems, hdependent]

theorem items : Option.Rel (r w.part) k.items k'.items := by
  cases draft with
  | draft2020 =>
    exact h.schema ⟨"items", .one, .part⟩ (by decide) rfl rfl (by decide) rfl (hk.items rfl)
      (hk'.items rfl)
  | draft7 =>
    exact h.one (a := ⟨"items", .one, .part⟩) (by decide) rfl (fun _ => by decide)
      (h.aligned_lists (fun _ => by decide) false) rfl (hk.oldItems rfl) (hk'.oldItems rfl)

theorem prefixItems : Option.Rel (List.Forall₂ (r w.part)) k.prefixItems k'.prefixItems := by
  cases draft with
  | draft2020 =>
    exact h.schemas ⟨"prefixItems", .list, .part⟩ (by decide) rfl rfl (by decide) rfl
      (hk.prefixItems rfl) (hk'.prefixItems rfl)
  | draft7 =>
    exact h.list (a := ⟨"items", .list, .part⟩) (by decide) rfl (fun _ => by decide)
      (h.aligned_lists (fun _ => by decide) true) rfl (hk.oldPrefixItems rfl)
      (hk'.oldPrefixItems rfl)

/-- Further items wait for a list of those that come before them. -/
theorem furtherItems : Option.Rel (r w.part) k.furtherItems k'.furtherItems := by
  have hthere := Keywords.isSome_of_rel (h.prefixItems hk hk')
  rw [Keywords.furtherItems, Keywords.furtherItems, hthere]
  split
  · next hprefix =>
    refine h.schema_only ⟨"additionalItems", .one, .part⟩ (by decide) rfl ?_ (by decide) rfl
      hk.additionalItems hk'.additionalItems
    intro hd
    obtain ⟨ss, hss⟩ := Option.isSome_iff_exists.mp hprefix
    obtain ⟨u, hu, -⟩ := reads_some (hss ▸ hk.oldPrefixItems hd)
    obtain ⟨hlookup, hshape⟩ := (lookup_lists h.distinct.1).mp hu
    have hserves : (ms.lookup "items").any (·.shape = .array) = true := by
      rw [hlookup]
      exact hshape
    exact hserves
  · exact .none

theorem dependentSchemas :
    Option.Rel (Named (r (w.beside k.looks))) k.dependentSchemas k'.dependentSchemas := by
  cases draft with
  | draft2020 =>
    exact h.members ⟨"dependentSchemas", .named, .beside⟩ (by decide) (around_eq hk) rfl
      (by decide) rfl (hk.dependentSchemas rfl) (hk'.dependentSchemas rfl)
  | draft7 =>
    exact h.dependents ⟨"dependencies", .named, .beside⟩ (by decide) (around_eq hk) rfl
      (by decide) rfl (hk.oldDependentSchemas rfl) (hk'.oldDependentSchemas rfl)

/-- Acceptance and refusal both hang on a condition, each for the one of the two outcomes. -/
theorem conditionExcluded (hthere : k.consequence.isSome = true ∨
    (w.beside k.looks).watched = true ∧ k.alternative.isSome = true) :
    Option.Rel (r w.opposite) k.condition k'.condition := by
  have hserves : ((ms.lookup "then").isSome ||
      (around draft w ms).watched && (ms.lookup "else").isSome) = true := by
    rw [isSome_of_reads hk.consequence, isSome_of_reads hk.alternative, around_eq hk]
    rcases hthere with hthen | ⟨hwatched, helse⟩
    · rw [hthen, Bool.true_or]
    · rw [hwatched, helse, Bool.and_true, Bool.or_true]
  exact h.schema ⟨"if", .one, .opposite⟩ (List.mem_append_left _ (by decide)) rfl hserves
    (by decide) rfl hk.condition hk'.condition

theorem conditionKept (hthere : k.alternative.isSome = true ∨ k.consequence = none ∨
    (w.beside k.looks).watched = true) :
    Option.Rel (r (w.beside k.looks)) k.condition k'.condition := by
  have hserves : ((ms.lookup "else").isSome || (ms.lookup "then").isNone ||
      (around draft w ms).watched) = true := by
    rw [isSome_of_reads hk.alternative, ← Option.not_isSome, isSome_of_reads hk.consequence,
      around_eq hk]
    rcases hthere with helse | hthen | hwatched
    · rw [helse, Bool.true_or, Bool.true_or]
    · rw [hthen, Option.isSome_none, Bool.not_false, Bool.or_true, Bool.true_or]
    · rw [hwatched, Bool.or_true]
  exact h.schema ⟨"if", .one, .beside⟩ (List.mem_append_left _ (by decide)) (around_eq hk) hserves
    (by decide) rfl hk.condition hk'.condition

theorem containsExcluded (hthere : k.maxContains.isSome = true) :
    Option.Rel (r w.opposite) k.contains k'.contains := by
  rcases reads_only hk.maxContains with ⟨rfl, hmost⟩ | ⟨-, hnone⟩
  · exact h.schema ⟨"contains", .one, .opposite⟩ (by decide) rfl
      ((isSome_of_reads hmost).trans hthere) (by decide) rfl hk.contains hk'.contains
  · simp [hnone] at hthere

/-- The keywords of two object schemas that are met side by side correspond. Other members are
closed on the right only where the left leaves them open. -/
theorem paired {closes : Prop} (hcloses : isOpen ms = true → ms' ≠ ms → closes) :
    Keywords.Paired r closes w k k' := by
  have hshared {a : Applicator} (ha : a ∈ sharedApplicators) : a ∈ applicators draft :=
    List.mem_append_left _ ha
  have hbeside := around_eq (w := w) hk
  exact {
    assertions := h.assertions hk hk'
    required := h.same (by decide) hk.required hk'.required
    pattern := h.same (by decide) hk.pattern hk'.pattern
    ref := h.same (by decide) hk.ref hk'.ref
    references := by
      rw [Keywords.references, Keywords.references, h.same (by decide) hk.ref hk'.ref,
        h.same_only (by decide) hk.dynamicRef hk'.dynamicRef]
    minContains := h.same_only (by decide) hk.minContains hk'.minContains
    maxContains := h.same_only (by decide) hk.maxContains hk'.maxContains
    properties := h.members ⟨"properties", .named, .part⟩ (hshared (by decide)) rfl rfl (by decide)
      rfl hk.properties hk'.properties
    patternProperties := h.members ⟨"patternProperties", .named, .part⟩ (hshared (by decide)) rfl
      rfl (by decide) rfl hk.patternProperties hk'.patternProperties
    additionalProperties := h.additional hk hk' hcloses
    propertyNames := h.schema ⟨"propertyNames", .one, .part⟩ (hshared (by decide)) rfl rfl
      (by decide) rfl hk.propertyNames hk'.propertyNames
    items := h.items hk hk'
    prefixItems := h.prefixItems hk hk'
    furtherItems := h.furtherItems hk hk'
    contains := h.schema ⟨"contains", .one, .part⟩ (hshared (by decide)) rfl rfl (by decide) rfl
      hk.contains hk'.contains
    containsExcluded := h.containsExcluded hk hk'
    dependentSchemas := h.dependentSchemas hk hk'
    allOf := h.schemas ⟨"allOf", .list, .beside⟩ (hshared (by decide)) hbeside rfl (by decide) rfl
      hk.allOf hk'.allOf
    anyOf := h.schemas ⟨"anyOf", .list, .beside⟩ (hshared (by decide)) hbeside rfl (by decide) rfl
      hk.anyOf hk'.anyOf
    oneOf := h.schemas ⟨"oneOf", .list, .beside⟩ (hshared (by decide)) hbeside rfl (by decide) rfl
      hk.oneOf hk'.oneOf
    oneOfExcluded := h.schemas ⟨"oneOf", .list, .opposite⟩ (hshared (by decide)) rfl rfl (by decide)
      rfl hk.oneOf hk'.oneOf
    excluded := h.excluded hk.excluded hk'.excluded
    conditionExcluded := h.conditionExcluded hk hk'
    conditionKept := h.conditionKept hk hk'
    consequence := fun hc => h.schema ⟨"then", .one, .beside⟩ (hshared (by decide)) hbeside
      ((isSome_of_reads hk.condition).trans hc) (by decide) rfl hk.consequence hk'.consequence
    alternative := fun hc => h.schema ⟨"else", .one, .beside⟩ (hshared (by decide)) hbeside
      ((isSome_of_reads hk.condition).trans hc) (by decide) rfl hk.alternative hk'.alternative
    unevaluatedItems := h.schema_only ⟨"unevaluatedItems", .one, .part⟩ (by decide) rfl
      (fun _ => rfl) (by decide) rfl hk.unevaluatedItems hk'.unevaluatedItems
    unevaluatedProperties := h.schema_only ⟨"unevaluatedProperties", .one, .part⟩ (by decide) rfl
      (fun _ => rfl) (by decide) rfl hk.unevaluatedProperties hk'.unevaluatedProperties }

end Keywords
end Pairing
end Catalog.Schema
