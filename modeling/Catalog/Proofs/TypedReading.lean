import Catalog.Proofs.Bodies
import Catalog.Proofs.Lockstep

/-! Requests read by a form of their own type. Where the body and its identifiers are objects, such
a form reads a body as the same request as the reader that finds out the kind, or both refuse it. -/

namespace Catalog
namespace Form
variable {α β : Type} {name ka kb : String} {f : Form α} {g : Form β} {ea : α → Json}
  {eb : β → Json} {pa pb : Json → Prop}

/-- A member of a record of two fields: it has the key of a field that is not there yet, and spells
its value. -/
def pairStep (ka kb : String) (ea : α → Json) (eb : β → Json) (st : Option α × Option β)
    (e : String × Json) (out : Option α × Option β) : Prop :=
  (e.1 = ka ∧ st.1 = none ∧ ∃ x, e.2.Spells (ea x) ∧ out = (some x, st.2)) ∨
    (e.1 = kb ∧ st.2 = none ∧ ∃ y, e.2.Spells (eb y) ∧ out = (st.1, some y))

section Steps
variable {x : α} {y : β} {ms : Entries Json} {st out : Option α × Option β}

theorem takenUp_pairStep_full :
    Json.TakenUp (pairStep ka kb ea eb) (some x, some y) ms out ↔
      ms = [] ∧ out = (some x, some y) := by
  cases ms with
  | nil => simp
  | cons e ms => simp [pairStep]

theorem takenUp_pairStep_first {x' : α} :
    Json.TakenUp (pairStep ka kb ea eb) (some x', none) ms (some x, some y) ↔
      x' = x ∧ ∃ w, w.Spells (eb y) ∧ ms = [(kb, w)] := by
  cases ms with
  | nil => simp
  | cons e ms =>
    obtain ⟨k, w⟩ := e
    rw [Json.takenUp_cons]
    constructor
    · rintro ⟨mid, hstep, hmore⟩
      simp only [pairStep, reduceCtorEq, false_and, and_false, false_or, true_and] at hstep
      obtain ⟨rfl, y', hw, rfl⟩ := hstep
      obtain ⟨rfl, hout⟩ := takenUp_pairStep_full.mp hmore
      cases hout
      exact ⟨rfl, w, hw, rfl⟩
    · rintro ⟨rfl, w, hw, hms⟩
      cases hms
      exact ⟨_, Or.inr ⟨rfl, rfl, y, hw, rfl⟩, takenUp_pairStep_full.mpr ⟨rfl, rfl⟩⟩

theorem takenUp_pairStep_second {y' : β} :
    Json.TakenUp (pairStep ka kb ea eb) (none, some y') ms (some x, some y) ↔
      y' = y ∧ ∃ u, u.Spells (ea x) ∧ ms = [(ka, u)] := by
  cases ms with
  | nil => simp
  | cons e ms =>
    obtain ⟨k, u⟩ := e
    rw [Json.takenUp_cons]
    constructor
    · rintro ⟨mid, hstep, hmore⟩
      simp only [pairStep, reduceCtorEq, false_and, and_false, or_false, true_and] at hstep
      obtain ⟨rfl, x', hu, rfl⟩ := hstep
      obtain ⟨rfl, hout⟩ := takenUp_pairStep_full.mp hmore
      cases hout
      exact ⟨rfl, u, hu, rfl⟩
    · rintro ⟨rfl, u, hu, hms⟩
      cases hms
      exact ⟨_, Or.inl ⟨rfl, rfl, x, hu, rfl⟩, takenUp_pairStep_full.mpr ⟨rfl, rfl⟩⟩

/-- A record of two fields is filled by the members of an object that spells it. -/
theorem takenUp_pairStep (hab : ka ≠ kb) :
    Json.TakenUp (pairStep ka kb ea eb) (none, none) ms (some x, some y) ↔
      (Json.object ms).Spells (.object [(ka, ea x), (kb, eb y)]) := by
  rw [Json.spells_pair hab]
  cases ms with
  | nil => simp
  | cons e ms =>
    obtain ⟨k, v⟩ := e
    rw [Json.takenUp_cons]
    constructor
    · rintro ⟨mid, ⟨rfl, -, x', hv, rfl⟩ | ⟨rfl, -, y', hv, rfl⟩, hmore⟩
      · obtain ⟨rfl, w, hw, rfl⟩ := takenUp_pairStep_first.mp hmore
        exact ⟨v, w, hv, hw, Or.inl rfl⟩
      · obtain ⟨rfl, u, hu, rfl⟩ := takenUp_pairStep_second.mp hmore
        exact ⟨u, v, hu, hv, Or.inr rfl⟩
    · rintro ⟨u, w, hu, hw, h | h⟩
      · cases h
        exact ⟨_, Or.inl ⟨rfl, rfl, x, hu, rfl⟩, takenUp_pairStep_first.mpr ⟨rfl, w, hw, rfl⟩⟩
      · cases h
        exact ⟨_, Or.inr ⟨rfl, rfl, y, hw, rfl⟩, takenUp_pairStep_second.mpr ⟨rfl, u, hu, rfl⟩⟩

end Steps

section Members
variable {st out : Option α × Option β}

theorem slot?_pair_first : (pairRecord name (ka, f) (kb, g)).slot? ka =
    some (slot ka f (·.1) fun x st => (some x, st.2)) := by
  simp [Record.slot?, pairRecord, slot]

theorem slot?_pair_second (hab : ka ≠ kb) : (pairRecord name (ka, f) (kb, g)).slot? kb =
    some (slot kb g (·.2) fun y st => (st.1, some y)) := by
  simp [Record.slot?, pairRecord, slot, hab]

theorem slot?_pair_other {k : String} (ha : k ≠ ka) (hb : k ≠ kb) :
    (pairRecord name (ka, f) (kb, g)).slot? k = none := by
  simp [Record.slot?, pairRecord, slot, ha.symm, hb.symm]

theorem pairStep_first (hab : ka ≠ kb) {v : Json} : pairStep ka kb ea eb st (ka, v) out ↔
    st.1 = none ∧ ∃ x, v.Spells (ea x) ∧ out = (some x, st.2) := by
  simp [pairStep, hab]

theorem pairStep_second (hab : ka ≠ kb) {v : Json} : pairStep ka kb ea eb st (kb, v) out ↔
    st.2 = none ∧ ∃ y, v.Spells (eb y) ∧ out = (st.1, some y) := by
  simp [pairStep, hab.symm]

theorem readMember_pair_eq_ok (hab : ka ≠ kb) (hf : f.Follows ea pa) (hg : g.Follows eb pb)
    {depth : Nat} {k : String} {s s₁ rest : Json.Source} {v : Json}
    (hcolon : Json.readColon s = .ok ((), s₁))
    (hv : Json.readValue .exact depth s₁ = .ok (v, rest)) (ha : k = ka → pa v) (hb : k = kb → pb v)
    (st out : Option α × Option β) (rest' : Json.Source) :
    (pairRecord name (ka, f) (kb, g)).readMember depth st k s = .ok (out, rest') ↔
      pairStep ka kb ea eb st (k, v) out ∧ rest' = rest := by
  have hcolon := readColon_of_json hcolon
  by_cases hka : k = ka
  · subst hka
    rw [Record.readMember, slot?_pair_first, pairStep_first hab]
    obtain ⟨x | x, y⟩ := st
    · have h := hf.map_text hv (ha rfl) (fun x => (some x, y)) out rest'
      simpa [hcolon, slot, bind, Except.bind] using h
    · simp [slot]
  · by_cases hkb : k = kb
    · subst hkb
      rw [Record.readMember, slot?_pair_second hab, pairStep_second hab]
      obtain ⟨x, y | y⟩ := st
      · have h := hg.map_text hv (hb rfl) (fun y => (x, some y)) out rest'
        simpa [hcolon, slot, bind, Except.bind] using h
      · simp [slot]
    · rw [Record.readMember, slot?_pair_other hka hkb]
      simp [pairRecord, pairStep, hka, hkb]

theorem valueMembers_pair_eq_ok (name : String) (hab : ka ≠ kb) (hf : f.Follows ea pa)
    (hg : g.Follows eb pb)
    {ms : Entries Json} (hc : ∀ e ∈ ms, e.2.collapse = e.2)
    (hp : ∀ e ∈ ms, (e.1 = ka → pa e.2) ∧ (e.1 = kb → pb e.2)) :
    (pairRecord name (ka, f) (kb, g)).valueMembers st ms = .ok out ↔
      Json.TakenUp (pairStep ka kb ea eb) st ms out := by
  induction ms generalizing st with
  | nil => simp [Record.valueMembers, eq_comm]
  | cons e ms ih =>
    obtain ⟨k, v⟩ := e
    have hv : v.collapse = v := hc (k, v) List.mem_cons_self
    obtain ⟨ha, hb⟩ := hp (k, v) List.mem_cons_self
    have hmore : ∀ st, (pairRecord name (ka, f) (kb, g)).valueMembers st ms = .ok out ↔
        Json.TakenUp (pairStep ka kb ea eb) st ms out := fun _ =>
      ih (fun e he => hc e (List.mem_cons_of_mem _ he)) fun e he =>
        hp e (List.mem_cons_of_mem _ he)
    rw [Json.takenUp_cons, Record.valueMembers]
    by_cases hka : k = ka
    · subst hka
      rw [slot?_pair_first]
      simp only [pairStep_first hab]
      obtain ⟨x | x, y⟩ := st
      · have h := hf.map_value hv (ha rfl) (fun x => (some x, y))
        simp [slot, bind_eq_ok, hmore, h]
      · simp [slot]
    · by_cases hkb : k = kb
      · subst hkb
        rw [slot?_pair_second hab]
        simp only [pairStep_second hab]
        obtain ⟨x, y | y⟩ := st
        · have h := hg.map_value hv (hb rfl) (fun y => (x, some y))
          simp [slot, bind_eq_ok, hmore, h]
        · simp [slot]
      · rw [slot?_pair_other hka hkb]
        simp [pairRecord, pairStep, hka, hkb]

end Members

/-- The object of a record of two fields, whose fields hold what their forms are at home with. -/
def FitsPair (ka kb : String) (pa pb : Json → Prop) (v : Json) : Prop :=
  ∃ ms, v = .object ms ∧ ∀ e ∈ ms, (e.1 = ka → pa e.2) ∧ (e.1 = kb → pb e.2)

theorem close_pair_eq_ok {st : Option α × Option β} {p : α × β} :
    (pairRecord name (ka, f) (kb, g)).close st = .ok p ↔ st = (some p.1, some p.2) := by
  obtain ⟨x | x, y | y⟩ := st <;>
    simp [pairRecord, filledOr, bind, Except.bind, pure, Except.pure, Prod.ext_iff]

theorem closeText_pair_eq_ok {st : Option α × Option β} {p : α × β} {s rest : Json.Source} :
    (pairRecord name (ka, f) (kb, g)).closeText st s = .ok (p, rest) ↔
      st = (some p.1, some p.2) ∧ rest = s := by
  have hclose : (pairRecord name (ka, f) (kb, g)).close st = .ok p ↔ st = (some p.1, some p.2) :=
    close_pair_eq_ok
  rw [← hclose, Record.closeText]
  rcases h : (pairRecord name (ka, f) (kb, g)).close st with m | q <;> simp [eq_comm]

theorem Follows.pair (name ka kb : String) (hab : ka ≠ kb) (hf : f.Follows ea pa)
    (hg : g.Follows eb pb) :
    (pair name (ka, f) (kb, g)).Follows (fun p => .object [(ka, ea p.1), (kb, eb p.2)])
      (FitsPair ka kb pa pb) where
  text := by
    intro depth s v rest hv hp p rest'
    obtain ⟨ms, rfl, hp⟩ := hp
    generalize ho : Json.object ms = v at hv
    cases Json.treeRead_of_readValue hv with
    | scalar _ hn front => exact absurd (by rw [← ho]; rfl) hn
    | array front => cases ho
    | @object depth all s₁ _ front members =>
      cases ho
      obtain ⟨ms, hall, hfold⟩ := Json.foldMembers_lockstep Fault.unread
        ((pairRecord name (ka, f) (kb, g)).readMember depth) (pairStep ka kb ea eb)
        (fun e => (e.1 = ka → pa e.2) ∧ (e.1 = kb → pb e.2))
        (fun hcolon hv hp => readMember_pair_eq_ok hab hf hg hcolon hv hp.1 hp.2) members
      have hms : all.reverse = ms := by simp [hall]
      rw [hms] at hp ⊢
      -- The members fill the two slots, and with both of them filled the record is closed.
      have hform : (Form.pair name (ka, f) (kb, g)).fromText (depth + 1) s = .ok (p, rest') ↔
          ∃ r, Json.foldMembers .unread .exact ((pairRecord name (ka, f) (kb, g)).readMember depth)
            s₁.length true (none, none) s₁ = .ok r ∧
              (pairRecord name (ka, f) (kb, g)).closeText r.1 r.2 = .ok (p, rest') := by
        rw [← bind_eq_ok]
        simp only [Form.pair, Record.form, openValue_bracket front]
        rfl
      rw [hform, ← takenUp_pairStep hab]
      simp only [Prod.exists, hfold hp, closeText_pair_eq_ok]
      constructor
      · rintro ⟨_, _, _, ⟨htaken, rfl⟩, hst, rfl⟩
        rw [hst] at htaken
        exact ⟨htaken, rfl⟩
      · rintro ⟨htaken, rfl⟩
        exact ⟨_, _, _, ⟨htaken, rfl⟩, rfl, rfl⟩
  value := by
    intro v hc hp p
    obtain ⟨ms, rfl, hp⟩ := hp
    have hmember : ∀ e ∈ ms, e.2.collapse = e.2 := fun e he => Json.collapse_of_member hc he
    rw [← takenUp_pairStep hab, ← valueMembers_pair_eq_ok name hab hf hg hmember hp]
    simp only [Form.pair, Record.form, bind_eq_ok, close_pair_eq_ok, exists_eq_right]
    rfl

/-- Checking what has been read changes nothing about how it is read. -/
theorem Follows.refine {γ : Type} {check : α → Except RequestError γ} (h : f.Follows ea pa)
    (parts : γ → α) (hc : ∀ a c, check a = .ok c ↔ a = parts c) :
    (f.refine check).Follows (fun c => ea (parts c)) pa where
  text := by
    intro depth s v rest hv hp c rest'
    have hparts := h.text hv hp (parts c) rest'
    rw [← hparts]
    simp only [Form.refine, bind_eq_ok, Prod.exists]
    constructor
    · rintro ⟨a, s', hread, hcheck⟩
      cases hr : check a with
      | error e => simp [hr] at hcheck
      | ok d =>
        simp only [hr, Except.ok.injEq, Prod.mk.injEq] at hcheck
        obtain ⟨rfl, rfl⟩ := hcheck
        rwa [← (hc a d).mp hr]
    · intro hread
      exact ⟨parts c, rest', hread, by simp [(hc (parts c) c).mpr rfl]⟩
  value := by
    intro v hv hp c
    rw [← h.value hv hp (parts c)]
    simp only [Form.refine, bind_eq_ok]
    constructor
    · rintro ⟨a, hread, hcheck⟩
      cases hr : check a with
      | error e => simp [hr] at hcheck
      | ok d =>
        simp only [hr, Except.ok.injEq] at hcheck
        subst hcheck
        rwa [← (hc a d).mp hr]
    · intro hread
      exact ⟨parts c, hread, by simp [(hc (parts c) c).mpr rfl]⟩

/-- A form reads a whole text as what its tree spells. -/
theorem Follows.parse (h : f.Follows ea pa) {s : Json.Source} {t : Json}
    (ht : Json.parseTree s = .ok t) (hp : pa t) (a : α) :
    f.parse s = .ok a ↔ t.Spells (ea a) := by
  obtain ⟨⟨v, rest⟩, hv, hclose⟩ := bind_eq_ok.mp ht
  obtain ⟨⟨⟩, hend, he⟩ := bind_eq_ok.mp hclose
  obtain rfl : v = t := pure_eq_ok.mp he
  have hread := h.text hv hp
  simp only [Form.parse, bind_eq_ok, Prod.exists, hread]
  constructor
  · rintro ⟨b, _, ⟨hb, rfl⟩, hdone⟩
    rw [hend] at hdone
    cases hdone
    exact hb
  · intro ha
    exact ⟨a, rest, ⟨ha, rfl⟩, by rw [hend]⟩

end Form

/-- An identifier that is written as an object. -/
def IdentifierFits : Json → Prop :=
  Form.FitsPair "database_name" "object_name" (fun _ => True) fun _ => True

theorem Identifier.follows_form : Identifier.form.Follows Identifier.encode IdentifierFits := by
  have hpair := Form.Follows.pair "RawIdentifier" "database_name" "object_name"
    (by decide) Form.follows_text Form.follows_text
  refine hpair.refine (fun id : Identifier => (id.database, id.object)) ?_
  intro a id
  rw [mapError_eq_ok, Identifier.new_eq_ok, Prod.ext_iff]

theorem CreateDatabase.follows_form : CreateDatabase.form.Follows CreateDatabase.encode
    (Form.FitsPair "name" "properties" (fun _ => True) fun _ => True) := by
  have hpair := Form.Follows.pair "RawCreateDatabaseRequest" "name" "properties" (by decide)
    Form.follows_text Form.follows_textMap
  refine hpair.refine (fun r : CreateDatabase => (r.name, r.properties)) ?_
  intro a r
  have hname : NamingRules.breach? {} r.name = none :=
    NamingRules.breach_default_eq_none.mpr r.name_ne
  rw [mapError_eq_ok, CreateDatabase.new_eq_ok, Prod.ext_iff]
  constructor
  · rintro ⟨hn, hp, -⟩
    exact ⟨hn, hp⟩
  · rintro ⟨hn, hp⟩
    exact ⟨hn, hp, hn ▸ hname⟩

theorem AlterDatabase.follows_form : AlterDatabase.form.Follows AlterDatabase.encode
    (Form.FitsPair "removals" "updates" (fun _ => True) fun _ => True) := by
  have hpair := Form.Follows.pair "RawAlterDatabaseRequest" "removals" "updates" (by decide)
    Form.follows_text.list Form.follows_textMap
  refine hpair.refine (fun r : AlterDatabase => (r.removals, r.updates)) ?_
  intro a r
  rw [mapError_eq_ok, AlterDatabase.new_eq_ok, Prod.ext_iff]

theorem RenameTable.follows_form : RenameTable.form.Follows RenameTable.encode
    (Form.FitsPair "source" "destination" IdentifierFits IdentifierFits) := by
  have hpair := Form.Follows.pair "RawRenameTableRequest" "source" "destination" (by decide)
    Identifier.follows_form Identifier.follows_form
  refine hpair.refine (fun r : RenameTable => (r.source, r.destination)) ?_
  intro a r
  rw [mapError_eq_ok, RenameTable.new_eq_ok, Prod.ext_iff]

namespace Kind

/-- Reads a text as a request of the kind, by the form of its type. -/
def parseBody (s : Json.Source) : Kind → Except Fault Request
  | .createDatabase => (CreateDatabase.form.parse s).map .create
  | .alterDatabase => (AlterDatabase.form.parse s).map .alter
  | .renameTable => (RenameTable.form.parse s).map .rename

/-- Takes a value for a request of the kind, by the form of its type. -/
def bodyOfValue (v : Json) : Kind → Except Misfit Request
  | .createDatabase => (CreateDatabase.form.fromValue v).map .create
  | .alterDatabase => (AlterDatabase.form.fromValue v).map .alter
  | .renameTable => (RenameTable.form.fromValue v).map .rename

/-- The body of a request of the kind is written as an object, and so are the identifiers in it. -/
def InObjects (t : Json) (k : Kind) : Prop :=
  ∃ ms, t = .object ms ∧
    (k = .renameTable → ∀ e ∈ ms, e.1 ∈ k.fields → e.2.shape = .object)

theorem identifierFits_iff {t : Json} : IdentifierFits t ↔ t.shape = .object := by
  cases t <;> simp [IdentifierFits, Form.FitsPair, Json.shape]

theorem fitsPair_of_inObjects {t : Json} {k : Kind} (h : InObjects t k) (ka kb : String) :
    Form.FitsPair ka kb (fun _ => True) (fun _ => True) t := by
  obtain ⟨ms, rfl, -⟩ := h
  exact ⟨ms, rfl, fun e he => ⟨fun _ => trivial, fun _ => trivial⟩⟩

theorem fitsPair_of_inObjects_rename {t : Json} (h : InObjects t .renameTable) :
    Form.FitsPair "source" "destination" IdentifierFits IdentifierFits t := by
  obtain ⟨ms, rfl, hids⟩ := h
  refine ⟨ms, rfl, fun e he => ⟨fun hk => ?_, fun hk => ?_⟩⟩
  · exact identifierFits_iff.mpr (hids rfl e he (by simp [hk, fields]))
  · exact identifierFits_iff.mpr (hids rfl e he (by simp [hk, fields]))

/-- A tree that spells a request has its body and its identifiers in objects. -/
theorem inObjects_of_spells {t : Json} {r : Request} (h : t.Spells r.encode) :
    InObjects t r.kind := by
  have hpair {a b : String} {x y : Json} (hab : a ≠ b)
      (h : t.Spells (.object [(a, x), (b, y)])) : ∃ ms, t = .object ms := by
    obtain ⟨u, w, -, -, h | h⟩ := (Json.spells_pair hab).mp h
    · exact ⟨_, h⟩
    · exact ⟨_, h⟩
  have hid {u : Json} {id : Identifier} (h : u.Spells id.encode) : u.shape = .object := by
    obtain ⟨_, _, -, -, rfl | rfl⟩ := (Json.spells_pair (by decide)).mp h <;> rfl
  cases r with
  | create c =>
    obtain ⟨ms, hms⟩ := hpair (by decide) h
    exact ⟨ms, hms, fun hk => by cases hk⟩
  | alter a =>
    obtain ⟨ms, hms⟩ := hpair (by decide) h
    exact ⟨ms, hms, fun hk => by cases hk⟩
  | rename n =>
    obtain ⟨u, w, hu, hw, ht⟩ := (Json.spells_pair (by decide)).mp h
    -- The two members are the two identifiers, in one order or the other.
    rcases ht with rfl | rfl
    · exact ⟨_, rfl, fun _ e he _ => by
        rcases List.mem_pair.mp he with rfl | rfl
        · exact hid hu
        · exact hid hw⟩
    · exact ⟨_, rfl, fun _ e he _ => by
        rcases List.mem_pair.mp he with rfl | rfl
        · exact hid hw
        · exact hid hu⟩

/-- The form of its type reads a request from the texts that spell it. -/
theorem parseBody_eq_ok {s : Json.Source} {t : Json} {r : Request} (ht : Json.parseTree s = .ok t)
    (ho : InObjects t r.kind) : parseBody s r.kind = .ok r ↔ t.Spells r.encode := by
  cases r with
  | create c =>
    have hform := CreateDatabase.follows_form.parse ht (fitsPair_of_inObjects ho _ _) c
    simpa [Request.kind, Request.encode, parseBody, map_eq_ok] using hform
  | alter a =>
    have hform := AlterDatabase.follows_form.parse ht (fitsPair_of_inObjects ho _ _) a
    simpa [Request.kind, Request.encode, parseBody, map_eq_ok] using hform
  | rename n =>
    have hform := RenameTable.follows_form.parse ht (fitsPair_of_inObjects_rename ho) n
    simpa [Request.kind, Request.encode, parseBody, map_eq_ok] using hform

theorem bodyOfValue_eq_ok {v : Json} {r : Request} (hv : v.collapse = v)
    (ho : InObjects v r.kind) : bodyOfValue v r.kind = .ok r ↔ v.Spells r.encode := by
  cases r with
  | create c =>
    have hform := CreateDatabase.follows_form.value hv (fitsPair_of_inObjects ho _ _) c
    simpa [Request.kind, Request.encode, bodyOfValue, map_eq_ok] using hform
  | alter a =>
    have hform := AlterDatabase.follows_form.value hv (fitsPair_of_inObjects ho _ _) a
    simpa [Request.kind, Request.encode, bodyOfValue, map_eq_ok] using hform
  | rename n =>
    have hform := RenameTable.follows_form.value hv (fitsPair_of_inObjects_rename ho) n
    simpa [Request.kind, Request.encode, bodyOfValue, map_eq_ok] using hform

end Kind

/-- A request is read from a text, or taken from a value, exactly when the form of its own type
reads it there and the body and its identifiers are written as objects. -/
theorem Request.read_iff_typed (r : Request) :
    (∀ s, ofSource {} s = .ok r ↔
      Kind.parseBody s r.kind = .ok r ∧ ∃ t, Json.parseTree s = .ok t ∧ Kind.InObjects t r.kind) ∧
    ∀ v, ofValue {} v = .ok r ↔
      Kind.bodyOfValue v.collapse r.kind = .ok r ∧ Kind.InObjects v.collapse r.kind := by
  refine ⟨fun s => ?_, fun v => ?_⟩
  · constructor
    · intro h
      cases ht : Json.parseTree s with
      | error e => simp [ofSource, Json.scan, ht, Except.map] at h
      | ok t =>
        rw [ofSource_eq_ofScanned ht, ofScanned_ofTree_eq_ok] at h
        have ho := Kind.inObjects_of_spells h
        exact ⟨(Kind.parseBody_eq_ok ht ho).mpr h, t, rfl, ho⟩
    · rintro ⟨hread, t, ht, ho⟩
      rw [ofSource_eq_ofScanned ht, ofScanned_ofTree_eq_ok]
      exact (Kind.parseBody_eq_ok ht ho).mp hread
  · -- A value is taken for a request exactly when it spells it, since it repeats no key.
    have hv := Json.collapse_collapse v
    have hvalue : ofValue {} v = .ok r ↔ v.collapse.Spells r.encode := by
      rw [Json.spells_of_collapse hv, hv, ofValue_eq_ok_iff_body]
      exact and_iff_left (allowed_default r)
    rw [hvalue]
    constructor
    · intro h
      have ho := Kind.inObjects_of_spells h
      exact ⟨(Kind.bodyOfValue_eq_ok hv ho).mpr h, ho⟩
    · rintro ⟨hread, ho⟩
      exact (Kind.bodyOfValue_eq_ok hv ho).mp hread

end Catalog
