import Catalog.Proofs.Spellings
import Catalog.Request.Forms

/-! Forms and trees on one text. The reader of trees and a form take up the same parts of a text one
after the other, so where there is a tree the form reads what the tree spells, and takes no more of
the text. The same holds of a value that a form is given. -/

namespace Catalog
namespace Json

/-- The parts are taken up one after the other, from `acc` to `out`. -/
inductive TakenUp {σ τ : Type} (step : σ → τ → σ → Prop) : σ → List τ → σ → Prop where
  | nil (acc : σ) : TakenUp step acc [] acc
  | cons {acc mid out : σ} {x : τ} {xs : List τ} (first : step acc x mid)
    (more : TakenUp step mid xs out) : TakenUp step acc (x :: xs) out

section TakenUp
variable {σ τ : Type} {step : σ → τ → σ → Prop} {acc out : σ}

@[simp]
theorem takenUp_nil : TakenUp step acc [] out ↔ out = acc := by
  constructor
  · intro h
    cases h
    rfl
  · rintro rfl
    exact .nil _

@[simp]
theorem takenUp_cons {x : τ} {xs : List τ} :
    TakenUp step acc (x :: xs) out ↔ ∃ mid, step acc x mid ∧ TakenUp step mid xs out := by
  constructor
  · intro h
    cases h with
    | cons first more => exact ⟨_, first, more⟩
  · rintro ⟨mid, first, more⟩
    exact .cons first more

end TakenUp

section Loops
variable {ε σ : Type} (fail : ReadError → ε) {inner : Reader ReadError Json}

/-- A round of the loop over items either meets the bracket or takes up an item. -/
theorem foldItems_succ_eq_ok {item : σ → Reader ε σ} {fuel : Nat} {first : Bool} {acc out : σ}
    {s rest : Source} :
    foldItems fail item (fuel + 1) first acc s = .ok (out, rest) ↔
      nextItem first s = .ok (false, rest) ∧ out = acc ∨
        ∃ s₁ mid s₂, nextItem first s = .ok (true, s₁) ∧ item acc s₁ = .ok (mid, s₂) ∧
          foldItems fail item fuel false mid s₂ = .ok (out, rest) := by
  rw [foldItems]
  cases nextItem first s with
  | error e => simp
  | ok next =>
    obtain ⟨more, s₁⟩ := next
    cases more with
    | false => simp [and_comm, eq_comm]
    | true => rcases hi : item acc s₁ with e | ⟨mid, s₂⟩ <;> simp [hi]

/-- A round of the loop over members either meets the bracket or takes up a member. -/
theorem foldMembers_succ_eq_ok {care : Care} {member : σ → String → Reader ε σ} {fuel : Nat}
    {first : Bool} {acc out : σ} {s rest : Source} :
    foldMembers fail care member (fuel + 1) first acc s = .ok (out, rest) ↔
      nextKey care first s = .ok (none, rest) ∧ out = acc ∨
        ∃ k s₁ mid s₂, nextKey care first s = .ok (some k, s₁) ∧
          member acc k s₁ = .ok (mid, s₂) ∧
          foldMembers fail care member fuel false mid s₂ = .ok (out, rest) := by
  rw [foldMembers]
  cases nextKey care first s with
  | error e => simp
  | ok next =>
    obtain ⟨key, s₁⟩ := next
    cases key with
    | none => simp [and_comm, eq_comm]
    | some k => rcases hm : member acc k s₁ with e | ⟨mid, s₂⟩ <;> simp [hm]

/-- Where the items of an array are read as trees, another reader of the items takes up the same
items. -/
theorem foldItems_lockstep {item : σ → Reader ε σ} {step : σ → Json → σ → Prop} {fits : Json → Prop}
    (h : ∀ {s v rest}, inner s = .ok (v, rest) → fits v → ∀ acc out rest',
      item acc s = .ok (out, rest') ↔ step acc v out ∧ rest' = rest)
    {fuel : Nat} {first : Bool} {s rest : Source} {done all : List Json}
    (ht : foldItems id (fun acc s => (inner s).map fun r => (r.1 :: acc, r.2)) fuel first done s =
      .ok (all, rest)) :
    ∃ vs, all = vs.reverse ++ done ∧ ((∀ v ∈ vs, fits v) → ∀ acc out rest',
      foldItems fail item fuel first acc s = .ok (out, rest') ↔
        TakenUp step acc vs out ∧ rest' = rest) := by
  -- On the fuel, which both loops are given and spend together.
  induction fuel generalizing first s done with
  | zero => cases ht
  | succ fuel ih =>
    rcases (foldItems_succ_eq_ok _).mp ht with ⟨hn, rfl⟩ | ⟨s₁, mid, s₂, hn, hi, hmore⟩
    · refine ⟨[], rfl, fun _ acc out rest' => ?_⟩
      simp [foldItems_succ_eq_ok, hn, and_comm, @eq_comm _ rest]
    · obtain ⟨⟨v, s₃⟩, hv, he⟩ := map_eq_ok.mp hi
      cases he
      obtain ⟨vs, rfl, hvs⟩ := ih hmore
      refine ⟨v :: vs, by simp, fun hfits acc out rest' => ?_⟩
      have hitem := h hv (hfits v List.mem_cons_self)
      have hrest := hvs fun w hw => hfits w (List.mem_cons_of_mem _ hw)
      simp [foldItems_succ_eq_ok, hn, hitem, hrest, ← exists_and_right, and_assoc]

/-- Where the members of an object are read as trees, another reader of the members takes up the
same members. -/
theorem foldMembers_lockstep (member : σ → String → Reader ε σ)
    (step : σ → String × Json → σ → Prop) (fits : String × Json → Prop)
    (h : ∀ {k s s₁ v rest}, readColon s = .ok ((), s₁) → inner s₁ = .ok (v, rest) → fits (k, v) →
      ∀ acc out rest', member acc k s = .ok (out, rest') ↔ step acc (k, v) out ∧ rest' = rest)
    {fuel : Nat} {first : Bool} {s rest : Source} {done all : Entries Json}
    (ht : foldMembers id .exact (fun acc k s => do
        let (_, s) ← readColon s
        let (v, s) ← inner s
        return ((k, v) :: acc, s)) fuel first done s = .ok (all, rest)) :
    ∃ ms : Entries Json, all = ms.reverse ++ done ∧ ((∀ e ∈ ms, fits e) → ∀ acc out rest',
      foldMembers fail .exact member fuel first acc s = .ok (out, rest') ↔
        TakenUp step acc ms out ∧ rest' = rest) := by
  induction fuel generalizing first s done with
  | zero => cases ht
  | succ fuel ih =>
    rcases (foldMembers_succ_eq_ok _).mp ht with ⟨hn, rfl⟩ | ⟨k, s₁, mid, s₂, hn, hi, hmore⟩
    · refine ⟨[], rfl, fun _ acc out rest' => ?_⟩
      simp [foldMembers_succ_eq_ok, hn, and_comm, @eq_comm _ rest]
    · obtain ⟨⟨⟨⟩, s₃⟩, hcolon, hi⟩ := bind_eq_ok.mp hi
      obtain ⟨⟨v, s₄⟩, hv, he⟩ := bind_eq_ok.mp hi
      cases he
      obtain ⟨ms, rfl, hms⟩ := ih hmore
      refine ⟨(k, v) :: ms, by simp, fun hfits acc out rest' => ?_⟩
      have hmember := h hcolon hv (hfits (k, v) List.mem_cons_self)
      have hrest := hms fun e he => hfits e (List.mem_cons_of_mem _ he)
      simp [foldMembers_succ_eq_ok, hn, hmember, hrest, ← exists_and_right, and_assoc]

end Loops

/-- How a tree was read: as a scalar, or from its bracket on with one level of nesting less. -/
inductive TreeRead (s : Source) : Nat → Json → Source → Prop where
  | scalar {depth : Nat} {v : Json} {rest : Source} (ha : v.shape ≠ .array) (ho : v.shape ≠ .object)
    (front : readOpening .exact s = .ok (.scalar v, rest)) : TreeRead s depth v rest
  | array {depth : Nat} {all : List Json} {s₁ rest : Source}
    (front : readOpening .exact s = .ok (.array, s₁))
    (items : foldItems id (fun acc s => (readValue .exact depth s).map fun r => (r.1 :: acc, r.2))
      s₁.length true [] s₁ = .ok (all, rest)) : TreeRead s (depth + 1) (.array all.reverse) rest
  | object {depth : Nat} {all : Entries Json} {s₁ rest : Source}
    (front : readOpening .exact s = .ok (.object, s₁))
    (members : foldMembers id .exact (fun acc k s => do
        let (_, s) ← readColon s
        let (v, s) ← readValue .exact depth s
        return ((k, v) :: acc, s)) s₁.length true [] s₁ = .ok (all, rest)) :
    TreeRead s (depth + 1) (.object all.reverse) rest

theorem collapse_of_item {v : Json} {items : List Json} (h : v.collapse = .array items) {w : Json}
    (hw : w ∈ items) : w.collapse = w := by
  cases v with
  | array vs =>
    rw [collapse_array, array.injEq] at h
    rw [← h] at hw
    obtain ⟨u, -, rfl⟩ := List.mem_map.mp hw
    exact collapse_collapse u
  | _ => simp at h

theorem eq_of_map_scalar {α : Type} {x : Except ReadError (α × Source)} {f : α → Json} {v : Json}
    {rest : Source} (h : x.map (fun r => (Opening.scalar (f r.1), r.2)) = .ok (.scalar v, rest)) :
    ∃ a, v = f a := by
  obtain ⟨r, -, he⟩ := map_eq_ok.mp h
  cases he
  exact ⟨r.1, rfl⟩

/-- A scalar is no array and no object. -/
theorem readOpening_scalar {care : Care} {s rest : Source} {v : Json}
    (h : readOpening care s = .ok (.scalar v, rest)) : v.shape ≠ .array ∧ v.shape ≠ .object := by
  unfold readOpening at h
  split at h
  · cases h
  · next u rest' _ =>
    by_cases h₁ : u = some '['
    · simp [h₁] at h
    by_cases h₂ : u = some '\x7b'
    · simp [h₂] at h
    simp only [h₁, h₂, ↓reduceIte] at h
    repeat' split at h
    · obtain ⟨t, rfl⟩ := eq_of_map_scalar h
      simp [shape]
    · obtain ⟨_, rfl⟩ := eq_of_map_scalar (f := fun _ => .null) h
      simp [shape]
    · obtain ⟨_, rfl⟩ := eq_of_map_scalar (f := fun _ => .bool true) h
      simp [shape]
    · obtain ⟨_, rfl⟩ := eq_of_map_scalar (f := fun _ => .bool false) h
      simp [shape]
    · obtain ⟨n, rfl⟩ := eq_of_map_scalar h
      simp [shape]
    · cases h

theorem treeRead_of_readValue {s rest : Source} {depth : Nat} {v : Json}
    (h : readValue .exact depth s = .ok (v, rest)) : TreeRead s depth v rest := by
  rcases ho : readOpening .exact s with e | ⟨opening, s₁⟩
  · cases depth <;> simp [readValue, readWith, ho] at h
  · cases opening with
    | scalar w =>
      have he : w = v ∧ s₁ = rest := by
        cases depth <;> simpa [readValue, readWith, ho] using h
      obtain ⟨rfl, rfl⟩ := he
      exact .scalar (readOpening_scalar ho).1 (readOpening_scalar ho).2 ho
    | array =>
      cases depth with
      | zero => simp [readValue, readWith, ho] at h
      | succ depth =>
        simp only [readValue, readWith, ho] at h
        obtain ⟨⟨all, s₂⟩, hitems, he⟩ := map_eq_ok.mp h
        cases he
        exact .array ho hitems
    | object =>
      cases depth with
      | zero => simp [readValue, readWith, ho] at h
      | succ depth =>
        simp only [readValue, readWith, ho] at h
        obtain ⟨⟨all, s₂⟩, hmembers, he⟩ := map_eq_ok.mp h
        cases he
        exact .object ho hmembers

end Json

namespace Form
variable {α β : Type}

/-- The form reads from a text what the tree of the text spells, where the tree `fits`, and takes no
more of the text than the tree; and it takes a value for what the value spells. -/
structure Follows (f : Form α) (encode : α → Json) (fits : Json → Prop) : Prop where
  text : ∀ {depth s v rest}, Json.readValue .exact depth s = .ok (v, rest) → fits v →
    ∀ a rest', f.fromText depth s = .ok (a, rest') ↔ v.Spells (encode a) ∧ rest' = rest
  value : ∀ {v : Json}, v.collapse = v → fits v → ∀ a, f.fromValue v = .ok a ↔ v.Spells (encode a)

section Follows
variable {σ : Type} {f : Form α} {encode : α → Json} {fits : Json → Prop}

/-- A part that a form reads is written into the state of a loop. -/
theorem Follows.map_text (h : f.Follows encode fits) {depth : Nat} {s rest : Json.Source}
    {v : Json} (hv : Json.readValue .exact depth s = .ok (v, rest)) (hp : fits v) (set : α → σ)
    (out : σ) (rest' : Json.Source) :
    (f.fromText depth s).map (fun r => (set r.1, r.2)) = .ok (out, rest') ↔
      (∃ a, v.Spells (encode a) ∧ out = set a) ∧ rest' = rest := by
  simp only [map_eq_ok, Prod.exists, h.text hv hp, Prod.mk.injEq]
  constructor
  · rintro ⟨a, _, ⟨ha, rfl⟩, rfl, rfl⟩
    exact ⟨⟨a, ha, rfl⟩, rfl⟩
  · rintro ⟨⟨a, ha, rfl⟩, rfl⟩
    exact ⟨a, _, ⟨ha, rfl⟩, rfl, rfl⟩

theorem Follows.map_value (h : f.Follows encode fits) {v : Json} (hv : v.collapse = v) (hp : fits v)
    (set : α → σ) (out : σ) :
    (f.fromValue v).map set = .ok out ↔ ∃ a, v.Spells (encode a) ∧ out = set a := by
  simp only [map_eq_ok, h.value hv hp, @eq_comm _ out]

end Follows

theorem follows_text : text.Follows .string fun _ => True where
  text := by
    intro depth s v rest h _ a rest'
    rw [Json.spells_string]
    cases Json.treeRead_of_readValue h with
    | scalar _ _ front => cases v <;> simp [text, front, eq_comm]
    | array front => simp [text, front]
    | object front => simp [text, front]
  value := by
    intro v _ _ a
    rw [Json.spells_string]
    cases v <;> simp [text]

theorem openValue_scalar {depth : Nat} {s rest : Json.Source} {v : Json}
    (h : Json.readOpening .exact s = .ok (.scalar v, rest)) :
    openValue depth s = .ok (.scalar v, rest) := by
  simp only [openValue, h]

theorem openValue_bracket {depth : Nat} {s rest : Json.Source} {o : Json.Opening}
    (h : Json.readOpening .exact s = .ok (o, rest)) : openValue (depth + 1) s = .ok (o, rest) := by
  cases o <;> simp [openValue, h]

/-- Items taken up in front of each other are gathered in reverse. -/
theorem takenUp_cons_iff {r : Json → α → Prop} {vs : List Json} {acc out : List α} :
    Json.TakenUp (fun acc v out => ∃ a, r v a ∧ out = a :: acc) acc vs out ↔
      ∃ as, List.Forall₂ r vs as ∧ out = as.reverse ++ acc := by
  induction vs generalizing acc with
  | nil => simp
  | cons v vs ih =>
    rw [Json.takenUp_cons]
    constructor
    · rintro ⟨mid, ⟨a, ha, rfl⟩, hmore⟩
      obtain ⟨as, has, rfl⟩ := ih.mp hmore
      exact ⟨a :: as, .cons ha has, by simp⟩
    · rintro ⟨as, has, rfl⟩
      cases has with
      | cons ha has => exact ⟨_, ⟨_, ha, rfl⟩, ih.mpr ⟨_, has, by simp⟩⟩

theorem Follows.valueItems {f : Form α} {encode : α → Json} (h : f.Follows encode fun _ => True)
    {vs : List Json} {as : List α} (hv : ∀ v ∈ vs, v.collapse = v) :
    f.valueItems vs = .ok as ↔ List.Forall₂ (fun v a => v.Spells (encode a)) vs as := by
  induction vs generalizing as with
  | nil => cases as <;> simp [Form.valueItems]
  | cons v vs ih =>
    have hhead := h.value (hv v List.mem_cons_self) trivial
    have htail : ∀ as, f.valueItems vs = .ok as ↔
        List.Forall₂ (fun v a => v.Spells (encode a)) vs as := fun _ =>
      ih fun w hw => hv w (List.mem_cons_of_mem _ hw)
    simp only [Form.valueItems, bind_eq_ok, pure_eq_ok, hhead, htail]
    constructor
    · rintro ⟨a, ha, as, has, rfl⟩
      exact .cons ha has
    · intro hall
      cases hall with
      | cons ha has => exact ⟨_, ha, _, has, rfl⟩

theorem Follows.list {f : Form α} {encode : α → Json} (h : f.Follows encode fun _ => True) :
    f.list.Follows (fun as => .array (as.map encode)) fun _ => True where
  text := by
    intro depth s v rest hv _ as rest'
    rw [Json.spells_array]
    cases Json.treeRead_of_readValue hv with
    | scalar ha _ front =>
      simp only [Form.list, openValue_scalar front, bind, Except.bind]
      constructor
      · intro hf
        cases hf
      · rintro ⟨⟨vs, rfl, -⟩, -⟩
        exact absurd rfl ha
    | object front => simp [Form.list, openValue_bracket front, bind, Except.bind]
    | @array depth all s₁ _ front items =>
      have hitem : ∀ {s v rest}, Json.readValue .exact depth s = .ok (v, rest) → True →
          ∀ acc out rest',
            ((f.fromText depth s).map fun r => (r.1 :: acc, r.2)) = .ok (out, rest') ↔
            (∃ a, v.Spells (encode a) ∧ out = a :: acc) ∧ rest' = rest := by
        intro s v rest hv _ acc out rest'
        exact h.map_text hv trivial (· :: acc) out rest'
      obtain ⟨vs, hall, hfold⟩ := Json.foldItems_lockstep .unread hitem items
      have hvs : all.reverse = vs := by simp [hall]
      have hfold := hfold (fun _ _ => trivial) []
      -- The loop gathers the items in reverse, which is undone when the bracket has been met.
      have hlist : f.list.fromText (depth + 1) s = .ok (as, rest') ↔
          Json.foldItems .unread (fun acc s => (f.fromText depth s).map fun r => (r.1 :: acc, r.2))
            s₁.length true [] s₁ = .ok (as.reverse, rest') := by
        simp only [Form.list, openValue_bracket front, bind, Except.bind, Nat.add_sub_cancel]
        split
        · next hf => simp [hf]
        · next r hf => simp [hf, pure, Except.pure, Prod.ext_iff, List.reverse_eq_iff]
      rw [hlist, hfold, takenUp_cons_iff, hvs]
      simp [List.forall₂_map_right_iff]
  value := by
    intro v hv _ as
    rw [Json.spells_array]
    cases v with
    | array vs =>
      simp only [Form.list, h.valueItems fun w hw => Json.collapse_of_item hv hw]
      simp [List.forall₂_map_right_iff]
    | _ => simp [Form.list]

/-- A member of a map of texts: its value is a text, and its key is new. -/
def textStep (m : KeyMap String) (e : String × Json) (out : KeyMap String) : Prop :=
  ∃ t, e.2 = .string t ∧ m.contains e.1 = false ∧ out = m.insert e.1 t

/-- Members of a map of texts are written into the map one after the other. -/
theorem takenUp_textStep {ms : Entries Json} {m out : KeyMap String} :
    Json.TakenUp textStep m ms out ↔ ∃ es : Entries String,
      ms = es.map (fun e => (e.1, .string e.2)) ∧ (Entries.keys es).Nodup ∧
        (∀ k ∈ Entries.keys es, m.contains k = false) ∧
        out.entries = es.foldl (fun acc e => Entries.insert e.1 e.2 acc) m.entries := by
  -- A key is new when it is neither in the map at the start nor among the members before it.
  induction ms generalizing m with
  | nil =>
    constructor
    · intro h
      have hout : out = m := Json.takenUp_nil.mp h
      exact ⟨[], rfl, List.nodup_nil, by simp [Entries.keys], by rw [hout]; rfl⟩
    · rintro ⟨es, hes, -, -, hout⟩
      have hnil : es = [] := List.map_eq_nil_iff.mp hes.symm
      subst hnil
      exact Json.takenUp_nil.mpr (KeyMap.ext_entries hout)
  | cons e ms ih =>
    obtain ⟨k, v⟩ := e
    rw [Json.takenUp_cons]
    constructor
    · rintro ⟨mid, ⟨t, hv, hk, rfl⟩, hmore⟩
      obtain ⟨es, rfl, hn, hnew, hout⟩ := ih.mp hmore
      have hsplit : ∀ k' ∈ Entries.keys es, k' ≠ k ∧ m.contains k' = false := by
        intro k' hk'
        have := hnew k' hk'
        rwa [KeyMap.contains_insert_eq_false] at this
      refine ⟨(k, t) :: es, ?_, ?_, ?_, hout⟩
      · have hv : v = .string t := hv
        rw [hv]
        rfl
      · exact List.nodup_cons.mpr ⟨fun h => (hsplit k h).1 rfl, hn⟩
      · intro k' hk'
        rcases List.mem_cons.mp hk' with rfl | hk'
        · exact hk
        · exact (hsplit k' hk').2
    · rintro ⟨es, hes, hn, hnew, hout⟩
      cases es with
      | nil => cases hes
      | cons e es =>
        obtain ⟨hhead, htail⟩ := List.cons.inj hes
        cases hhead
        have hn := List.nodup_cons.mp hn
        have hfirst : m.contains e.1 = false := hnew e.1 List.mem_cons_self
        refine ⟨m.insert e.1 e.2, ⟨e.2, rfl, hfirst, rfl⟩, ih.mpr ⟨es, htail, hn.2, ?_, hout⟩⟩
        intro k' hk'
        rw [KeyMap.contains_insert_eq_false]
        exact ⟨fun h => hn.1 (h ▸ hk'), hnew k' (List.mem_cons_of_mem _ hk')⟩

theorem takenUp_textStep_empty {ms : Entries Json} {m : KeyMap String} :
    Json.TakenUp textStep .empty ms m ↔ (Json.object ms).Spells (.ofTexts m) := by
  rw [takenUp_textStep, Json.spells_ofTexts]
  have hnew (k : String) : (KeyMap.empty : KeyMap String).contains k = false := rfl
  have hout (es : Entries String) : m.entries =
      es.foldl (fun acc e => Entries.insert e.1 e.2 acc) (KeyMap.empty : KeyMap String).entries ↔
        KeyMap.ofEntries es = m := by
    constructor
    · intro h
      exact KeyMap.ext_entries h.symm
    · rintro rfl
      rfl
  simp [hnew, hout]

theorem valueTexts_eq_ok {ms : Entries Json} {es : Entries String} :
    valueTexts ms = .ok es ↔ ms = es.map fun e => (e.1, .string e.2) := by
  induction ms generalizing es with
  | nil => cases es <;> simp [valueTexts]
  | cons e ms ih =>
    obtain ⟨k, v⟩ := e
    have htext (t : String) : text.fromValue v = .ok t ↔ v = .string t := by
      cases v <;> simp [text]
    simp only [valueTexts, bind_eq_ok, pure_eq_ok, htext, ih]
    constructor
    · rintro ⟨t, rfl, es, rfl, rfl⟩
      rfl
    · intro h
      cases es with
      | nil => cases h
      | cons e es =>
        obtain ⟨hhead, htail⟩ := List.cons.inj h
        obtain ⟨rfl, rfl⟩ := Prod.mk.inj hhead
        exact ⟨_, rfl, es, htail, rfl⟩

theorem readColon_of_json {s s₁ : Json.Source} (h : Json.readColon s = .ok ((), s₁)) :
    readColon s = .ok ((), s₁) := by
  simp only [readColon, h]
  rfl

/-- A member of a map of texts, after its key. -/
def textMember (depth : Nat) (m : KeyMap String) (k : String) : Json.Reader Fault (KeyMap String) :=
  fun s => do
    let (_, s) ← readColon s
    let (t, s) ← text.fromText depth s
    if m.contains k then .error (.misfit (.duplicateKey k)) else .ok (m.insert k t, s)

theorem textMember_eq_ok {depth : Nat} {k : String} {s s₁ rest : Json.Source} {v : Json}
    (hcolon : Json.readColon s = .ok ((), s₁))
    (hv : Json.readValue .exact depth s₁ = .ok (v, rest)) (m out : KeyMap String)
    (rest' : Json.Source) :
    textMember depth m k s = .ok (out, rest') ↔ textStep m (k, v) out ∧ rest' = rest := by
  have ht := follows_text.text hv trivial
  simp only [textMember, readColon_of_json hcolon, bind_eq_ok]
  constructor
  · rintro ⟨⟨_, _⟩, he, ⟨t, _⟩, htext, h⟩
    cases he
    obtain ⟨hspells, rfl⟩ := (ht t _).mp htext
    split at h
    · cases h
    · next hk =>
      cases h
      exact ⟨⟨t, Json.spells_string.mp hspells, KeyMap.contains_eq_false hk, rfl⟩, rfl⟩
  · rintro ⟨⟨t, hval, hk, rfl⟩, rfl⟩
    have htext := (ht t rest').mpr ⟨Json.spells_string.mpr hval, rfl⟩
    exact ⟨((), s₁), rfl, (t, rest'), htext, by simp [hk]⟩

theorem follows_textMap : textMap.Follows .ofTexts fun _ => True where
  text := by
    intro depth s v rest hv _ m rest'
    cases Json.treeRead_of_readValue hv with
    | scalar _ ho front =>
      have hspells : ¬v.Spells (.ofTexts m) := by
        rw [Json.spells_ofTexts]
        rintro ⟨es, rfl, -⟩
        exact ho rfl
      simp only [textMap, openValue_scalar front, bind, Except.bind, hspells, false_and]
      simp
    | array front =>
      simp [textMap, openValue_bracket front, bind, Except.bind, Json.spells_ofTexts]
    | @object depth all s₁ _ front members =>
      obtain ⟨ms, hall, hfold⟩ := Json.foldMembers_lockstep Fault.unread (textMember depth) textStep
        (fun _ => True) (fun hcolon hv _ => textMember_eq_ok hcolon hv) members
      have hms : all.reverse = ms := by simp [hall]
      rw [hms, ← takenUp_textStep_empty, ← hfold fun _ _ => trivial]
      simp only [textMap, openValue_bracket front]
      rfl
  value := by
    intro v hv _ m
    cases v with
    | object ms =>
      have hn : (Entries.keys ms).Nodup := (Json.ordered_of_collapse hv).keys_nodup
      simp only [textMap, map_eq_ok, valueTexts_eq_ok, Json.spells_ofTexts, Json.object.injEq]
      apply exists_congr
      intro es
      apply and_congr_right
      rintro rfl
      have hkeys : (Entries.keys es).Nodup := by
        simpa [Entries.keys, Function.comp_def] using hn
      simp [hkeys]
    | _ => simp [textMap, Json.spells_ofTexts]

end Form
end Catalog
