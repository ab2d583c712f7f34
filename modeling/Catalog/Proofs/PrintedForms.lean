import Catalog.Proofs.Construction
import Catalog.Proofs.Entries
import Catalog.Proofs.Printed
import Catalog.Request.Forms

/-! Forms on printed values. What a form makes of the parts of a printed value decides what it makes
of the whole, so each combinator of forms has one lemma here. -/

namespace Catalog.Form
variable {α β : Type} {depth : Nat}

/-- The form makes `a` of the compact text of a value where so many arrays and objects may be
nested, and takes nothing behind it. -/
def Reads (f : Form α) (v : Json) (a : α) (depth : Nat) : Prop :=
  ∀ limit rest, depth ≤ limit → f.fromText limit (v.units ++ rest) = .ok (a, rest)

theorem openValue_array (limit : Nat) (items : List Json) (rest : Json.Source) :
    openValue (limit + 1) ((Json.array items).units ++ rest) =
      .ok (.array, (Json.charsItems items).map some ++ rest) := by
  simp only [openValue, Json.readOpening_array, Nat.add_one_ne_zero, ↓reduceIte]

theorem openValue_object (limit : Nat) (members : Entries Json) (rest : Json.Source) :
    openValue (limit + 1) ((Json.object members).units ++ rest) =
      .ok (.object, (Json.charsMembers members).map some ++ rest) := by
  simp only [openValue, Json.readOpening_object, Nat.add_one_ne_zero, ↓reduceIte]

theorem readColon_cons (rest : Json.Source) : readColon (some ':' :: rest) = .ok ((), rest) := rfl

theorem reads_text (s : String) : text.Reads (.string s) s 0 := by
  intro limit rest _
  simp only [text, Json.readOpening_string]

theorem reads_list {f : Form α} {encode : α → Json} {items : List α}
    (h : ∀ a ∈ items, (encode a).Fronted ∧ f.Reads (encode a) a depth) :
    f.list.Reads (.array (items.map encode)) items (depth + 1) := by
  intro limit rest hd
  obtain ⟨limit, rfl⟩ : ∃ n, limit = n + 1 := ⟨limit - 1, by omega⟩
  have hitems : ∀ a ∈ items, (encode a).Fronted ∧
      ∀ rest, f.fromText limit ((encode a).units ++ rest) = .ok (a, rest) := fun a ha =>
    ⟨(h a ha).1, fun rest => (h a ha).2 limit rest (by omega)⟩
  refine bind_eq_ok.mpr ⟨_, openValue_array .., ?_⟩
  refine bind_eq_ok.mpr ⟨_, Json.foldItems_units (Json.itemsRead_map [] hitems) .., ?_⟩
  simp

/-- One member of a map is read behind the members with smaller keys. -/
theorem membersRead_textMap {limit : Nat} {l : Entries String} (m : KeyMap String)
    (h : Entries.Ordered (m.entries ++ l)) :
    Json.MembersRead (fun (m : KeyMap String) k s => do
        let (_, s) ← readColon s
        let (t, s) ← text.fromText limit s
        if m.contains k then .error (.misfit (.duplicateKey k)) else .ok (m.insert k t, s))
      m (l.map fun e => (e.1, .string e.2)) ⟨m.entries ++ l, h⟩ := by
  induction l generalizing m with
  | nil => simpa using .nil m
  | cons e l ih =>
    obtain ⟨k, t⟩ := e
    -- The entries of a map are printed in order, so each new key is greater than all before it.
    have hlt : ∀ e ∈ m.entries, e.1 < k := fun e he =>
      (List.pairwise_append.mp h).2.2 e he (k, t) List.mem_cons_self
    have hnew : m.contains k = false :=
      KeyMap.contains_eq_false_iff.mpr fun e he => Entries.ne_of_key_lt (hlt e he)
    have hinsert : (m.insert k t).entries = m.entries ++ [(k, t)] := Entries.insert_of_keys_lt hlt
    have hnext : Entries.Ordered ((m.insert k t).entries ++ l) := by
      rw [hinsert]
      simpa using h
    have hmore := ih (m.insert k t) hnext
    have hout : (⟨(m.insert k t).entries ++ l, hnext⟩ : KeyMap String) =
        ⟨m.entries ++ (k, t) :: l, h⟩ := by
      simp [hinsert]
    rw [hout] at hmore
    apply Json.MembersRead.cons _ hmore
    intro rest
    simp only [readColon_cons, bind, Except.bind, reads_text t limit rest (Nat.zero_le _), hnew]
    rfl

theorem reads_textMap (m : KeyMap String) : textMap.Reads (.ofTexts m) m 1 := by
  intro limit rest hd
  obtain ⟨limit, rfl⟩ : ∃ n, limit = n + 1 := ⟨limit - 1, by omega⟩
  refine bind_eq_ok.mpr ⟨_, openValue_object .., ?_⟩
  exact Json.foldMembers_units (membersRead_textMap .empty m.ordered) ..

/-- A printed object whose members fill the record. -/
theorem reads_record {σ : Type} {r : Record σ α} {members : Entries Json} {st : σ} {a : α}
    (h : ∀ limit, depth ≤ limit → Json.MembersRead (r.readMember limit) r.empty members st)
    (hc : r.close st = .ok a) : r.form.Reads (.object members) a (depth + 1) := by
  intro limit rest hd
  obtain ⟨limit, rfl⟩ : ∃ n, limit = n + 1 := ⟨limit - 1, by omega⟩
  refine bind_eq_ok.mpr ⟨_, openValue_object .., ?_⟩
  refine bind_eq_ok.mpr ⟨_, Json.foldMembers_units (h limit (by omega)) .., ?_⟩
  simp only [Record.closeText, hc]

/-- A record of two fields with its members in the order of declaration. -/
theorem reads_pair {name ka kb : String} {fa : Form α} {fb : Form β} {va vb : Json} {a : α} {b : β}
    (hk : ka ≠ kb) (ha : fa.Reads va a depth) (hb : fb.Reads vb b depth) :
    (pair name (ka, fa) (kb, fb)).Reads (.object [(ka, va), (kb, vb)]) (a, b) (depth + 1) := by
  have hclose : (pairRecord name (ka, fa) (kb, fb)).close (some a, some b) = .ok (a, b) := rfl
  refine reads_record (fun limit hl => ?_) hclose
  have hfirst : ∀ rest, (pairRecord name (ka, fa) (kb, fb)).readMember limit (none, none) ka
      (some ':' :: (va.units ++ rest)) = .ok ((some a, none), rest) := by
    intro rest
    simp [Record.readMember, Record.slot?, pairRecord, slot, readColon_cons, bind, Except.bind,
      ha limit rest hl, Except.map]
  have hsecond : ∀ rest, (pairRecord name (ka, fa) (kb, fb)).readMember limit (some a, none) kb
      (some ':' :: (vb.units ++ rest)) = .ok ((some a, some b), rest) := by
    intro rest
    simp [Record.readMember, Record.slot?, pairRecord, slot, hk, readColon_cons, bind, Except.bind,
      hb limit rest hl, Except.map]
  exact .cons hfirst (.cons hsecond (.nil _))

theorem Reads.refine {f : Form α} {check : α → Except RequestError β} {v : Json} {a : α} {b : β}
    (h : f.Reads v a depth) (hc : check a = .ok b) : (f.refine check).Reads v b depth := by
  intro limit rest hd
  simp only [Form.refine, h limit rest hd, bind, Except.bind, hc]

theorem Reads.mono {f : Form α} {v : Json} {a : α} {m n : Nat} (h : f.Reads v a m) (hmn : m ≤ n) :
    f.Reads v a n :=
  fun limit rest hn => h limit rest (by omega)

theorem Reads.parse_eq_ok {f : Form α} {v : Json} {a : α} (h : f.Reads v a depth)
    (hd : depth ≤ Json.depthLimit) : f.parse (.ofText v.compact) = .ok a := by
  have hv := h Json.depthLimit [] hd
  rw [List.append_nil] at hv
  simp [parse, Json.ofText_compact, hv, Json.readEnd, Json.Source.skipBlank, bind, Except.bind]

end Catalog.Form
