/-!
Finite maps from texts to values, held as entries in the order of their keys. The order of texts is
by code point, which is also the order of their UTF-8 bytes, so two maps with the same entries are
equal.
-/

namespace Catalog

/-- Entry lists: association lists whose keys may be in any order and may repeat. -/
abbrev Entries (α : Type) := List (String × α)

namespace Entries
variable {α : Type}

/-- The keys stand in strictly increasing order, so none repeats. -/
def Ordered (l : Entries α) : Prop :=
  l.Pairwise (fun a b => a.1 < b.1)

def keys (l : Entries α) : List String :=
  l.map Prod.fst

/-- Writes `k` at its place in an ordered list, over the entry that had the key before. -/
def insert (k : String) (v : α) : Entries α → Entries α
  | [] => [(k, v)]
  | (k₁, v₁) :: l =>
    if k < k₁ then (k, v) :: (k₁, v₁) :: l
    else if k = k₁ then (k, v) :: l
    else (k₁, v₁) :: insert k v l

def erase (k : String) (l : Entries α) : Entries α :=
  l.filter (fun e => e.1 ≠ k)

/-- Of repeated keys the last is kept. -/
def collect (l : Entries α) : Entries α :=
  l.foldl (fun acc e => insert e.1 e.2 acc) []

theorem key_of_mem_insert {k : String} {v : α} {l : Entries α} {e : String × α}
    (h : e ∈ insert k v l) : e = (k, v) ∨ e ∈ l := by
  induction l with
  | nil => exact Or.inl (by simpa [insert] using h)
  | cons e₁ l ih =>
    simp only [insert] at h
    split at h
    · simpa only [List.mem_cons] using h
    · split at h
      · rcases List.mem_cons.mp h with h | h
        · exact Or.inl h
        · exact Or.inr (List.mem_cons_of_mem _ h)
      · rcases List.mem_cons.mp h with h | h
        · exact Or.inr (h ▸ List.mem_cons_self)
        · exact (ih h).imp_right (List.mem_cons_of_mem _)

theorem ordered_insert (k : String) (v : α) {l : Entries α} (h : Ordered l) :
    Ordered (insert k v l) := by
  induction l with
  | nil => simp [Ordered, insert]
  | cons e l ih =>
    obtain ⟨k₁, v₁⟩ := e
    have ht := List.pairwise_cons.mp h
    simp only [insert]
    split
    · next hlt =>
      refine List.pairwise_cons.mpr ⟨fun e he => ?_, h⟩
      rcases List.mem_cons.mp he with rfl | he
      · exact hlt
      · exact String.lt_trans hlt (ht.1 e he)
    · next hnlt =>
      split
      · next heq =>
        subst heq
        exact List.pairwise_cons.mpr ⟨ht.1, ht.2⟩
      · next hne =>
        have hgt : k₁ < k :=
          Std.lt_of_le_of_ne (String.not_lt.mp hnlt) (fun h => hne h.symm)
        refine List.pairwise_cons.mpr ⟨fun e he => ?_, ih ht.2⟩
        rcases key_of_mem_insert he with rfl | he
        · exact hgt
        · exact ht.1 e he

theorem ordered_erase (k : String) {l : Entries α} (h : Ordered l) : Ordered (erase k l) :=
  List.Pairwise.filter _ h

theorem ordered_foldl_insert (l acc : Entries α) (h : Ordered acc) :
    Ordered (l.foldl (fun acc e => insert e.1 e.2 acc) acc) := by
  induction l generalizing acc with
  | nil => exact h
  | cons e l ih => exact ih _ (ordered_insert e.1 e.2 h)

theorem ordered_collect (l : Entries α) : Ordered (collect l) :=
  ordered_foldl_insert l [] List.Pairwise.nil

end Entries

/-- A map from texts to values. -/
structure KeyMap (α : Type) where
  entries : Entries α
  ordered : entries.Ordered
deriving DecidableEq

namespace KeyMap
variable {α : Type}

def empty : KeyMap α :=
  ⟨[], List.Pairwise.nil⟩

/-- The map of some entries; of repeated keys the last is kept. -/
def ofEntries (l : Entries α) : KeyMap α :=
  ⟨l.collect, Entries.ordered_collect l⟩

def get? (m : KeyMap α) (k : String) : Option α :=
  m.entries.lookup k

def contains (m : KeyMap α) (k : String) : Bool :=
  (m.get? k).isSome

def insert (m : KeyMap α) (k : String) (v : α) : KeyMap α :=
  ⟨m.entries.insert k v, Entries.ordered_insert k v m.ordered⟩

def erase (m : KeyMap α) (k : String) : KeyMap α :=
  ⟨m.entries.erase k, Entries.ordered_erase k m.ordered⟩

theorem contains_eq_false {m : KeyMap α} {k : String} (h : ¬m.contains k = true) :
    m.contains k = false :=
  Bool.eq_false_iff.mpr h

/-- The first key is empty. -/
def startsEmpty (m : KeyMap α) : Bool :=
  m.entries.head?.any (·.1 = "")

/-- The empty key goes before all others, so it stands first or nowhere. -/
theorem startsEmpty_eq_contains (m : KeyMap α) : m.startsEmpty = m.contains "" := by
  obtain ⟨entries, hordered⟩ := m
  cases entries with
  | nil => rfl
  | cons e l =>
    have hfirst (k : String) : ¬k < "" := fun h => List.not_lt_nil _ (String.lt_iff.mp h)
    have hrest : ∀ e' ∈ l, ¬e'.1 = "" := by
      intro e' he' h
      have hlt : e.1 < e'.1 := (List.pairwise_cons.mp hordered).1 e' he'
      exact hfirst e.1 (h ▸ hlt)
    by_cases he : e.1 = ""
    · simp [startsEmpty, contains, get?, he]
    · simpa [startsEmpty, contains, get?, he] using hrest

theorem contains_empty_eq_false {m : KeyMap α} (h : ¬m.startsEmpty = true) :
    m.contains "" = false := by
  rw [← startsEmpty_eq_contains]
  exact Bool.eq_false_iff.mpr h

/-- The keys in increasing order. -/
def keys (m : KeyMap α) : List String :=
  m.entries.keys

def size (m : KeyMap α) : Nat :=
  m.entries.length

/-- Writes every entry of `u` into `m`. -/
def update (m u : KeyMap α) : KeyMap α :=
  u.entries.foldl (fun acc e => acc.insert e.1 e.2) m

end KeyMap
end Catalog
