import Catalog.Proofs.PrintedText

/-! Reading values that have been printed in compact form. A loop over the items or members of a
printed value goes through what was printed part by part, whatever it does with each part; reading
the value itself is one such loop. -/

namespace Catalog.Json

/-- The units of the compact text of a value. -/
def units (v : Json) : Source :=
  v.chars.map some

theorem ofText_compact (v : Json) : Source.ofText v.compact = v.units := by
  rw [Source.ofText, compact, String.toList_ofList, units]

/-- What is printed behind an item, when more items or none follow. -/
def charsAfterItem : List Json → List Char
  | [] => [']']
  | v :: vs => ',' :: charsItems (v :: vs)

theorem charsItems_cons (v : Json) (vs : List Json) :
    charsItems (v :: vs) = v.chars ++ charsAfterItem vs := by
  cases vs <;> simp [charsItems, charsAfterItem]

/-- What is printed behind a member, when more members or none follow. -/
def charsAfterMember : List (String × Json) → List Char
  | [] => ['\x7d']
  | m :: ms => ',' :: charsMembers (m :: ms)

theorem charsMembers_cons (k : String) (v : Json) (ms : List (String × Json)) :
    charsMembers ((k, v) :: ms) = textChars k ++ ':' :: (v.chars ++ charsAfterMember ms) := by
  cases ms <;> simp [charsMembers, charsAfterMember]

theorem skipBlank_cons {c : Char} (rest : Source) (h : Source.isBlank (some c) = false) :
    Source.skipBlank (some c :: rest) = some c :: rest := by
  rw [Source.skipBlank, List.dropWhile_cons_of_neg (by simp [h])]

/-- The text of the value starts with a character that is no blank and closes no array. -/
def Fronted (v : Json) : Prop :=
  ∃ c cs, v.chars = c :: cs ∧ Source.isBlank (some c) = false ∧ c ≠ ']'

theorem fronted_string (s : String) : (string s).Fronted :=
  ⟨'"', s.toList.flatMap escaped ++ ['"'], rfl, rfl, by decide⟩

theorem fronted_object (members : Entries Json) : (object members).Fronted :=
  ⟨'\x7b', charsMembers members, rfl, rfl, by decide⟩

section Loops
variable {ε σ : Type}

/-- The reader takes up the printed items one after the other, from `acc` to `out`. -/
inductive ItemsRead (item : σ → Reader ε σ) : σ → List Json → σ → Prop where
  | nil (acc : σ) : ItemsRead item acc [] acc
  | cons {acc mid out : σ} {v : Json} {vs : List Json} (front : v.Fronted)
    (read : ∀ rest, item acc (v.units ++ rest) = .ok (mid, rest))
    (more : ItemsRead item mid vs out) : ItemsRead item acc (v :: vs) out

theorem ItemsRead.length_lt {item : σ → Reader ε σ} {acc out : σ} {vs : List Json}
    (h : ItemsRead item acc vs out) : vs.length < (charsItems vs).length := by
  induction h with
  | nil => simp [charsItems]
  | @cons _ _ _ _ vs front read more ih =>
    obtain ⟨c, cs, hc, -⟩ := front
    rw [charsItems_cons, hc]
    cases vs with
    | nil => simp [charsAfterItem]
    | cons w ws =>
      simp only [charsAfterItem, List.length_cons, List.length_append] at ih ⊢
      omega

theorem nextItem_first {v : Json} (hv : v.Fronted) (rest : Source) :
    nextItem true (v.units ++ rest) = .ok (true, v.units ++ rest) := by
  obtain ⟨c, cs, hc, hb, hne⟩ := hv
  rw [units, hc, List.map_cons, List.cons_append, nextItem, skipBlank_cons _ hb]
  simp [hne]

theorem nextItem_after {v : Json} (hv : v.Fronted) (rest : Source) :
    nextItem false (some ',' :: (v.units ++ rest)) = .ok (true, v.units ++ rest) := by
  obtain ⟨c, cs, hc, hb, hne⟩ := hv
  rw [units, hc, List.map_cons, List.cons_append, nextItem, skipBlank_cons _ rfl]
  simp [skipBlank_cons _ hb, hne]

theorem foldItems_after {item : σ → Reader ε σ} {acc out : σ} {vs : List Json}
    (h : ItemsRead item acc vs out) (fail : ReadError → ε) (rest : Source) {fuel : Nat}
    (hf : vs.length < fuel) :
    foldItems fail item fuel false acc ((charsAfterItem vs).map some ++ rest) = .ok (out, rest) := by
  induction h generalizing fuel with
  | nil acc =>
    obtain ⟨fuel, rfl⟩ : ∃ n, fuel = n + 1 := ⟨fuel - 1, by omega⟩
    rfl
  | @cons _ _ _ v vs front read more ih =>
    obtain ⟨fuel, rfl⟩ : ∃ n, fuel = n + 1 := ⟨fuel - 1, by omega⟩
    have hsplit : (charsAfterItem (v :: vs)).map some ++ rest =
        some ',' :: (v.units ++ ((charsAfterItem vs).map some ++ rest)) := by
      rw [charsAfterItem, charsItems_cons]
      simp [units]
    have hlt : vs.length < fuel := by simpa using hf
    simp only [hsplit, foldItems, nextItem_after front, read, ih hlt]

theorem foldItems_first {item : σ → Reader ε σ} {acc out : σ} {vs : List Json}
    (h : ItemsRead item acc vs out) (fail : ReadError → ε) (rest : Source) {fuel : Nat}
    (hf : vs.length < fuel) :
    foldItems fail item fuel true acc ((charsItems vs).map some ++ rest) = .ok (out, rest) := by
  obtain ⟨fuel, rfl⟩ : ∃ n, fuel = n + 1 := ⟨fuel - 1, by omega⟩
  cases h with
  | nil => rfl
  | @cons _ _ _ v vs front read more =>
    have hsplit : (charsItems (v :: vs)).map some ++ rest =
        v.units ++ ((charsAfterItem vs).map some ++ rest) := by
      simp [charsItems_cons, units]
    have hlt : vs.length < fuel := by simpa using hf
    simp only [hsplit, foldItems, nextItem_first front, read, foldItems_after more fail rest hlt]

/-- A loop over the items of a printed array, with the fuel that it is given. -/
theorem foldItems_units {item : σ → Reader ε σ} {acc out : σ} {vs : List Json}
    (h : ItemsRead item acc vs out) (fail : ReadError → ε) (rest : Source) :
    foldItems fail item ((charsItems vs).map some ++ rest).length true acc
      ((charsItems vs).map some ++ rest) = .ok (out, rest) := by
  -- Every item takes up a unit or more, so the length of the text is fuel enough.
  apply foldItems_first h
  have hlen := h.length_lt
  simp only [List.length_append, List.length_map]
  omega

/-- The reader takes up the printed members one after the other, from `acc` to `out`. -/
inductive MembersRead (member : σ → String → Reader ε σ) : σ → Entries Json → σ → Prop where
  | nil (acc : σ) : MembersRead member acc [] acc
  | cons {acc mid out : σ} {k : String} {v : Json} {ms : Entries Json}
    (read : ∀ rest, member acc k (some ':' :: (v.units ++ rest)) = .ok (mid, rest))
    (more : MembersRead member mid ms out) : MembersRead member acc ((k, v) :: ms) out

theorem length_lt_charsMembers (ms : Entries Json) : ms.length < (charsMembers ms).length := by
  induction ms with
  | nil => simp [charsMembers]
  | cons e ms ih =>
    obtain ⟨k, v⟩ := e
    rw [charsMembers_cons]
    cases ms with
    | nil =>
      simp only [charsAfterMember, List.length_cons, List.length_append]
      omega
    | cons m ms =>
      simp only [charsAfterMember, List.length_cons, List.length_append] at ih ⊢
      omega

/-- The units of a key and of all that follows it. -/
theorem textChars_units (k : String) (rest : Source) :
    (textChars k).map some ++ rest =
      some '"' :: ((k.toList.flatMap escaped).map some ++ some '"' :: rest) := by
  simp [textChars]

theorem nextKey_first (k : String) (rest : Source) :
    nextKey .exact true ((textChars k).map some ++ rest) = .ok (some k, rest) := by
  rw [textChars_units, nextKey, skipBlank_cons _ rfl]
  simp [readText_escaped, Except.map]

theorem nextKey_after (k : String) (rest : Source) :
    nextKey .exact false (some ',' :: ((textChars k).map some ++ rest)) = .ok (some k, rest) := by
  rw [textChars_units, nextKey, skipBlank_cons _ rfl]
  have hb : Source.isBlank (some '"') = false := rfl
  simp [skipBlank_cons _ hb, readText_escaped, Except.map]

theorem foldMembers_after {member : σ → String → Reader ε σ} {acc out : σ} {ms : Entries Json}
    (h : MembersRead member acc ms out) (fail : ReadError → ε) (rest : Source) {fuel : Nat}
    (hf : ms.length < fuel) :
    foldMembers fail .exact member fuel false acc ((charsAfterMember ms).map some ++ rest) =
      .ok (out, rest) := by
  induction h generalizing fuel with
  | nil acc =>
    obtain ⟨fuel, rfl⟩ : ∃ n, fuel = n + 1 := ⟨fuel - 1, by omega⟩
    rfl
  | @cons _ _ _ k v ms read more ih =>
    obtain ⟨fuel, rfl⟩ : ∃ n, fuel = n + 1 := ⟨fuel - 1, by omega⟩
    have hsplit : (charsAfterMember ((k, v) :: ms)).map some ++ rest =
        some ',' :: ((textChars k).map some ++
          some ':' :: (v.units ++ ((charsAfterMember ms).map some ++ rest))) := by
      rw [charsAfterMember, charsMembers_cons]
      simp [units]
    have hlt : ms.length < fuel := by simpa using hf
    simp only [hsplit, foldMembers, nextKey_after, read, ih hlt]

theorem foldMembers_first {member : σ → String → Reader ε σ} {acc out : σ} {ms : Entries Json}
    (h : MembersRead member acc ms out) (fail : ReadError → ε) (rest : Source) {fuel : Nat}
    (hf : ms.length < fuel) :
    foldMembers fail .exact member fuel true acc ((charsMembers ms).map some ++ rest) =
      .ok (out, rest) := by
  obtain ⟨fuel, rfl⟩ : ∃ n, fuel = n + 1 := ⟨fuel - 1, by omega⟩
  cases h with
  | nil => rfl
  | @cons _ _ _ k v ms read more =>
    have hsplit : (charsMembers ((k, v) :: ms)).map some ++ rest =
        (textChars k).map some ++
          some ':' :: (v.units ++ ((charsAfterMember ms).map some ++ rest)) := by
      simp [charsMembers_cons, units]
    have hlt : ms.length < fuel := by simpa using hf
    simp only [hsplit, foldMembers, nextKey_first, read, foldMembers_after more fail rest hlt]

/-- A loop over the members of a printed object, with the fuel that it is given. -/
theorem foldMembers_units {member : σ → String → Reader ε σ} {acc out : σ} {ms : Entries Json}
    (h : MembersRead member acc ms out) (fail : ReadError → ε) (rest : Source) :
    foldMembers fail .exact member ((charsMembers ms).map some ++ rest).length true acc
      ((charsMembers ms).map some ++ rest) = .ok (out, rest) := by
  -- Every key takes up a unit or more, so the length of the text is fuel enough.
  apply foldMembers_first h
  have hlen := length_lt_charsMembers ms
  simp only [List.length_append, List.length_map]
  omega

end Loops

theorem readOpening_string (s : String) (rest : Source) :
    readOpening .exact ((string s).units ++ rest) = .ok (.scalar (.string s), rest) := by
  rw [units, chars, textChars_units, readOpening, skipBlank_cons _ rfl]
  simp [readText_escaped, Except.map]

theorem readOpening_array (items : List Json) (rest : Source) :
    readOpening .exact ((array items).units ++ rest) =
      .ok (.array, (charsItems items).map some ++ rest) := by
  rw [units, chars, List.map_cons, List.cons_append, readOpening, skipBlank_cons _ rfl]
  rfl

theorem readOpening_object (members : Entries Json) (rest : Source) :
    readOpening .exact ((object members).units ++ rest) =
      .ok (.object, (charsMembers members).map some ++ rest) := by
  rw [units, chars, List.map_cons, List.cons_append, readOpening, skipBlank_cons _ rfl]
  rfl

theorem readColon_cons (rest : Source) : readColon (some ':' :: rest) = .ok ((), rest) := rfl

/-- The compact text of the value is read back where so many arrays and objects may be nested, and
nothing behind it is taken. -/
def Readable (v : Json) (depth : Nat) : Prop :=
  ∀ limit rest, depth ≤ limit → readValue .exact limit (v.units ++ rest) = .ok (v, rest)

theorem readable_string (s : String) : (string s).Readable 0 := by
  intro limit rest _
  cases limit <;> simp only [readValue, readWith, readOpening_string]

/-- Items that a reader takes up one by one are gathered with the last one in front. -/
theorem itemsRead_map {ε α : Type} {read : Reader ε α} {f : α → Json} {items : List α}
    (acc : List α)
    (h : ∀ a ∈ items, (f a).Fronted ∧ ∀ rest, read ((f a).units ++ rest) = .ok (a, rest)) :
    ItemsRead (fun acc s => (read s).map fun r => (r.1 :: acc, r.2)) acc (items.map f)
      (items.reverse ++ acc) := by
  induction items generalizing acc with
  | nil => exact .nil acc
  | cons a as ih =>
    obtain ⟨hf, hr⟩ := h a List.mem_cons_self
    have hrest := ih (a :: acc) fun b hb => h b (List.mem_cons_of_mem _ hb)
    apply ItemsRead.cons hf _ (by simpa using hrest)
    intro rest
    rw [hr rest]
    rfl

theorem membersRead_values {inner : Reader ReadError Json} {members : Entries Json}
    (acc : Entries Json)
    (h : ∀ e ∈ members, ∀ rest, inner (e.2.units ++ rest) = .ok (e.2, rest)) :
    MembersRead (fun acc k s => do
        let (_, s) ← readColon s
        let (v, s) ← inner s
        return ((k, v) :: acc, s)) acc members (members.reverse ++ acc) := by
  induction members generalizing acc with
  | nil => exact .nil acc
  | cons e ms ih =>
    obtain ⟨k, v⟩ := e
    have hrest := ih ((k, v) :: acc) fun w hw => h w (List.mem_cons_of_mem _ hw)
    apply MembersRead.cons _ (by simpa using hrest)
    intro rest
    simp only [readColon_cons, bind, Except.bind, h (k, v) List.mem_cons_self rest]
    rfl

theorem readable_array {items : List Json} {depth : Nat}
    (h : ∀ v ∈ items, v.Fronted ∧ v.Readable depth) : (array items).Readable (depth + 1) := by
  intro limit rest hd
  obtain ⟨limit, rfl⟩ : ∃ n, limit = n + 1 := ⟨limit - 1, by omega⟩
  have hread : ∀ v ∈ items, v.Fronted ∧ ∀ rest,
      readValue .exact limit (v.units ++ rest) = .ok (v, rest) := fun v hv =>
    ⟨(h v hv).1, fun rest => (h v hv).2 limit rest (by omega)⟩
  simp only [readValue, readWith, readOpening_array]
  have hitems := itemsRead_map (f := id) [] hread
  rw [List.map_id] at hitems
  rw [foldItems_units hitems]
  simp [Except.map]

theorem readable_object {members : Entries Json} {depth : Nat}
    (h : ∀ e ∈ members, e.2.Readable depth) : (object members).Readable (depth + 1) := by
  intro limit rest hd
  obtain ⟨limit, rfl⟩ : ∃ n, limit = n + 1 := ⟨limit - 1, by omega⟩
  have hread : ∀ e ∈ members, ∀ rest,
      readValue .exact limit (e.2.units ++ rest) = .ok (e.2, rest) := fun e he rest =>
    h e he limit rest (by omega)
  simp only [readValue, readWith, readOpening_object]
  rw [foldMembers_units (membersRead_values [] hread)]
  simp [Except.map]

theorem Readable.mono {v : Json} {m n : Nat} (h : v.Readable m) (hmn : m ≤ n) : v.Readable n :=
  fun limit rest hn => h limit rest (by omega)

/-- The text of a value that is nested no deeper than the reader allows stands for that value. -/
theorem parseTree_units {v : Json} {depth : Nat} (h : v.Readable depth) (hd : depth ≤ depthLimit) :
    parseTree v.units = .ok v := by
  have hv := h depthLimit [] hd
  rw [List.append_nil] at hv
  simp [parseTree, hv, readEnd, Source.skipBlank, bind, Except.bind, pure, Except.pure]

end Catalog.Json
