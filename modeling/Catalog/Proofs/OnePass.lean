import Catalog.Proofs.Lockstep

/-! Scanning in one pass. A reader that builds the maps of objects as it goes, and writes each
repeat into one log as soon as the member that repeats has been read, ends with the value and the
repeats of the tree. At every step its state is a function of the tree that has been read so far. -/

namespace Catalog.Json

/-- Reads a value at a place and writes what it repeats behind a log. -/
abbrev LoggingReader :=
  Field → List Repeat → Reader ReadError (Json × List Repeat)

/-- Reads an item behind the items that have been read. -/
def logItem (inner : LoggingReader) (place : Field) (state : List Json × List Repeat) :
    Reader ReadError (List Json × List Repeat) := fun s => do
  let ((v, log), s) ← inner (place.child (.index state.1.length)) state.2 s
  return ((state.1 ++ [v], log), s)

/-- Reads a member behind its key into the map of members that have been read. -/
def logMember (inner : LoggingReader) (place : Field) (state : Entries Json × List Repeat)
    (k : String) : Reader ReadError (Entries Json × List Repeat) := fun s => do
  let (_, s) ← readColon s
  let ((v, log), s) ← inner (place.child (.key k)) state.2 s
  return ((Entries.insert k v state.1,
    if (Entries.keys state.1).contains k then log ++ [⟨place, k⟩] else log), s)

/-- A value whose arrays and objects hold what `inner` reads; without it there are none. -/
def logWith (inner : Option LoggingReader) : LoggingReader := fun place log s =>
  match readOpening .exact s, inner with
  | .error e, _ => .error e
  | .ok (.scalar v, rest), _ => .ok ((v, log), rest)
  | .ok _, none => .error .malformed
  | .ok (.array, rest), some inner =>
    (foldItems id (logItem inner place) rest.length true ([], log) rest).map fun r =>
      ((.array r.1.1, r.1.2), r.2)
  | .ok (.object, rest), some inner =>
    (foldMembers id .exact (logMember inner place) rest.length true ([], log) rest).map fun r =>
      ((.object r.1.1, r.1.2), r.2)

def readLogging : Nat → LoggingReader
  | 0 => logWith none
  | depth + 1 => logWith (some (readLogging depth))

/-- Reads a JSON text and keeps what it repeats, in one pass. -/
def scanOnce (s : Source) : Except ReadError Scanned := do
  let ((v, log), rest) ← readLogging depthLimit [] [] s
  readEnd rest
  return ⟨v, log⟩

section Loops
variable {ε σ τ : Type} (fail : ReadError → ε) {item : σ → Reader ε σ} {item' : τ → Reader ε τ}
  {member : σ → String → Reader ε σ} {member' : τ → String → Reader ε τ}

/-- Two loops over items go on together when one state is told by the other at every step. -/
theorem foldItems_hom (f : σ → τ)
    (h : ∀ acc s, item' (f acc) s = (item acc s).map fun r => (f r.1, r.2))
    (fuel : Nat) (first : Bool) (acc : σ) (s : Source) :
    foldItems fail item' fuel first (f acc) s =
      (foldItems fail item fuel first acc s).map fun r => (f r.1, r.2) := by
  induction fuel generalizing first acc s with
  | zero => rfl
  | succ fuel ih =>
    rw [foldItems, foldItems]
    rcases nextItem first s with e | ⟨more, s₁⟩
    · rfl
    · cases more with
      | false => rfl
      | true =>
        simp only [h]
        rcases item acc s₁ with e | ⟨acc', s₂⟩
        · rfl
        · exact ih false acc' s₂

theorem foldMembers_hom (care : Care) (f : σ → τ)
    (h : ∀ acc k s, member' (f acc) k s = (member acc k s).map fun r => (f r.1, r.2))
    (fuel : Nat) (first : Bool) (acc : σ) (s : Source) :
    foldMembers fail care member' fuel first (f acc) s =
      (foldMembers fail care member fuel first acc s).map fun r => (f r.1, r.2) := by
  induction fuel generalizing first acc s with
  | zero => rfl
  | succ fuel ih =>
    rw [foldMembers, foldMembers]
    rcases nextKey care first s with e | ⟨key, s₁⟩
    · rfl
    · cases key with
      | none => rfl
      | some k =>
        simp only [h]
        rcases member acc k s₁ with e | ⟨acc', s₂⟩
        · rfl
        · exact ih false acc' s₂

end Loops

/-- What a further item repeats comes behind what the items in front of it repeat. -/
theorem repeatsItems_concat (place : Field) (i : Nat) (vs : List Json) (v : Json) :
    repeatsItems place i (vs ++ [v]) =
      repeatsItems place i vs ++ v.repeats (place.child (.index (i + vs.length))) := by
  induction vs generalizing i with
  | nil => simp [repeatsItems]
  | cons w vs ih =>
    have hindex : i + 1 + vs.length = i + (w :: vs).length := by
      rw [List.length_cons]
      omega
    rw [List.cons_append, repeatsItems, repeatsItems, ih, hindex, List.append_assoc]

/-- What a further member repeats comes behind what the members in front of it repeat, and its own
repeat comes last. -/
theorem repeatsMembers_concat (place : Field) (seen : List String) (ms : Entries Json) (k : String)
    (v : Json) :
    repeatsMembers place seen (ms ++ [(k, v)]) =
      repeatsMembers place seen ms ++ (v.repeats (place.child (.key k)) ++
        if k ∈ seen ∨ k ∈ Entries.keys ms then [⟨place, k⟩] else []) := by
  induction ms generalizing seen with
  | nil => simp [repeatsMembers, Entries.keys]
  | cons e ms ih =>
    obtain ⟨k₁, v₁⟩ := e
    have hkeys : Entries.keys ((k₁, v₁) :: ms) = k₁ :: Entries.keys ms := rfl
    have hseen : (k ∈ k₁ :: seen ∨ k ∈ Entries.keys ms) ↔
        (k ∈ seen ∨ k ∈ k₁ :: Entries.keys ms) := by
      rw [List.mem_cons, List.mem_cons, or_assoc, or_left_comm]
    rw [List.cons_append, repeatsMembers, repeatsMembers, ih, hkeys]
    simp only [hseen, List.append_assoc]

/-- The state of the loop over items, told by the items of the tree that have been read, last
first. -/
def itemsState (place : Field) (log : List Repeat) (done : List Json) : List Json × List Repeat :=
  (done.reverse.map collapse, log ++ repeatsItems place 0 done.reverse)

/-- The state of the loop over members, told by the members of the tree that have been read, last
first. -/
def membersState (place : Field) (log : List Repeat) (done : Entries Json) :
    Entries Json × List Repeat :=
  (Entries.collect (collapseMembers done.reverse), log ++ repeatsMembers place [] done.reverse)

theorem itemsState_cons (place : Field) (log : List Repeat) (done : List Json) (v : Json) :
    itemsState place log (v :: done) =
      ((itemsState place log done).1 ++ [v.collapse],
        (itemsState place log done).2 ++ v.repeats (place.child (.index done.length))) := by
  simp only [itemsState, List.reverse_cons, List.map_append, repeatsItems_concat,
    List.length_reverse, Nat.zero_add, List.append_assoc, List.map_cons, List.map_nil]

theorem keys_membersState (place : Field) (log : List Repeat) (done : Entries Json) (k : String) :
    k ∈ Entries.keys (membersState place log done).1 ↔ k ∈ Entries.keys done.reverse := by
  rw [membersState, Entries.mem_keys_collect, collapseMembers_eq_map,
    Entries.keys_map_keyed fun _ => collapse]

theorem membersState_cons (place : Field) (log : List Repeat) (done : Entries Json) (k : String)
    (v : Json) :
    membersState place log ((k, v) :: done) =
      (Entries.insert k v.collapse (membersState place log done).1,
        (membersState place log done).2 ++ (v.repeats (place.child (.key k)) ++
          if (Entries.keys (membersState place log done).1).contains k then [⟨place, k⟩]
          else [])) := by
  have hseen : ((Entries.keys (membersState place log done).1).contains k = true) ↔
      (k ∈ [] ∨ k ∈ Entries.keys done.reverse) := by
    rw [List.contains_iff_mem, keys_membersState]
    simp
  simp only [hseen]
  simp only [membersState, List.reverse_cons, repeatsMembers_concat, collapseMembers_eq_map,
    List.map_append, Entries.collect, List.foldl_append, List.append_assoc, List.map_cons,
    List.map_nil, List.foldl_cons, List.foldl_nil]

section Levels
variable {inner : Reader ReadError Json} {logging : LoggingReader}

/-- The reader logs what `inner` reads: it gives the value of the tree, and what the tree repeats
stands behind the log. -/
def Logs (logging : LoggingReader) (inner : Reader ReadError Json) : Prop :=
  ∀ place log s, logging place log s =
    (inner s).map fun r => ((r.1.collapse, log ++ r.1.repeats place), r.2)

/-- A scalar is its own value and repeats nothing. -/
theorem collapse_of_readOpening {s rest : Source} {v : Json}
    (h : readOpening .exact s = .ok (.scalar v, rest)) (place : Field) :
    v.collapse = v ∧ v.repeats place = [] := by
  obtain ⟨harray, hobject⟩ := readOpening_scalar h
  cases v with
  | null | bool | number | string => exact ⟨rfl, rfl⟩
  | array => exact absurd rfl harray
  | object => exact absurd rfl hobject

theorem logs_scalars : Logs (logWith none) (readWith .exact none) := by
  intro place log s
  rcases ho : readOpening .exact s with e | ⟨opening, rest⟩
  · simp [logWith, readWith, ho, Except.map]
  · cases opening with
    | scalar v =>
      obtain ⟨hvalue, hrepeats⟩ := collapse_of_readOpening ho place
      simp [logWith, readWith, ho, Except.map, hvalue, hrepeats]
    | array | object => simp [logWith, readWith, ho, Except.map]

/-- A round of the loop over items goes with a round of the loop over the items of the tree. -/
theorem Logs.item (h : Logs logging inner) (place : Field) (log : List Repeat) (done : List Json)
    (s : Source) :
    logItem logging place (itemsState place log done) s =
      ((inner s).map fun r => (r.1 :: done, r.2)).map fun r => (itemsState place log r.1, r.2) := by
  have hlength : (itemsState place log done).1.length = done.length := by simp [itemsState]
  rw [logItem, hlength, h]
  rcases inner s with e | ⟨v, rest⟩
  · rfl
  · simp only [Except.map, itemsState_cons]
    rfl

/-- A round of the loop over members goes with a round of the loop over the members of the tree. -/
theorem Logs.member (h : Logs logging inner) (place : Field) (log : List Repeat)
    (done : Entries Json) (k : String) (s : Source) :
    logMember logging place (membersState place log done) k s =
      (do
        let (_, s) ← readColon s
        let (v, s) ← inner s
        return ((k, v) :: done, s) : Except ReadError (Entries Json × Source)).map fun r =>
          (membersState place log r.1, r.2) := by
  rw [logMember]
  rcases readColon s with e | ⟨_, s₁⟩
  · rfl
  · simp only [bind, Except.bind, h _ _ s₁]
    rcases inner s₁ with e | ⟨v, rest⟩
    · rfl
    · simp only [Except.map, pure, Except.pure, membersState_cons]
      split <;> simp

theorem Logs.brackets (h : Logs logging inner) :
    Logs (logWith (some logging)) (readWith .exact (some inner)) := by
  intro place log s
  rcases ho : readOpening .exact s with e | ⟨opening, rest⟩
  · simp [logWith, readWith, ho, Except.map]
  · cases opening with
    | scalar v =>
      obtain ⟨hvalue, hrepeats⟩ := collapse_of_readOpening ho place
      simp [logWith, readWith, ho, Except.map, hvalue, hrepeats]
    | array =>
      -- Both loops begin with nothing read, and then go on together.
      have hloop := foldItems_hom id (itemsState place log) (h.item place log) rest.length true []
        rest
      have hstart : itemsState place log [] = ([], log) := by simp [itemsState, repeatsItems]
      rw [hstart] at hloop
      simp only [logWith, readWith, ho, hloop]
      rcases foldItems id _ rest.length true [] rest with e | ⟨done, rest'⟩
      · rfl
      · simp [Except.map, itemsState, repeats]
    | object =>
      have hloop := foldMembers_hom id .exact (membersState place log) (h.member place log)
        rest.length true [] rest
      have hstart : membersState place log [] = ([], log) := by
        simp [membersState, repeatsMembers, collapseMembers, Entries.collect]
      rw [hstart] at hloop
      simp only [logWith, readWith, ho, hloop]
      rcases foldMembers id .exact _ rest.length true [] rest with e | ⟨done, rest'⟩
      · rfl
      · simp [Except.map, membersState, repeats, collapse]

end Levels

/-- On every level of nesting the pass logs what the reader of trees reads. -/
theorem logs_readValue (depth : Nat) : Logs (readLogging depth) (readValue .exact depth) := by
  induction depth with
  | zero => exact logs_scalars
  | succ depth ih => exact ih.brackets

/-- One pass over a text gives its value and its repeats. -/
theorem scan_eq_scanOnce (s : Source) : scan s = scanOnce s := by
  rw [scan, parseTree, scanOnce, logs_readValue depthLimit [] [] s]
  rcases readValue .exact depthLimit s with e | ⟨t, rest⟩
  · rfl
  · simp only [bind, Except.bind, Except.map]
    rcases readEnd rest with e | _
    · rfl
    · simp [pure, Except.pure, Scanned.ofTree]

end Catalog.Json
