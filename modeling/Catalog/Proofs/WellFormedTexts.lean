import Catalog.Proofs.Lexemes
import Catalog.Proofs.Lockstep

/-! Well-formed texts. The reader takes a value off the front of a source exactly where the grammar
has it there, by the loops over the parts of arrays and objects and by the levels of nesting; so a
source is read as a tree exactly when it is a JSON text of that tree. -/

namespace Catalog.Json

section Blanks
variable {s s' rest : Source}

theorem blanks_skipBlank (s : Source) : Blanks s s.skipBlank := by
  induction s with
  | nil => exact .none []
  | cons u s ih =>
    by_cases hu : Source.isBlank u = true
    · rw [Source.skipBlank, List.dropWhile_cons_of_pos hu]
      exact .more hu ih
    · rw [Source.skipBlank, List.dropWhile_cons_of_neg hu]
      exact .none _

theorem Blanks.skipBlank_eq (h : Blanks s rest) : s.skipBlank = rest.skipBlank := by
  induction h with
  | none => rfl
  | more blank others ih =>
    rw [Source.skipBlank, List.dropWhile_cons_of_pos blank]
    exact ih

theorem Blanks.trans (h : Blanks s s') (h' : Blanks s' rest) : Blanks s rest := by
  induction h with
  | none => exact h'
  | more blank others ih => exact .more blank (ih h')

theorem Blanks.length_le (h : Blanks s rest) : rest.length ≤ s.length := by
  induction h with
  | none => exact Nat.le_refl _
  | more blank others ih => exact Nat.le_succ_of_le ih

theorem Blanks.length_eq_succ {u : Option Char} (h : Blanks s (u :: rest)) :
    ∃ n, s.length = n + 1 := by
  cases h with
  | none => exact ⟨_, rfl⟩
  | more => exact ⟨_, rfl⟩

/-- Blanks in front of a unit that is none are skipped up to it. -/
theorem Blanks.skipBlank_cons {u : Option Char} (h : Blanks s (u :: rest))
    (hu : Source.isBlank u = false) : s.skipBlank = u :: rest := by
  rw [h.skipBlank_eq, Source.skipBlank, List.dropWhile_cons_of_neg (by simp [hu])]

/-- What a value may be followed by does not hang on blanks in between. -/
theorem Blanks.stops (h : Blanks s rest) (hrest : Stops rest) : Stops s := by
  cases h with
  | none => exact hrest
  | more blank others =>
    intro u hu
    cases hu
    exact Or.inl blank

end Blanks

/-- A value may begin with this unit: it is no blank and closes no array. -/
def BeginsValue (s : Source) : Prop :=
  ∃ u rest, s = u :: rest ∧ Source.isBlank u = false ∧ u ≠ some ']'

section Scalars
variable {s rest : Source} {v : Json}

theorem readWord_append (w : List Char) (rest : Source) :
    readWord w (w.map some ++ rest) = .ok ((), rest) := by
  induction w with
  | nil => rfl
  | cons c w ih => simp [readWord, ih]

theorem eq_of_readWord {w : List Char} (h : readWord w s = .ok ((), rest)) :
    s = w.map some ++ rest := by
  induction w generalizing s with
  | nil =>
    cases h
    rfl
  | cons c w ih =>
    cases s with
    | nil => cases h
    | cons u s =>
      rw [readWord] at h
      split at h
      · next hu => simp [hu, ih h]
      · cases h

theorem digit_ne {u : Option Char} {d : Nat} (h : digit? u = some d) :
    Source.isBlank u = false ∧ u ≠ some ']' ∧ u ≠ some '[' ∧ u ≠ some '\x7b' ∧ u ≠ some '"' ∧
      u ≠ some 'n' ∧ u ≠ some 't' ∧ u ≠ some 'f' := by
  refine ⟨Bool.eq_false_iff.mpr fun hu => ?_, ?_, ?_, ?_, ?_, ?_, ?_, ?_⟩
  · simp only [Source.isBlank, Bool.or_eq_true, decide_eq_true_eq, or_assoc] at hu
    rcases hu with rfl | rfl | rfl | rfl <;> cases h
  all_goals
    rintro rfl
    cases h

theorem readNumber_eq_ok {x : Number} : readNumber .exact s = .ok (x, rest) ↔
    ∃ n, readNumeral s = .ok (n, rest) ∧ n.value? = some x := by
  unfold readNumber
  rcases readNumeral s with e | ⟨n, s'⟩
  · simp
  · cases hx : n.value? with
    | none =>
      simp only [hx, Except.ok.injEq, Prod.mk.injEq]
      constructor
      · intro h
        cases h
      · rintro ⟨m, ⟨rfl, -⟩, hm⟩
        rw [hx] at hm
        cases hm
    | some y =>
      simp only [hx, Except.ok.injEq, Prod.mk.injEq]
      constructor
      · rintro ⟨rfl, rfl⟩
        exact ⟨n, ⟨rfl, rfl⟩, hx⟩
      · rintro ⟨m, ⟨rfl, rfl⟩, hm⟩
        rw [hx] at hm
        cases hm
        exact ⟨rfl, rfl⟩

/-- The front of a value, as far as it is read before its parts. -/
inductive OpeningAt : Opening → Source → Source → Prop where
  | scalar {v : Json} {s rest : Source} (h : ScalarAt v s rest) : OpeningAt (.scalar v) s rest
  | array (rest : Source) : OpeningAt .array (some '[' :: rest) rest
  | object (rest : Source) : OpeningAt .object (some '\x7b' :: rest) rest

theorem openingAt_of_readOpening {o : Opening} (h : readOpening .exact s = .ok (o, rest)) :
    ∃ s₁, Blanks s s₁ ∧ OpeningAt o s₁ rest := by
  unfold readOpening at h
  split at h
  · cases h
  next u s' hs =>
  refine ⟨u :: s', hs ▸ blanks_skipBlank s, ?_⟩
  -- One case for each unit that a value may begin with.
  split at h
  · next hu =>
    cases hu
    cases h
    exact .array _
  split at h
  · next hu =>
    cases hu
    cases h
    exact .object _
  split at h
  · next hu =>
    obtain ⟨⟨t, r⟩, ht, he⟩ := map_eq_ok.mp h
    cases he
    cases hu
    exact .scalar (.string (readText_eq_ok.mp ht))
  split at h
  · next hu =>
    obtain ⟨⟨_, r⟩, hword, he⟩ := map_eq_ok.mp h
    cases he
    cases hu
    rw [eq_of_readWord hword]
    exact .scalar (.null _)
  split at h
  · next hu =>
    obtain ⟨⟨_, r⟩, hword, he⟩ := map_eq_ok.mp h
    cases he
    cases hu
    rw [eq_of_readWord hword]
    exact .scalar (.true _)
  split at h
  · next hu =>
    obtain ⟨⟨_, r⟩, hword, he⟩ := map_eq_ok.mp h
    cases he
    cases hu
    rw [eq_of_readWord hword]
    exact .scalar (.false _)
  split at h
  · obtain ⟨⟨x, r⟩, hnumber, he⟩ := map_eq_ok.mp h
    cases he
    obtain ⟨n, hn, hx⟩ := readNumber_eq_ok.mp hnumber
    exact .scalar (.number (numeralAt_of_readNumeral hn) hx)
  · cases h

/-- A numeral begins with a minus or a digit. -/
theorem NumeralAt.head {n : Numeral} (h : NumeralAt n s rest) :
    ∃ u s', s = u :: s' ∧ (u = some '-' ∨ ∃ d, digit? u = some d) := by
  obtain ⟨negative, wholeDigits, fractionDigits, exponentDigits⟩ := n
  cases h with
  | parts sign whole fraction exponent =>
    cases sign with
    | none =>
      obtain ⟨u, d, s', rfl, hu⟩ := whole.digits.head
      exact ⟨u, s', rfl, Or.inr ⟨d, hu⟩⟩
    | minus => exact ⟨_, _, rfl, Or.inl rfl⟩

theorem ScalarAt.beginsValue (h : ScalarAt v s rest) : BeginsValue s := by
  cases h with
  | null => exact ⟨_, _, rfl, rfl, by decide⟩
  | true => exact ⟨_, _, rfl, rfl, by decide⟩
  | false => exact ⟨_, _, rfl, rfl, by decide⟩
  | string h =>
    cases h
    exact ⟨_, _, rfl, rfl, by decide⟩
  | number h =>
    obtain ⟨u, s', rfl, rfl | ⟨d, hu⟩⟩ := h.head
    · exact ⟨_, _, rfl, rfl, by decide⟩
    · exact ⟨_, _, rfl, (digit_ne hu).1, (digit_ne hu).2.1⟩

theorem ScalarAt.length_lt (h : ScalarAt v s rest) : rest.length < s.length := by
  cases h with
  | null | true | false =>
    simp only [List.length_append, List.length_map, List.length_cons]
    omega
  | string h => exact h.length_lt
  | number h => exact h.length_lt

theorem readOpening_of_scalarAt {s' : Source} (hs : Blanks s' s) (h : ScalarAt v s rest)
    (hrest : Stops rest) : readOpening .exact s' = .ok (.scalar v, rest) := by
  have hskip : s'.skipBlank = s := by
    obtain ⟨u, s₁, rfl, hu, -⟩ := h.beginsValue
    exact hs.skipBlank_cons hu
  unfold readOpening
  rw [hskip]
  cases h with
  | null =>
    exact congrArg (Except.map fun r => (Opening.scalar .null, r.2))
      (readWord_append ['u', 'l', 'l'] rest)
  | true =>
    exact congrArg (Except.map fun r => (Opening.scalar (.bool true), r.2))
      (readWord_append ['r', 'u', 'e'] rest)
  | false =>
    exact congrArg (Except.map fun r => (Opening.scalar (.bool false), r.2))
      (readWord_append ['a', 'l', 's', 'e'] rest)
  | string h =>
    obtain ⟨chars⟩ := h
    exact congrArg (Except.map fun r => (Opening.scalar (.string r.1), r.2))
      (readText_eq_ok.mpr (.quoted chars))
  | @number n x _ _ h value =>
    -- Only a numeral is not seen to end before what follows it has been looked at.
    have hnumber : readNumber .exact s = .ok (x, rest) :=
      readNumber_eq_ok.mpr ⟨n, readNumeral_of_numeralAt h hrest, value⟩
    obtain ⟨u, s₁, rfl, rfl | ⟨d, hu⟩⟩ := h.head
    · exact congrArg (Except.map fun r => (Opening.scalar (.number r.1), r.2)) hnumber
    · obtain ⟨-, -, h₁, h₂, h₃, h₄, h₅, h₆⟩ := digit_ne hu
      simp only [h₁, h₂, h₃, h₄, h₅, h₆, hu, hnumber, Option.isSome_some, Bool.or_true, ↓reduceIte]
      rfl

theorem readOpening_of_bracket {s' : Source} (hs : Blanks s' (some '[' :: rest)) :
    readOpening .exact s' = .ok (.array, rest) := by
  rw [readOpening, hs.skipBlank_cons rfl]
  rfl

theorem readOpening_of_brace {s' : Source} (hs : Blanks s' (some '\x7b' :: rest)) :
    readOpening .exact s' = .ok (.object, rest) := by
  rw [readOpening, hs.skipBlank_cons rfl]
  rfl

end Scalars

section Series
variable {s s₁ s₂ rest : Source} {first : Bool}

/-- The way to the next part of a series: none to the first part, and over a comma to the others. -/
inductive Enters : Bool → Source → Source → Prop where
  | first (s : Source) : Enters true s s
  | next {s s₁ : Source} (comma : Blanks s (some ',' :: s₁)) : Enters false s s₁

/-- The bracket behind the items is found where there are only blanks in front of it. -/
theorem nextItem_eq_end : nextItem first s = .ok (false, rest) ↔ Blanks s (some ']' :: rest) := by
  constructor
  · intro h
    unfold nextItem at h
    split at h
    · cases h
    next u s' hs =>
    split at h
    · next hu =>
      cases h
      exact hu ▸ hs ▸ blanks_skipBlank s
    split at h
    · cases h
    split at h
    · split at h
      · cases h
      · split at h <;> cases h
    · cases h
  · intro h
    rw [nextItem, h.skipBlank_cons rfl]
    rfl

theorem enters_of_nextItem (h : nextItem first s = .ok (true, s₂)) :
    ∃ s₁, Enters first s s₁ ∧ Blanks s₁ s₂ := by
  unfold nextItem at h
  split at h
  · cases h
  next u s' hs =>
  have hblanks : Blanks s (u :: s') := hs ▸ blanks_skipBlank s
  split at h
  · cases h
  split at h
  · next hfirst =>
    cases h
    rw [hfirst]
    exact ⟨s, .first s, hblanks⟩
  next hfirst =>
  rw [Bool.not_eq_true] at hfirst
  split at h
  · next hu =>
    subst hu
    split at h
    · cases h
    next w s'' hs' =>
    split at h
    · cases h
    · cases h
      rw [hfirst]
      exact ⟨s', .next hblanks, hs' ▸ blanks_skipBlank s'⟩
  · cases h

theorem nextItem_of_enters (h : Enters first s s₁) (hs : Blanks s₁ s₂) (hv : BeginsValue s₂) :
    nextItem first s = .ok (true, s₂) := by
  obtain ⟨u, s₃, rfl, hu, hclose⟩ := hv
  cases h with
  | first =>
    simp only [nextItem, hs.skipBlank_cons hu, hclose, ↓reduceIte]
  | next comma =>
    have hcomma : Source.isBlank (some ',') = false := rfl
    simp only [nextItem, comma.skipBlank_cons hcomma, hs.skipBlank_cons hu, hclose, ↓reduceIte]
    rfl

/-- The brace behind the members is found where there are only blanks in front of it. -/
theorem nextKey_eq_end :
    nextKey .exact first s = .ok (none, rest) ↔ Blanks s (some '\x7d' :: rest) := by
  constructor
  · intro h
    unfold nextKey at h
    split at h
    · cases h
    next u s' hs =>
    split at h
    · next hu =>
      cases h
      exact hu ▸ hs ▸ blanks_skipBlank s
    split at h
    · cases h
    split at h
    · cases h
    split at h
    · obtain ⟨r, -, he⟩ := map_eq_ok.mp h
      cases he
    · cases h
  · intro h
    rw [nextKey, h.skipBlank_cons rfl]
    rfl

theorem enters_of_nextKey {k : String} (h : nextKey .exact first s = .ok (some k, rest)) :
    ∃ s₁ s₂, Enters first s s₁ ∧ Blanks s₁ s₂ ∧ StringAt k s₂ rest := by
  unfold nextKey at h
  split at h
  · cases h
  next u s' hs =>
  have hblanks : Blanks s (u :: s') := hs ▸ blanks_skipBlank s
  split at h
  · cases h
  split at h
  · cases h
  next hcomma =>
  split at h
  · cases h
  next w s'' hfront =>
  split at h
  · next hw =>
    subst hw
    obtain ⟨⟨t, r⟩, hread, he⟩ := map_eq_ok.mp h
    cases he
    have hkey := readText_eq_ok.mp hread
    cases first with
    | true =>
      cases hfront
      exact ⟨s, _, .first s, hblanks, hkey⟩
    | false =>
      have hu : u = some ',' := by simpa using hcomma
      have hskip : Source.skipBlank s' = some '"' :: s'' := hfront
      subst hu
      exact ⟨s', _, .next hblanks, hskip ▸ blanks_skipBlank s', hkey⟩
  · cases h

theorem nextKey_of_enters {k : String} (h : Enters first s s₁) (hs : Blanks s₁ s₂)
    (hk : StringAt k s₂ rest) : nextKey .exact first s = .ok (some k, rest) := by
  obtain ⟨chars⟩ := hk
  have hread := readText_eq_ok.mpr (.quoted chars)
  have hquote : Source.isBlank (some '"') = false := rfl
  cases h with
  | first =>
    rw [nextKey, hs.skipBlank_cons hquote]
    exact congrArg (Except.map fun r => (some r.1, r.2)) hread
  | next comma =>
    have hcomma : Source.isBlank (some ',') = false := rfl
    simp only [nextKey, comma.skipBlank_cons hcomma, hs.skipBlank_cons hquote]
    exact congrArg (Except.map fun r => (some r.1, r.2)) hread

theorem readColon_eq_ok : readColon s = .ok ((), rest) ↔ Blanks s (some ':' :: rest) := by
  constructor
  · intro h
    unfold readColon at h
    split at h
    · cases h
    next u s' hs =>
    split at h
    · next hu =>
      cases h
      exact hu ▸ hs ▸ blanks_skipBlank s
    · cases h
  · intro h
    rw [readColon, h.skipBlank_cons rfl]
    rfl

end Series

/-- The reader finds what `R` has in front, behind blanks, and finds it wherever a value may end
behind it. What `R` relates begins as a value does and takes up a unit or more. -/
structure Recognizes (read : Reader ReadError Json) (R : Json → Source → Source → Prop) :
    Prop where
  sound : ∀ {v s rest}, read s = .ok (v, rest) → ∃ s₁, Blanks s s₁ ∧ R v s₁ rest
  complete : ∀ {v s s₁ rest}, Blanks s s₁ → R v s₁ rest → Stops rest → read s = .ok (v, rest)
  begins : ∀ {v s rest}, R v s rest → BeginsValue s
  length_lt : ∀ {v s rest}, R v s rest → rest.length < s.length

namespace Recognizes
variable {inner : Reader ReadError Json} {R : Json → Source → Source → Prop} {s s₁ rest : Source}
  {first : Bool} {fuel : Nat}

theorem spaced_length_lt (h : Recognizes inner R) {v : Json} (hv : SpacedAt R v s rest) :
    rest.length < s.length := by
  cases hv with
  | spaced before value behind =>
    calc
      rest.length ≤ _ := behind.length_le
      _ < _ := h.length_lt value
      _ ≤ s.length := before.length_le

theorem member_length_lt (h : Recognizes inner R) {e : String × Json} (he : MemberAt R e s rest) :
    rest.length < s.length := by
  cases he with
  | member before key colon value =>
    have hcolon := colon.length_le
    have hvalue := h.spaced_length_lt value
    have hkey := key.length_lt
    have hbefore := before.length_le
    simp only [List.length_cons] at hcolon
    omega

theorem foldItems_sound (h : Recognizes inner R) {done all : List Json}
    (hf : foldItems id (fun acc s => (inner s).map fun r => (r.1 :: acc, r.2)) fuel first done s =
      .ok (all, rest)) :
    ∃ vs, all = vs.reverse ++ done ∧ (vs = [] ∧ Blanks s (some ']' :: rest) ∨
      ∃ s₁, Enters first s s₁ ∧ SeriesAt (SpacedAt R) vs s₁ (some ']' :: rest)) := by
  -- On the rounds. A round does not know whether its value is the last, so the blanks behind the
  -- value are found only when the next round has looked for a comma or the bracket.
  induction fuel generalizing first s done with
  | zero => cases hf
  | succ fuel ih =>
    rcases (foldItems_succ_eq_ok _).mp hf with ⟨hend, rfl⟩ | ⟨s₂, mid, s₃, hnext, hitem, hmore⟩
    · exact ⟨[], rfl, Or.inl ⟨rfl, nextItem_eq_end.mp hend⟩⟩
    · obtain ⟨⟨v, s₃'⟩, hv, he⟩ := map_eq_ok.mp hitem
      cases he
      obtain ⟨s₁, henters, hblanks⟩ := enters_of_nextItem hnext
      obtain ⟨s₂', hblanks', hvalue⟩ := h.sound hv
      obtain ⟨vs, rfl, hvs⟩ := ih hmore
      refine ⟨v :: vs, by simp, Or.inr ⟨s₁, henters, ?_⟩⟩
      rcases hvs with ⟨rfl, hend⟩ | ⟨s₄, hnext, hothers⟩
      · exact .one (.spaced (hblanks.trans hblanks') hvalue hend)
      · cases hnext with
        | next comma => exact .more (.spaced (hblanks.trans hblanks') hvalue comma) hothers

theorem foldMembers_sound (h : Recognizes inner R) {done all : Entries Json}
    (hf : foldMembers id .exact (fun acc k s => do
        let (_, s) ← readColon s
        let (v, s) ← inner s
        return ((k, v) :: acc, s)) fuel first done s = .ok (all, rest)) :
    ∃ ms : Entries Json, all = ms.reverse ++ done ∧ (ms = [] ∧ Blanks s (some '\x7d' :: rest) ∨
      ∃ s₁, Enters first s s₁ ∧ SeriesAt (MemberAt R) ms s₁ (some '\x7d' :: rest)) := by
  -- On the rounds, as for items.
  induction fuel generalizing first s done with
  | zero => cases hf
  | succ fuel ih =>
    rcases (foldMembers_succ_eq_ok _).mp hf with ⟨hend, rfl⟩ | ⟨k, s₂, mid, s₃, hnext, hmember, hmore⟩
    · exact ⟨[], rfl, Or.inl ⟨rfl, nextKey_eq_end.mp hend⟩⟩
    · obtain ⟨⟨⟨⟩, s₄⟩, hcolon, hmember⟩ := bind_eq_ok.mp hmember
      obtain ⟨⟨v, s₅⟩, hv, he⟩ := bind_eq_ok.mp hmember
      cases he
      obtain ⟨s₁, s₁', henters, hblanks, hkey⟩ := enters_of_nextKey hnext
      obtain ⟨s₄', hblanks', hvalue⟩ := h.sound hv
      obtain ⟨ms, rfl, hms⟩ := ih hmore
      have hpart {rest : Source} (hrest : Blanks s₃ rest) : MemberAt R (k, v) s₁ rest :=
        .member hblanks hkey (readColon_eq_ok.mp hcolon) (.spaced hblanks' hvalue hrest)
      refine ⟨(k, v) :: ms, by simp, Or.inr ⟨s₁, henters, ?_⟩⟩
      rcases hms with ⟨rfl, hend⟩ | ⟨s₆, hnext, hothers⟩
      · exact .one (hpart hend)
      · cases hnext with
        | next comma => exact .more (hpart comma) hothers

end Recognizes

/-- Parts that take up a unit or more are not more than the units that they take up. -/
theorem SeriesAt.length_le {α : Type} {E : α → Source → Source → Prop} {as : List α}
    {s rest : Source} (hE : ∀ {a s rest}, E a s rest → rest.length < s.length)
    (h : SeriesAt E as s rest) : as.length + rest.length ≤ s.length := by
  induction h with
  | one part =>
    have hlt := hE part
    simp only [List.length_singleton]
    omega
  | more part others ih =>
    have hlt := hE part
    simp only [List.length_cons] at hlt ⊢
    omega

theorem SeriesAt.length_lt {α : Type} {E : α → Source → Source → Prop} {as : List α}
    {u : Option Char} {s rest : Source} (hE : ∀ {a s rest}, E a s rest → rest.length < s.length)
    (h : SeriesAt E as s (u :: rest)) : as.length < s.length := by
  have hle := h.length_le hE
  simp only [List.length_cons] at hle
  omega

theorem stops_comma (s : Source) : Stops (some ',' :: s) := by
  intro u hu
  cases hu
  exact Or.inr (Or.inl rfl)

theorem stops_bracket (s : Source) : Stops (some ']' :: s) := by
  intro u hu
  cases hu
  exact Or.inr (Or.inr (Or.inl rfl))

theorem stops_brace (s : Source) : Stops (some '\x7d' :: s) := by
  intro u hu
  cases hu
  exact Or.inr (Or.inr (Or.inr rfl))

namespace Recognizes
variable {inner : Reader ReadError Json} {R : Json → Source → Source → Prop} {s s₁ rest : Source}
  {first : Bool} {fuel : Nat}

/-- A round of the loop takes up a value of the series, and stops behind it. -/
theorem foldItems_round (h : Recognizes inner R) {done : List Json} {v : Json}
    (hs : Enters first s s₁) (hv : SpacedAt R v s₁ rest) (hrest : Stops rest) :
    ∃ s₂, Blanks s₂ rest ∧
      foldItems id (fun acc s => (inner s).map fun r => (r.1 :: acc, r.2)) (fuel + 1) first done s =
        foldItems id (fun acc s => (inner s).map fun r => (r.1 :: acc, r.2)) fuel false (v :: done)
          s₂ := by
  cases hv with
  | @spaced s₂ s₃ _ before value behind =>
    have hv : inner s₂ = .ok (v, s₃) := h.complete (.none s₂) value (behind.stops hrest)
    have hnext := nextItem_of_enters hs before (h.begins value)
    refine ⟨s₃, behind, ?_⟩
    rw [foldItems]
    simp only [hnext, hv, Except.map]

theorem foldItems_complete (h : Recognizes inner R) (done : List Json) {vs : List Json}
    (hs : Enters first s s₁) (hvs : SeriesAt (SpacedAt R) vs s₁ (some ']' :: rest))
    (hf : vs.length < fuel) :
    foldItems id (fun acc s => (inner s).map fun r => (r.1 :: acc, r.2)) fuel first done s =
      .ok (vs.reverse ++ done, rest) := by
  -- The last value takes two rounds, of which the second finds the bracket.
  generalize hend : some ']' :: rest = s' at hvs
  induction hvs generalizing fuel first s done with
  | one part =>
    subst hend
    obtain ⟨fuel, rfl⟩ : ∃ n, fuel = n + 2 := ⟨fuel - 2, by simp at hf; omega⟩
    obtain ⟨s₂, hbehind, hround⟩ := h.foldItems_round hs part (stops_bracket rest)
    rw [hround, foldItems]
    simp only [nextItem_eq_end.mpr hbehind]
    rfl
  | more part others ih =>
    obtain ⟨fuel, rfl⟩ : ∃ n, fuel = n + 1 := ⟨fuel - 1, by omega⟩
    obtain ⟨s₂, hbehind, hround⟩ := h.foldItems_round hs part (stops_comma _)
    rw [hround, ih _ (.next hbehind) (Nat.lt_of_succ_lt_succ hf) hend]
    simp

theorem foldMembers_round (h : Recognizes inner R) {done : Entries Json} {e : String × Json}
    (hs : Enters first s s₁) (he : MemberAt R e s₁ rest) (hrest : Stops rest) :
    ∃ s₂, Blanks s₂ rest ∧
      foldMembers id .exact (fun acc k s => do
          let (_, s) ← readColon s
          let (v, s) ← inner s
          return ((k, v) :: acc, s)) (fuel + 1) first done s =
        foldMembers id .exact (fun acc k s => do
          let (_, s) ← readColon s
          let (v, s) ← inner s
          return ((k, v) :: acc, s)) fuel false (e :: done) s₂ := by
  cases he with
  | member before key colon value =>
    cases value with
    | @spaced s₂ s₃ _ before' value behind =>
      have hv := h.complete before' value (behind.stops hrest)
      have hnext := nextKey_of_enters hs before key
      refine ⟨s₃, behind, ?_⟩
      rw [foldMembers]
      simp only [hnext, readColon_eq_ok.mpr colon, hv, bind, Except.bind]
      rfl

theorem foldMembers_complete (h : Recognizes inner R) (done : Entries Json) {ms : Entries Json}
    (hs : Enters first s s₁) (hms : SeriesAt (MemberAt R) ms s₁ (some '\x7d' :: rest))
    (hf : ms.length < fuel) :
    foldMembers id .exact (fun acc k s => do
        let (_, s) ← readColon s
        let (v, s) ← inner s
        return ((k, v) :: acc, s)) fuel first done s = .ok (ms.reverse ++ done, rest) := by
  generalize hend : some '\x7d' :: rest = s' at hms
  induction hms generalizing fuel first s done with
  | one part =>
    subst hend
    obtain ⟨fuel, rfl⟩ : ∃ n, fuel = n + 2 := ⟨fuel - 2, by simp at hf; omega⟩
    obtain ⟨s₂, hbehind, hround⟩ := h.foldMembers_round hs part (stops_brace rest)
    rw [hround, foldMembers]
    simp only [nextKey_eq_end.mpr hbehind]
    rfl
  | more part others ih =>
    obtain ⟨fuel, rfl⟩ : ∃ n, fuel = n + 1 := ⟨fuel - 1, by omega⟩
    obtain ⟨s₂, hbehind, hround⟩ := h.foldMembers_round hs part (stops_comma _)
    rw [hround, ih _ (.next hbehind) (Nat.lt_of_succ_lt_succ hf) hend]
    simp

/-- Where nothing may be nested there are only scalars. -/
theorem scalars : Recognizes (readWith .exact none) ScalarAt where
  sound := by
    intro v s rest h
    rcases ho : readOpening .exact s with e | ⟨o, s'⟩
    · simp [readWith, ho] at h
    obtain ⟨s₁, hblanks, hopening⟩ := openingAt_of_readOpening ho
    cases hopening with
    | scalar hscalar =>
      simp only [readWith, ho, Except.ok.injEq, Prod.mk.injEq] at h
      obtain ⟨rfl, rfl⟩ := h
      exact ⟨s₁, hblanks, hscalar⟩
    | array => simp [readWith, ho] at h
    | object => simp [readWith, ho] at h
  complete := by
    intro v s s₁ rest hs hv hrest
    simp only [readWith, readOpening_of_scalarAt hs hv hrest]
  begins := ScalarAt.beginsValue
  length_lt := ScalarAt.length_lt

/-- Values whose parts the reader recognizes are recognized. -/
theorem brackets (h : Recognizes inner R) :
    Recognizes (readWith .exact (some inner)) fun v s rest =>
      ScalarAt v s rest ∨ BracketAt R v s rest where
  sound := by
    intro v s rest hread
    rcases ho : readOpening .exact s with e | ⟨o, s'⟩
    · simp [readWith, ho] at hread
    obtain ⟨s₁, hblanks, hopening⟩ := openingAt_of_readOpening ho
    refine ⟨s₁, hblanks, ?_⟩
    cases hopening with
    | scalar hscalar =>
      simp only [readWith, ho, Except.ok.injEq, Prod.mk.injEq] at hread
      obtain ⟨rfl, rfl⟩ := hread
      exact Or.inl hscalar
    | array =>
      simp only [readWith, ho] at hread
      obtain ⟨⟨all, s₂⟩, hitems, he⟩ := map_eq_ok.mp hread
      cases he
      obtain ⟨vs, rfl, ⟨rfl, hend⟩ | ⟨s₃, hs₃, hvs⟩⟩ := h.foldItems_sound hitems
      · exact Or.inr (.noItems hend)
      · cases hs₃
        simp only [List.append_nil, List.reverse_reverse]
        exact Or.inr (.items hvs)
    | object =>
      simp only [readWith, ho] at hread
      obtain ⟨⟨all, s₂⟩, hmembers, he⟩ := map_eq_ok.mp hread
      cases he
      obtain ⟨ms, rfl, ⟨rfl, hend⟩ | ⟨s₃, hs₃, hms⟩⟩ := h.foldMembers_sound hmembers
      · exact Or.inr (.noMembers hend)
      · cases hs₃
        simp only [List.append_nil, List.reverse_reverse]
        exact Or.inr (.members hms)
  complete := by
    intro v s s₁ rest hs hv hrest
    rcases hv with hscalar | hbracket
    · simp only [readWith, readOpening_of_scalarAt hs hscalar hrest]
    · cases hbracket with
      | noItems hend =>
        obtain ⟨fuel, hfuel⟩ := hend.length_eq_succ
        simp only [readWith, readOpening_of_bracket hs, hfuel, foldItems, nextItem_eq_end.mpr hend]
        rfl
      | items hvs =>
        -- The rounds are as many as the units behind the bracket, and so more than the items.
        have hlt := hvs.length_lt h.spaced_length_lt
        have hread := h.foldItems_complete [] (.first _) hvs hlt
        simp only [readWith, readOpening_of_bracket hs]
        rw [hread]
        simp [Except.map]
      | noMembers hend =>
        obtain ⟨fuel, hfuel⟩ := hend.length_eq_succ
        simp only [readWith, readOpening_of_brace hs, hfuel, foldMembers, nextKey_eq_end.mpr hend]
        rfl
      | members hms =>
        have hlt := hms.length_lt h.member_length_lt
        have hread := h.foldMembers_complete [] (.first _) hms hlt
        simp only [readWith, readOpening_of_brace hs]
        rw [hread]
        simp [Except.map]
  begins := by
    intro v s rest hv
    rcases hv with hscalar | hbracket
    · exact hscalar.beginsValue
    · cases hbracket <;> exact ⟨_, _, rfl, rfl, by decide⟩
  length_lt := by
    intro v s rest hv
    rcases hv with hscalar | hbracket
    · exact hscalar.length_lt
    · cases hbracket with
      | noItems hend | noMembers hend =>
        have hle := hend.length_le
        simp only [List.length_cons] at hle ⊢
        omega
      | items hvs =>
        have hle := hvs.length_le h.spaced_length_lt
        simp only [List.length_cons] at hle ⊢
        omega
      | members hms =>
        have hle := hms.length_le h.member_length_lt
        simp only [List.length_cons] at hle ⊢
        omega

/-- On every level of nesting the reader recognizes the values of the grammar. -/
theorem readValue (depth : Nat) : Recognizes (Json.readValue .exact depth) (ValueAt depth) := by
  induction depth with
  | zero => exact scalars
  | succ depth ih => exact ih.brackets

end Recognizes

theorem stops_nil : Stops [] := by
  intro u hu
  cases hu

theorem readEnd_eq_ok {s : Source} : readEnd s = .ok () ↔ Blanks s [] := by
  unfold readEnd
  constructor
  · intro h
    split at h
    · next hempty =>
      have hblanks := blanks_skipBlank s
      rwa [List.isEmpty_iff.mp hempty] at hblanks
    · cases h
  · intro h
    rw [h.skipBlank_eq]
    rfl

/-- A source is read as a tree exactly when it is a JSON text of that tree. -/
theorem parseTree_eq_ok {s : Source} {t : Json} : parseTree s = .ok t ↔ IsText t s := by
  have hvalue := Recognizes.readValue depthLimit
  simp only [parseTree, bind_eq_ok, pure_eq_ok]
  constructor
  · rintro ⟨⟨v, rest⟩, hread, _, hend, rfl⟩
    obtain ⟨s₁, hblanks, hv⟩ := hvalue.sound hread
    exact .spaced hblanks hv (readEnd_eq_ok.mp hend)
  · intro h
    cases h with
    | spaced before value behind =>
      have hread := hvalue.complete before value (behind.stops stops_nil)
      exact ⟨_, hread, (), readEnd_eq_ok.mpr behind, rfl⟩

/-- No source is the text of two trees. -/
theorem IsText.unique {s : Source} {t t' : Json} (h : IsText t s) (h' : IsText t' s) : t = t' :=
  Except.ok.inj ((parseTree_eq_ok.mpr h).symm.trans (parseTree_eq_ok.mpr h'))

example : IsText (.array [.string "a", .null]) (.ofText " [ \"\\u0061\" , null ] ") :=
  parseTree_eq_ok.mp (by cbv)

end Catalog.Json
