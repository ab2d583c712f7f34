import Catalog.Proofs.RepeatedKeys
import Catalog.Proofs.WellFormedTexts

/-! Where repeats end in a text. By the grammar every member of a text ends at a place of its own,
in front of a comma or a brace. So the repeats of a text are told without a reader: they are the
members that give a key which a member in front of them in the same object has. The list of repeats
that is kept of a text has an entry for each of these members, and goes by their ends. -/

namespace Catalog.Json

section Series
variable {α : Type} (E : α → Source → Source → Prop)

/-- What stands in front of a part of a series: nothing, or other parts and a comma. -/
inductive FrontAt : List α → Source → Source → Prop where
  | none (s : Source) : FrontAt [] s s
  | parts {as : List α} {s rest : Source} (h : SeriesAt E as s (some ',' :: rest)) :
    FrontAt as s rest

/-- What stands behind a part of a series: nothing, or a comma and other parts. -/
inductive BackAt : List α → Source → Source → Prop where
  | none (s : Source) : BackAt [] s s
  | parts {as : List α} {s rest : Source} (h : SeriesAt E as s rest) :
    BackAt as (some ',' :: s) rest

/-- A series of which some part is as `P` says of the parts in front of it and of the part. -/
inductive PartAt (P : List α → α → Source → Source → Prop) : List α → Source → Source → Prop where
  | part {front back : List α} {a : α} {s s₁ s₂ rest : Source} (before : FrontAt E front s s₁)
    (here : P front a s₁ s₂) (behind : BackAt E back s₂ rest) :
    PartAt P (front ++ a :: back) s rest

end Series

section Levels
variable (R : Json → Source → Source → Prop) (inner : Step → Json → Source → Source → Prop)
  (place : Field) (r : Repeat) (e : Source)

/-- A member of the object at `place` behind members with the keys `front`. Either it gives one of
these keys again, which is the repeat `r`, and ends in front of `e`; or what repeats is inside its
value. -/
inductive MemberRepeat (front : List String) : String × Json → Source → Source → Prop where
  | again {k : String} {v : Json} {s : Source} (member : MemberAt R (k, v) s e) (seen : k ∈ front)
    (hr : r = ⟨place, k⟩) : MemberRepeat front (k, v) s e
  | inside {k : String} {v : Json} {s rest : Source}
    (member : MemberAt (inner (.key k)) (k, v) s rest) : MemberRepeat front (k, v) s rest

/-- In the array or object at `place`, of values that `R` relates, some part repeats `r` and ends in
front of `e`. -/
inductive BracketRepeat : Json → Source → Source → Prop where
  | items {vs : List Json} {s rest : Source}
    (h : PartAt (SpacedAt R) (fun front v => SpacedAt (inner (.index front.length)) v) vs s
      (some ']' :: rest)) : BracketRepeat (.array vs) (some '[' :: s) rest
  | members {ms : Entries Json} {s rest : Source}
    (h : PartAt (MemberAt R) (fun front => MemberRepeat R inner place r e (Entries.keys front)) ms s
      (some '\x7d' :: rest)) : BracketRepeat (.object ms) (some '\x7b' :: s) rest

end Levels

/-- In a value at `place`, with at most `depth` arrays and objects nested in each other, some member
repeats `r` and ends in front of `e`. -/
def RepeatAt (r : Repeat) (e : Source) : (depth : Nat) → Field → Json → Source → Source → Prop
  | 0, _ => fun _ _ _ => False
  | depth + 1, place =>
    BracketRepeat (ValueAt depth) (fun step => RepeatAt r e depth (place.child step)) place r e

/-- In the text `s` of the tree `t` some member repeats `r` and ends in front of `e`, which is the
comma or brace behind it and what follows. No other member ends there, so the member is told by its
end. -/
def RepeatEnds (t : Json) (s : Source) (r : Repeat) (e : Source) : Prop :=
  SpacedAt (RepeatAt r e depthLimit []) t s []

/-- The list has one entry for each member of the text that repeats a key, and goes by where these
members end: what follows an end gets shorter from each entry to the next. -/
def LogOf (t : Json) (s : Source) (log : List Repeat) : Prop :=
  ∃ ended : List (Repeat × Source), ended.map Prod.fst = log ∧
    ended.Pairwise (fun a b => b.2.length < a.2.length) ∧
    ∀ r e, (r, e) ∈ ended ↔ RepeatEnds t s r e

section Series
variable {α : Type} {E : α → Source → Source → Prop} {P : List α → α → Source → Source → Prop}
  {a : α} {as : List α} {s s₁ s₂ rest : Source}

theorem not_seriesAt_nil : ¬SeriesAt E [] s rest := by
  intro h
  cases h

@[simp]
theorem frontAt_nil : FrontAt E [] s rest ↔ rest = s := by
  constructor
  · intro h
    cases h with
    | none => rfl
    | parts h => exact absurd h not_seriesAt_nil
  · rintro rfl
    exact .none _

@[simp]
theorem backAt_nil : BackAt E [] s rest ↔ rest = s := by
  constructor
  · intro h
    cases h with
    | none => rfl
    | parts h => exact absurd h not_seriesAt_nil
  · rintro rfl
    exact .none _

theorem not_partAt_nil : ¬PartAt E P [] s rest := by
  intro h
  generalize has : ([] : List α) = as at h
  cases h with
  | part => simp at has

theorem partAt_one : PartAt E P [a] s rest ↔ P [] a s rest := by
  constructor
  · intro h
    generalize has : [a] = as at h
    cases h with
    | @part front back b _ s₁ s₂ _ before here behind =>
      obtain ⟨rfl, hrest⟩ : front = [] ∧ [a] = b :: back := by
        cases front with
        | nil => exact ⟨rfl, has⟩
        | cons c front => simp at has
      obtain ⟨rfl, rfl⟩ := List.cons.inj hrest
      obtain rfl := frontAt_nil.mp before
      obtain rfl := backAt_nil.mp behind
      exact here
  · intro h
    exact .part (.none s) h (.none rest)

/-- Some part of a series is the first one or one of the others, as the comma behind the first part
has one place. -/
theorem partAt_cons (hP : ∀ {front b s rest}, P front b s rest → E b s rest)
    (hcomma : ∀ {s₁ s₂}, E a s (some ',' :: s₁) → E a s (some ',' :: s₂) → s₁ = s₂)
    (first : E a s (some ',' :: s₁)) (others : SeriesAt E as s₁ rest) :
    PartAt E P (a :: as) s rest ↔
      P [] a s (some ',' :: s₁) ∨ PartAt E (fun front => P (a :: front)) as s₁ rest := by
  constructor
  · intro h
    generalize has : a :: as = all at h
    cases h with
    | @part front back b _ s₂ s₃ _ before here behind =>
      -- With nothing in front it is the first part, and what stands behind it are the others.
      cases front with
      | nil =>
        obtain ⟨rfl, rfl⟩ := List.cons.inj has
        obtain rfl := frontAt_nil.mp before
        cases behind with
        | none => exact absurd others not_seriesAt_nil
        | parts _ =>
          obtain rfl := hcomma first (hP here)
          exact Or.inl here
      | cons c front =>
        obtain ⟨rfl, rfl⟩ := List.cons.inj has
        right
        -- The first part is in front of it; the comma behind the first part begins the others.
        cases before with
        | parts hbefore =>
          cases hbefore with
          | one part =>
            obtain rfl := hcomma first part
            exact .part (.none _) here behind
          | more part hmore =>
            obtain rfl := hcomma first part
            exact .part (.parts hmore) here behind
  · rintro (h | h)
    · exact .part (.none s) h (.parts others)
    · cases h with
      | @part front back b _ s₂ s₃ _ before here behind =>
        have hfront : FrontAt E (a :: front) s s₂ := by
          cases before with
          | none => exact .parts (.one first)
          | parts hbefore => exact .parts (.more first hbefore)
        exact .part hfront here behind

/-- One series goes on after the comma behind another. -/
theorem SeriesAt.append {bs : List α} (h : SeriesAt E as s (some ',' :: s₁))
    (h' : SeriesAt E bs s₁ rest) : SeriesAt E (as ++ bs) s rest := by
  generalize hcomma : some ',' :: s₁ = t at h
  induction h with
  | one part =>
    subst hcomma
    exact .more part h'
  | more part others ih => exact .more part (ih hcomma)

theorem PartAt.seriesAt (hP : ∀ {front b s rest}, P front b s rest → E b s rest)
    (h : PartAt E P as s rest) : SeriesAt E as s rest := by
  cases h with
  | @part front back b _ s₁ s₂ _ before here behind =>
    have hlast : SeriesAt E (b :: back) s₁ rest := by
      cases behind with
      | none => exact .one (hP here)
      | parts hback => exact .more (hP here) hback
    cases before with
    | none => exact hlast
    | parts hfront => exact hfront.append hlast

end Series

/-- The entries, with their ends, are those of which `P` tells. They go by their ends, which have
`low` units or more behind them, and fewer than `high`. -/
structure Lists (P : Repeat → Source → Prop) (high low : Nat) (ended : List (Repeat × Source)) :
    Prop where
  complete : ∀ r e, (r, e) ∈ ended ↔ P r e
  ordered : ended.Pairwise fun a b => b.2.length < a.2.length
  bounds : ∀ x ∈ ended, low ≤ x.2.length ∧ x.2.length < high

namespace Lists
variable {P Q : Repeat → Source → Prop} {high mid low high' low' : Nat}
  {ended others : List (Repeat × Source)}

theorem nil (h : ∀ r e, ¬P r e) : Lists P high low [] where
  complete := fun r e => by simp [h r e]
  ordered := List.Pairwise.nil
  bounds := by simp

theorem single {r : Repeat} {e : Source} (hhigh : e.length < high) :
    Lists (fun r' e' => r' = r ∧ e' = e) high e.length [(r, e)] where
  complete := fun r' e' => by simp
  ordered := List.pairwise_singleton _ _
  bounds := by
    intro x hx
    rw [List.mem_singleton.mp hx]
    exact ⟨Nat.le_refl _, hhigh⟩

theorem congr (h : Lists P high low ended) (hP : ∀ r e, Q r e ↔ P r e) :
    Lists Q high low ended where
  complete := fun r e => (h.complete r e).trans (hP r e).symm
  ordered := h.ordered
  bounds := h.bounds

theorem widen (h : Lists P high low ended) (hhigh : high ≤ high') (hlow : low' ≤ low) :
    Lists P high' low' ended where
  complete := h.complete
  ordered := h.ordered
  bounds := fun x hx => ⟨hlow.trans (h.bounds x hx).1, (h.bounds x hx).2.trans_le hhigh⟩

/-- What ends earlier in a text is listed in front of what ends later. -/
theorem append (h : Lists P high mid ended) (h' : Lists Q mid low others) (hhigh : mid ≤ high)
    (hlow : low ≤ mid) : Lists (fun r e => P r e ∨ Q r e) high low (ended ++ others) where
  complete := fun r e => by rw [List.mem_append, h.complete, h'.complete]
  ordered := by
    refine List.pairwise_append.mpr ⟨h.ordered, h'.ordered, fun a ha b hb => ?_⟩
    exact (h'.bounds b hb).2.trans_le (h.bounds a ha).1
  bounds := by
    intro x hx
    rcases List.mem_append.mp hx with hx | hx
    · exact ⟨hlow.trans (h.bounds x hx).1, (h.bounds x hx).2⟩
    · exact ⟨(h'.bounds x hx).1, (h'.bounds x hx).2.trans_le hhigh⟩

end Lists

/-- What is said of a member is said of the value behind its colon. -/
theorem memberAt_iff {M : Json → Source → Source → Prop} {k : String} {v : Json}
    {s s₁ s₂ s₃ rest : Source} (before : Blanks s s₁) (key : StringAt k s₁ s₂)
    (colon : Blanks s₂ (some ':' :: s₃)) : MemberAt M (k, v) s rest ↔ SpacedAt M v s₃ rest := by
  constructor
  · intro hm
    cases hm with
    | member before' key' colon' value' =>
      have hnext := nextKey_of_enters (.first s) before key
      have hnext' := nextKey_of_enters (.first s) before' key'
      rw [hnext, Except.ok.injEq, Prod.mk.injEq] at hnext'
      obtain ⟨-, rfl⟩ := hnext'
      have hcolon := readColon_eq_ok.mpr colon
      rw [readColon_eq_ok.mpr colon', Except.ok.injEq, Prod.mk.injEq] at hcolon
      obtain ⟨-, rfl⟩ := hcolon
      exact value'
  · intro hm
    exact .member before key colon hm

namespace Recognizes
variable {read : Reader ReadError Json} {R M : Json → Source → Source → Prop} {v w : Json}
  {s s₁ s₂ rest rest' : Source} {k : String}

/-- In front of a source there is one value at most, with one end. -/
theorem unique (h : Recognizes read R) (hs : Blanks s s₁) (hv : R v s₁ rest) (hrest : Stops rest)
    (hs' : Blanks s s₂) (hw : R w s₂ rest') (hrest' : Stops rest') :
    s₁ = s₂ ∧ v = w ∧ rest = rest' := by
  have hread : read s = .ok (v, rest) := h.complete hs hv hrest
  have hread' : read s = .ok (w, rest') := h.complete hs' hw hrest'
  obtain ⟨rfl, rfl⟩ : v = w ∧ rest = rest' := by simpa [hread] using hread'
  -- Both values begin where the blanks end.
  obtain ⟨u, t, rfl, hu, -⟩ := h.begins hv
  obtain ⟨u', t', rfl, hu', -⟩ := h.begins hw
  exact ⟨(hs.skipBlank_cons hu).symm.trans (hs'.skipBlank_cons hu'), rfl, rfl⟩

/-- What is said of a value with blanks around it is said of the value between them. -/
theorem spacedAt_iff (h : Recognizes read R) (hM : ∀ {v s rest}, M v s rest → R v s rest)
    (before : Blanks s s₁) (value : R v s₁ s₂) (behind : Blanks s₂ rest) (hrest : Stops rest) :
    SpacedAt M v s rest ↔ M v s₁ s₂ := by
  constructor
  · intro hm
    cases hm with
    | spaced before' value' behind' =>
      obtain ⟨rfl, -, rfl⟩ := h.unique before value (behind.stops hrest) before' (hM value')
        (behind'.stops hrest)
      exact value'
  · intro hm
    exact .spaced before hm behind

/-- The comma behind an item is at one place. -/
theorem spacedAt_comma (h : Recognizes read R) (hv : SpacedAt R v s (some ',' :: s₁))
    (hw : SpacedAt R w s (some ',' :: s₂)) : s₁ = s₂ := by
  cases hv with
  | spaced before value behind =>
    cases hw with
    | spaced before' value' behind' =>
      obtain ⟨-, -, rfl⟩ := h.unique before value (behind.stops (stops_comma s₁)) before' value'
        (behind'.stops (stops_comma s₂))
      have hskip := (behind.skipBlank_cons rfl).symm.trans (behind'.skipBlank_cons rfl)
      exact (List.cons.inj hskip).2

theorem memberAt_comma (h : Recognizes read R) (hv : MemberAt R (k, v) s (some ',' :: s₁))
    (hw : MemberAt R (k, v) s (some ',' :: s₂)) : s₁ = s₂ := by
  cases hv with
  | member before key colon value =>
    exact h.spacedAt_comma value ((memberAt_iff before key colon).mp hw)

end Recognizes

theorem SeriesAt.rest_length_lt {α : Type} {E : α → Source → Source → Prop} {as : List α}
    {s rest : Source} (hE : ∀ {a s rest}, E a s rest → rest.length < s.length)
    (h : SeriesAt E as s rest) : rest.length < s.length := by
  have hle := h.length_le hE
  have hpos : 0 < as.length := by
    cases h with
    | one | more => exact Nat.succ_pos _
  omega

theorem SpacedAt.imp {R M : Json → Source → Source → Prop}
    (hM : ∀ {v s rest}, M v s rest → R v s rest) {v : Json} {s rest : Source}
    (h : SpacedAt M v s rest) : SpacedAt R v s rest := by
  cases h with
  | spaced before value behind => exact .spaced before (hM value) behind

theorem MemberAt.imp {R M : Json → Source → Source → Prop}
    (hM : ∀ {v s rest}, M v s rest → R v s rest) {e : String × Json} {s rest : Source}
    (h : MemberAt M e s rest) : MemberAt R e s rest := by
  cases h with
  | member before key colon value => exact .member before key colon (value.imp hM)

section Levels
variable {read : Reader ReadError Json} {R : Json → Source → Source → Prop}
  {inner : Repeat → Source → Field → Json → Source → Source → Prop} {place : Field}
  {s rest : Source}

/-- Of the values that `R` relates, `inner` tells what they repeat: its repeats are those of the
tree, in the order of their ends, of which all lie inside the value. -/
structure Tells (R : Json → Source → Source → Prop)
    (inner : Repeat → Source → Field → Json → Source → Source → Prop) : Prop where
  within : ∀ {r e place v s rest}, inner r e place v s rest → R v s rest
  lists : ∀ {v s rest}, R v s rest → Stops rest → ∀ place, ∃ ended,
    ended.map Prod.fst = v.repeats place ∧
      Lists (fun r e => inner r e place v s rest) s.length (rest.length + 1) ended

theorem Tells.spaced (ht : Tells R inner) (h : Recognizes read R) {v : Json}
    (hv : SpacedAt R v s rest) (hrest : Stops rest) (place : Field) :
    ∃ ended, ended.map Prod.fst = v.repeats place ∧
      Lists (fun r e => SpacedAt (inner r e place) v s rest) s.length (rest.length + 1) ended := by
  cases hv with
  | spaced before value behind =>
    obtain ⟨ended, hfst, hlists⟩ := ht.lists value (behind.stops hrest) place
    have hbetween := hlists.congr fun r e =>
      h.spacedAt_iff (M := inner r e place) ht.within before value behind hrest
    have hlow : rest.length + 1 ≤ _ + 1 := Nat.succ_le_succ behind.length_le
    exact ⟨ended, hfst, hbetween.widen before.length_le hlow⟩

/-- The repeat of a member is listed behind those of its value. -/
theorem Tells.member (ht : Tells R inner) (h : Recognizes read R) {k : String} {v : Json}
    (hm : MemberAt R (k, v) s rest) (hrest : Stops rest) (place : Field) (front : List String) :
    ∃ ended, ended.map Prod.fst = v.repeats (place.child (.key k)) ++
        (if front.contains k then [⟨place, k⟩] else []) ∧
      Lists (fun r e => MemberRepeat R (fun step => inner r e (place.child step)) place r e front
        (k, v) s rest) s.length rest.length ended := by
  have hlt : rest.length < s.length := h.member_length_lt hm
  -- What repeats inside the value ends in front of the end of the member.
  have hvalue : ∃ ended, ended.map Prod.fst = v.repeats (place.child (.key k)) ∧
      Lists (fun r e => MemberAt (inner r e (place.child (.key k))) (k, v) s rest) s.length
        (rest.length + 1) ended := by
    cases hm with
    | @member _ _ _ s₁ s₂ s₃ _ before key colon value =>
      obtain ⟨ended, hfst, hlists⟩ := ht.spaced h value hrest (place.child (.key k))
      have hlength : s₃.length ≤ s.length := by
        have hbefore := before.length_le
        have hkey := key.length_lt
        have hcolon := colon.length_le
        simp only [List.length_cons] at hcolon
        omega
      exact ⟨ended, hfst, (hlists.congr fun r e => memberAt_iff before key colon).widen
        hlength (Nat.le_refl _)⟩
  obtain ⟨ended, hfst, hlists⟩ := hvalue
  by_cases hseen : k ∈ front
  · have hown := Lists.single (r := ⟨place, k⟩) (Nat.lt_succ_self rest.length)
    refine ⟨ended ++ [(⟨place, k⟩, rest)], by simp [hfst, hseen], ?_⟩
    refine (hlists.append hown hlt (Nat.le_succ _)).congr fun r e => ?_
    constructor
    · intro hr
      cases hr with
      | again member seen hr => exact Or.inr ⟨hr, rfl⟩
      | inside member => exact Or.inl member
    · rintro (hr | ⟨hr, rfl⟩)
      · exact .inside hr
      · exact .again hm hseen hr
  · refine ⟨ended, by simp [hfst, hseen], ?_⟩
    refine (hlists.widen (Nat.le_refl _) (Nat.le_succ _)).congr fun r e => ?_
    constructor
    · intro hr
      cases hr with
      | again member seen => exact absurd seen hseen
      | inside member => exact member
    · intro hr
      exact .inside hr

theorem MemberRepeat.imp {front : List String} {r : Repeat} {e : Source} {m : String × Json}
    (ht : Tells R inner) (h : MemberRepeat R (fun step => inner r e (place.child step)) place r e
      front m s rest) : MemberAt R m s rest := by
  cases h with
  | again member => exact member
  | inside member => exact member.imp ht.within

/-- Of the keys in front of a member only counts which they are. -/
theorem MemberRepeat.mono {M : Step → Json → Source → Source → Prop} {front front' : List String}
    {r : Repeat} {e : Source} {m : String × Json} (hfront : ∀ k, k ∈ front → k ∈ front')
    (h : MemberRepeat R M place r e front m s rest) :
    MemberRepeat R M place r e front' m s rest := by
  cases h with
  | again member seen hr => exact .again member (hfront _ seen) hr
  | inside member => exact .inside member

/-- What an item repeats ends in front of what the items behind it repeat. -/
theorem Tells.items (ht : Tells R inner) (h : Recognizes read R) {vs : List Json}
    (hvs : SeriesAt (SpacedAt R) vs s rest) (hrest : Stops rest) (place : Field) (i : Nat) :
    ∃ ended, ended.map Prod.fst = repeatsItems place i vs ∧
      Lists (fun r e => PartAt (SpacedAt R) (fun front v =>
          SpacedAt (inner r e (place.child (.index (i + front.length)))) v) vs s rest)
        s.length rest.length ended := by
  induction hvs generalizing i with
  | one part =>
    obtain ⟨ended, hfst, hlists⟩ := ht.spaced h part hrest (place.child (.index i))
    refine ⟨ended, by simp [repeatsItems, hfst], ?_⟩
    exact (hlists.widen (Nat.le_refl _) (Nat.le_succ _)).congr fun r e => partAt_one
  | @more v vs s s₁ rest part others ih =>
    obtain ⟨ended, hfst, hlists⟩ := ht.spaced h part (stops_comma s₁) (place.child (.index i))
    obtain ⟨ended', hfst', hlists'⟩ := ih hrest (i + 1)
    have hpart : s₁.length + 1 < s.length := h.spaced_length_lt part
    have hothers : rest.length < s₁.length := others.rest_length_lt h.spaced_length_lt
    have hfront : s₁.length ≤ (some ',' :: s₁).length + 1 := by simp only [List.length_cons]; omega
    have hindex (front : List Json) : i + (v :: front).length = i + 1 + front.length := by
      rw [List.length_cons]
      omega
    refine ⟨ended ++ ended', by simp [repeatsItems, hfst, hfst'], ?_⟩
    refine ((hlists.widen (Nat.le_refl _) hfront).append hlists' (by omega) hothers.le).congr
      fun r e => ?_
    rw [partAt_cons (fun hv => hv.imp ht.within) (h.spacedAt_comma ·) part others]
    simp only [hindex]
    rfl

/-- What a member repeats ends in front of what the members behind it repeat. -/
theorem Tells.members (ht : Tells R inner) (h : Recognizes read R) {ms : Entries Json}
    (hms : SeriesAt (MemberAt R) ms s rest) (hrest : Stops rest) (place : Field)
    (seen : List String) :
    ∃ ended, ended.map Prod.fst = repeatsMembers place seen ms ∧
      Lists (fun r e => PartAt (MemberAt R)
          (fun front => MemberRepeat R (fun step => inner r e (place.child step)) place r e
            (Entries.keys front ++ seen)) ms s rest) s.length rest.length ended := by
  induction hms generalizing seen with
  | @one m s rest part =>
    obtain ⟨k, v⟩ := m
    obtain ⟨ended, hfst, hlists⟩ := ht.member h part hrest place seen
    refine ⟨ended, by simp [repeatsMembers, hfst], hlists.congr fun r e => ?_⟩
    exact partAt_one
  | @more m ms s s₁ rest part others ih =>
    obtain ⟨k, v⟩ := m
    obtain ⟨ended, hfst, hlists⟩ := ht.member h part (stops_comma s₁) place seen
    obtain ⟨ended', hfst', hlists'⟩ := ih hrest (k :: seen)
    have hpart : s₁.length + 1 < s.length := h.member_length_lt part
    have hothers : rest.length < s₁.length := others.rest_length_lt h.member_length_lt
    have hfront : s₁.length ≤ (some ',' :: s₁).length := Nat.le_succ _
    -- For the members behind it, the key of the first one is among the keys in front.
    have hkeys (front : Entries Json) (k' : String) :
        k' ∈ Entries.keys ((k, v) :: front) ++ seen ↔ k' ∈ Entries.keys front ++ k :: seen := by
      simp only [Entries.keys, List.map_cons, List.cons_append, List.mem_cons, List.mem_append]
      exact or_left_comm
    have hbehind (r : Repeat) (e : Source) :
        (fun front => MemberRepeat R (fun step => inner r e (place.child step)) place r e
          (Entries.keys ((k, v) :: front) ++ seen)) =
        fun front => MemberRepeat R (fun step => inner r e (place.child step)) place r e
          (Entries.keys front ++ k :: seen) := by
      funext front m s rest
      exact propext ⟨.mono fun k' => (hkeys front k').mp, .mono fun k' => (hkeys front k').mpr⟩
    refine ⟨ended ++ ended', by simp [repeatsMembers, hfst, hfst'], ?_⟩
    refine ((hlists.widen (Nat.le_refl _) hfront).append hlists' (by omega) hothers.le).congr
      fun r e => ?_
    rw [partAt_cons (fun hm => hm.imp ht) (h.memberAt_comma ·) part others, hbehind]
    rfl

theorem not_bracketRepeat_scalar {M : Step → Json → Source → Source → Prop} {r : Repeat}
    {e : Source} {v : Json} (h : ScalarAt v s rest) : ¬BracketRepeat R M place r e v s rest := by
  intro hr
  cases hr with
  | items | members => cases h

/-- An array or object repeats what its parts repeat. -/
theorem Tells.brackets (ht : Tells R inner) (h : Recognizes read R) :
    Tells (fun v s rest => ScalarAt v s rest ∨ BracketAt R v s rest) fun r e place =>
      BracketRepeat R (fun step => inner r e (place.child step)) place r e where
  within := by
    intro r e place v s rest hr
    cases hr with
    | items hvs => exact Or.inr (.items (hvs.seriesAt fun hv => hv.imp ht.within))
    | members hms => exact Or.inr (.members (hms.seriesAt fun hm => hm.imp ht))
  lists := by
    intro v s rest hv hrest place
    rcases hv with hscalar | hbracket
    · refine ⟨[], ?_, .nil fun r e => not_bracketRepeat_scalar hscalar⟩
      cases hscalar <;> rfl
    · cases hbracket with
      | noItems =>
        refine ⟨[], rfl, .nil fun r e hr => ?_⟩
        cases hr with
        | items hvs => exact not_partAt_nil hvs
      | noMembers =>
        refine ⟨[], rfl, .nil fun r e hr => ?_⟩
        cases hr with
        | members hms => exact not_partAt_nil hms
      | items hvs =>
        obtain ⟨ended, hfst, hlists⟩ := ht.items h hvs (stops_bracket rest) place 0
        refine ⟨ended, hfst, (hlists.widen (Nat.le_succ _) (Nat.le_refl _)).congr fun r e => ?_⟩
        simp only [Nat.zero_add]
        constructor
        · intro hr
          cases hr with
          | items hr => exact hr
        · intro hr
          exact .items hr
      | members hms =>
        obtain ⟨ended, hfst, hlists⟩ := ht.members h hms (stops_brace rest) place []
        refine ⟨ended, hfst, (hlists.widen (Nat.le_succ _) (Nat.le_refl _)).congr fun r e => ?_⟩
        simp only [List.append_nil]
        constructor
        · intro hr
          cases hr with
          | members hr => exact hr
        · intro hr
          exact .members hr

end Levels

/-- Scalars repeat nothing. -/
theorem tells_scalars : Tells ScalarAt fun _ _ _ _ _ _ => False where
  within := False.elim
  lists := by
    intro v s rest hv _ place
    refine ⟨[], ?_, .nil fun _ _ => not_false⟩
    cases hv <;> rfl

/-- On every level of nesting the repeats are those of the tree. -/
theorem tells_valueAt (depth : Nat) : Tells (ValueAt depth) fun r e => RepeatAt r e depth := by
  induction depth with
  | zero => exact tells_scalars
  | succ depth ih => exact ih.brackets (.readValue depth)

/-- The repeats of the tree are the log of its text. -/
theorem logOf_repeats {t : Json} {s : Source} (h : IsText t s) : LogOf t s (t.repeats []) := by
  obtain ⟨ended, hfst, hlists⟩ :=
    (tells_valueAt depthLimit).spaced (.readValue depthLimit) h stops_nil []
  exact ⟨ended, hfst, hlists.ordered, hlists.complete⟩

/-- A text has one log. -/
theorem LogOf.unique {t : Json} {s : Source} {log log' : List Repeat} (h : LogOf t s log)
    (h' : LogOf t s log') : log = log' := by
  obtain ⟨ended, rfl, hordered, hcomplete⟩ := h
  obtain ⟨ended', rfl, hordered', hcomplete'⟩ := h'
  have hne {a b : Repeat × Source} (hlt : b.2.length < a.2.length) : a ≠ b := by
    rintro rfl
    exact Nat.lt_irrefl _ hlt
  have hperm : ended.Perm ended' := by
    apply (List.perm_ext_iff_of_nodup (hordered.imp hne) (hordered'.imp hne)).mpr
    rintro ⟨r, e⟩
    rw [hcomplete, hcomplete']
  have heq : ended = ended' := by
    apply hperm.eq_of_pairwise _ hordered hordered'
    intro a b _ _ hab hba
    omega
  rw [heq]

end Catalog.Json
