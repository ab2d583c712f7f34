import Catalog.Proofs.PairFlags

/-! The words of flags that give a key and a value. A line is taken apart into its frame, where every
such flag is left blank, and the pairs of the flags in their order. What has been taken of a line is
compared with what is left of it without the pairs: every word that is foreign to the flag is taken in
both alike, and a flag, however it is written, does no more to what is left than to settle what is
pending. -/

namespace Catalog

/-- Both fail alike, or both give something that is related. -/
inductive BothEnd {ε α β : Type} (R : α → β → Prop) : Except ε α → Except ε β → Prop where
  | error (e : ε) : BothEnd R (.error e) (.error e)
  | ok {a : α} {b : β} (h : R a b) : BothEnd R (.ok a) (.ok b)

namespace BothEnd
variable {ε δ α β γ κ : Type} {R S : α → β → Prop} {x : Except ε α} {y : Except ε β}

theorem refl (x : Except ε α) : BothEnd (· = ·) x x := by
  cases x with
  | error e => exact .error e
  | ok a => exact .ok rfl

theorem imp (hxy : BothEnd R x y) (hrs : ∀ a b, R a b → S a b) : BothEnd S x y := by
  cases hxy with
  | error e => exact .error e
  | ok hab => exact .ok (hrs _ _ hab)

theorem mapError {g : ε → δ} (hxy : BothEnd R x y) : BothEnd R (x.mapError g) (y.mapError g) := by
  cases hxy with
  | error e => exact .error (g e)
  | ok hab => exact .ok hab

theorem bind {T : γ → κ → Prop} {g : α → Except ε γ} {h : β → Except ε κ} (hxy : BothEnd R x y)
    (hgh : ∀ a b, R a b → BothEnd T (g a) (h b)) : BothEnd T (x >>= g) (y >>= h) := by
  cases hxy with
  | error e => exact .error e
  | ok hab => exact hgh _ _ hab

theorem bind_left {T : γ → β → Prop} {g : α → Except ε γ} (hxy : BothEnd R x y)
    (hg : ∀ a b, R a b → BothEnd T (g a) (.ok b)) : BothEnd T (x >>= g) y := by
  cases hxy with
  | error e => exact .error e
  | ok hab => exact hg _ _ hab

/-- Two that end as a third does end alike. -/
theorem meet {T : α → γ → Prop} {S : γ → β → Prop} {z : Except ε γ} (hxy : BothEnd R x y)
    (hzy : BothEnd S z y) (hrs : ∀ a c b, R a b → S c b → T a c) : BothEnd T x z := by
  cases hxy with
  | error e =>
    cases hzy
    exact .error e
  | ok hab =>
    cases hzy with
    | ok hcb => exact .ok (hrs _ _ _ hab hcb)

end BothEnd

theorem Arg.arg_of_read {a : Arg} {value : String} {s : Setting} (h : a.read value = .ok s) :
    s.arg = a := by
  cases a <;> simp only [read, map_eq_ok, Except.ok.injEq, reduceCtorEq] at h
  case maxNameLength =>
    split at h
    · cases h
      rfl
    · cases h
  case forbiddenChars | name | remove | json =>
    subst h
    rfl
  all_goals
    obtain ⟨-, -, rfl⟩ := h
    rfl

namespace Taken
variable {t : Taken} {l : Level} {body : String}

/-- Takes an argument with two dashes whose name and value have been told apart. -/
def addNamed (t : Taken) (l : Level) (body name : String) (attached : Option String) :
    Except Stop Taken :=
  match l.long? name with
  | none => .error (.usage (.unknown body))
  | some a =>
    if !a.isFlag then t.addOption a attached
    else if attached.isSome then .error (.usage (.needlessValue a.label))
    else t.addFlag a

theorem addLong_of_cut {p : String × String} (h : Text.splitFirst? '=' body = some p) :
    t.addLong l body = t.addNamed l body p.1 (some p.2) := by
  rw [addLong, h]
  rfl

theorem addLong_of_uncut (h : Text.splitFirst? '=' body = none) :
    t.addLong l body = t.addNamed l body body none := by
  rw [addLong, h]
  rfl

/-- Takes one word, which is not two dashes alone, at a level without subcommands. -/
def takeWord (l : Level) (t : Taken) (s : String) : Except Stop Taken :=
  match s.toList with
  | '-' :: '-' :: body => t.addLong l (String.ofList body)
  | '-' :: letter :: value => t.addShort l letter value
  | _ =>
    match t.pending with
    | some (a, none) => .ok { t with pending := some (a, some s) }
    | _ => t.addPosition l s

section Word
variable {s : String}

theorem takeWord_long {body : List Char} (h : s.toList = '-' :: '-' :: body) :
    takeWord l t s = t.addLong l (String.ofList body) := by
  simp only [takeWord, h]

theorem takeWord_short {letter : Char} {value : List Char} (h : s.toList = '-' :: letter :: value)
    (hne : letter ≠ '-') : takeWord l t s = t.addShort l letter value := by
  unfold takeWord
  rw [h]
  split
  · next hc =>
    cases hc
    exact absurd rfl hne
  · next hc =>
    cases hc
    rfl
  · next hno => exact absurd rfl (hno _ _)

/-- Other words are values or stand at a position. -/
theorem takeWord_plain (h : ∀ letter value, s.toList ≠ '-' :: letter :: value) :
    takeWord l t s = match t.pending with
      | some (a, none) => .ok { t with pending := some (a, some s) }
      | _ => t.addPosition l s := by
  unfold takeWord
  split
  · next hc => exact absurd hc (h _ _)
  · next hc => exact absurd hc (h _ _)
  · rfl

theorem takeWord_value {a : Arg} (h : s.toList.head? ≠ some '-') :
    takeWord l { t with pending := some (a, none) } s =
      .ok { t with pending := some (a, some s) } := by
  apply takeWord_plain
  intro letter value hs
  rw [hs] at h
  exact h rfl

theorem take_cons (hl : l.hasSubcommands = false) (hs : s ≠ "--") (rest : List String) :
    take l false t (s :: rest) = takeWord l t s >>= fun t => take l false t rest := by
  have hchars : s.toList ≠ ['-', '-'] := fun h => hs (String.toList_inj.mp h)
  rw [take]
  simp only [hl, Bool.and_false, Bool.false_and, Bool.false_eq_true, ↓reduceIte]
  split
  · next h => exact absurd h hchars
  · next h => rw [takeWord_long h]
  · next hne h => rw [takeWord_short h hne]
  · next h =>
    rw [takeWord_plain h]
    rcases t.pending with _ | ⟨a, _ | value⟩ <;> rfl

/-- A line is taken word by word. -/
theorem take_append (hl : l.hasSubcommands = false) {words : List String}
    (hwords : ∀ s ∈ words, s ≠ "--") (rest : List String) :
    take l false t (words ++ rest) =
      words.foldlM (takeWord l) t >>= fun t => take l false t rest := by
  induction words generalizing t with
  | nil => rfl
  | cons s words ih =>
    obtain ⟨hs, hwords⟩ := List.forall_mem_cons.mp hwords
    rw [List.cons_append, take_cons hl hs, List.foldlM_cons, bind_assoc]
    exact bind_congr fun t => ih hwords

end Word
end Taken

/-- What a level is given between its pair flags. -/
inductive Frame where
  | nil
  | text (s : String) (rest : Frame)
  | blank (rest : Frame)
  /-- Two dashes alone and the texts after them, of which none is an option. -/
  | dashes (texts : List String)

namespace PairFlag
variable {f : PairFlag} {text s : String} {p : String × String} {pairs ps : List (String × String)}
  {words args : List String} {b : Arg} {value : String}

/-- The flag with a text as it may be written, in one word or two. -/
inductive Writes (f : PairFlag) (text : String) : List String → Prop where
  | attached : Writes f text [attached f.name text]
  | apart (h : text.toList.head? ≠ some '-') : Writes f text ["--" ++ f.name, text]
  | letter {c : Char} (hc : f.arg.short? = some c) (h : text.toList.head? ≠ some '=') :
    Writes f text [String.ofList ('-' :: c :: text.toList)]
  | letterEquals {c : Char} (hc : f.arg.short? = some c) :
    Writes f text [String.ofList ('-' :: c :: '=' :: text.toList)]
  | letterApart {c : Char} (hc : f.arg.short? = some c) (h : text.toList.head? ≠ some '-') :
    Writes f text [String.ofList ['-', c], text]

/-- The text neither is the flag in one of these ways nor ends the options. -/
structure Foreign (f : PairFlag) (s : String) : Prop where
  dashes : s ≠ "--"
  alone : s ≠ "--" ++ f.name
  attached : ∀ text, s ≠ attached f.name text
  letter : ∀ c, f.arg.short? = some c → ∀ cs, s.toList ≠ '-' :: c :: cs

theorem foreign_of_not_dash (h : s.toList.head? ≠ some '-') : f.Foreign s where
  dashes := by
    rintro rfl
    exact h rfl
  alone := by
    rintro rfl
    exact h (by simp)
  attached text := by
    rintro rfl
    exact h (by simp [Catalog.attached])
  letter c _ cs hs := h (by rw [hs, List.head?_cons])

/-- The words of a line after its command, with the frame and the pairs that they stand for. -/
inductive Line (f : PairFlag) : Frame → List (String × String) → List String → Prop where
  | nil : Line f .nil [] []
  | text {frame : Frame} {pairs : List (String × String)} {args : List String} {s : String}
    (hs : f.Foreign s) (h : Line f frame pairs args) : Line f (.text s frame) pairs (s :: args)
  | flag {frame : Frame} {pairs : List (String × String)} {args words : List String} {text : String}
    {p : String × String} (hcut : Text.splitFirst? '=' text = some p) (hw : f.Writes text words)
    (h : Line f frame pairs args) : Line f (.blank frame) (p :: pairs) (words ++ args)
  | dashes (texts : List String) : Line f (.dashes texts) [] ("--" :: texts)

theorem read_arg (hcut : Text.splitFirst? '=' text = some p) :
    f.arg.read text = .ok (f.setting p) := by
  cases f <;> simp only [arg, setting, Arg.read, Arg.readPair, hcut] <;> rfl

theorem arg_setting : (f.setting p).arg = f.arg := by
  cases f <;> rfl

theorem pair?_setting : f.pair? (f.setting p) = some p := by
  cases f <;> rfl

theorem pair?_of_arg_ne {s : Setting} (h : s.arg ≠ f.arg) : f.pair? s = none := by
  cases f <;> cases s <;> first | rfl | exact absurd rfl h

theorem repeats_arg : f.arg.repeats = true := by
  cases f <;> rfl

/-- A pair is added whatever has been taken before. -/
theorem add_arg (hcut : Text.splitFirst? '=' text = some p) (t : Taken) :
    t.add f.arg text = .ok { t with settings := t.settings ++ [f.setting p] } := by
  simp only [Taken.add, repeats_arg, read_arg hcut, Bool.not_true, Bool.false_and,
    Bool.false_eq_true, ↓reduceIte]

theorem isFlag_arg : f.arg.isFlag = false := by
  cases f <;> rfl

theorem env?_arg : f.arg.env? = none := by
  cases f <;> rfl

theorem long?_arg : f.arg.long? = some f.name := by
  cases f <;> rfl

theorem long?_name : (Level.inner f.command).long? f.name = some f.arg := by
  cases f <;> rfl

theorem short?_letter {c : Char} (hc : f.arg.short? = some c) :
    (Level.inner f.command).short? c = some f.arg := by
  cases f <;> cases hc
  rfl

theorem letter_ne {c : Char} (hc : f.arg.short? = some c) : c ≠ '-' := by
  cases f <;> cases hc
  decide

theorem not_mem_positions {i : Nat} (h : (Level.inner f.command).positions[i]? = some b) :
    b ≠ f.arg := by
  have hmem := List.mem_of_getElem? h
  cases f with
  | property =>
    cases List.mem_singleton.mp hmem
    decide
  | set => cases hmem

theorem ne_arg_of_long? (h : (Level.inner f.command).long? s = some b) (hs : s ≠ f.name) :
    b ≠ f.arg := by
  rintro rfl
  have hfound := List.find?_some h
  have hname : f.arg.long? = some s := of_decide_eq_true hfound
  rw [long?_arg] at hname
  exact hs (Option.some.inj hname).symm

theorem short?_of_level {letter : Char} (h : (Level.inner f.command).short? letter = some b) :
    b.short? = some letter := by
  have hfound := List.find?_some h
  exact of_decide_eq_true hfound

theorem name_free : '=' ∉ f.name.toList := by
  cases f <;> decide

theorem addNamed_name {t : Taken} {body : String} {attached : Option String} :
    t.addNamed (.inner f.command) body f.name attached = t.addOption f.arg attached := by
  simp only [Taken.addNamed, long?_name, isFlag_arg, Bool.not_false, ↓reduceIte]

theorem takeWord_attached {t : Taken} :
    Taken.takeWord (.inner f.command) t (attached f.name text) = t.addOption f.arg (some text) := by
  have hchars : (attached f.name text).toList =
      '-' :: '-' :: (f.name.toList ++ '=' :: text.toList) := by
    simp [attached]
  rw [Taken.takeWord_long hchars, Taken.addLong_of_cut (Text.splitFirst?_append name_free _),
    String.ofList_toList, String.ofList_toList, addNamed_name]

theorem takeWord_alone {t : Taken} :
    Taken.takeWord (.inner f.command) t ("--" ++ f.name) = t.addOption f.arg none := by
  have hchars : ("--" ++ f.name).toList = '-' :: '-' :: f.name.toList := by simp
  rw [Taken.takeWord_long hchars, String.ofList_toList,
    Taken.addLong_of_uncut (Text.splitFirst?_of_not_mem name_free), addNamed_name]

theorem takeWord_letter {t : Taken} {c : Char} (hc : f.arg.short? = some c) {rest : List Char} :
    Taken.takeWord (.inner f.command) t (String.ofList ('-' :: c :: rest)) =
      match rest with
      | [] => t.addOption f.arg none
      | '=' :: value => t.addOption f.arg (some (String.ofList value))
      | value => t.addOption f.arg (some (String.ofList value)) := by
  have hflag : ¬f.arg.isFlag = true := by
    rw [isFlag_arg]
    exact Bool.false_ne_true
  rw [Taken.takeWord_short String.toList_ofList (letter_ne hc), Taken.addShort, short?_letter hc]
  exact if_neg hflag

/-- A pending pair is one of the given pairs already, and nothing is pending in its place. -/
inductive PendingAs (f : PairFlag) (given : List (String × String)) :
    Option (Arg × Option String) → Option (Arg × Option String) → List (String × String) → Prop where
  | foreign {w : Option (Arg × Option String)} (h : ∀ b x, w = some (b, x) → b ≠ f.arg) :
    PendingAs f given w w given
  | pair {text : String} {p : String × String} (hcut : Text.splitFirst? '=' text = some p) :
    PendingAs f given (some (f.arg, some text)) none (given ++ [p])

/-- `u` is what is left of `t` without the pairs that it has been given. -/
structure Bares (f : PairFlag) (t u : Taken) (ps : List (String × String)) : Prop where
  settings : u.settings = t.settings.filter (·.arg ≠ f.arg)
  position : u.position = t.position
  pending : f.PendingAs (t.settings.filterMap f.pair?) t.pending u.pending ps

theorem bares_empty : f.Bares {} {} [] where
  settings := rfl
  position := rfl
  pending := .foreign fun _ _ h => nomatch h

namespace Bares
variable {t u : Taken} (h : f.Bares t u ps)
include h

theorem has_eq (hb : b ≠ f.arg) : u.has b = t.has b := by
  rw [Taken.has, Taken.has, h.settings, List.any_filter]
  apply List.any_congr rfl
  intro s
  by_cases hs : s.arg = b <;> simp [hs, hb]

/-- A setting of another argument is taken for both. -/
theorem push {s : Setting} (hs : s.arg ≠ f.arg) :
    f.Bares { t with settings := t.settings ++ [s] } { u with settings := u.settings ++ [s] } ps where
  settings := by simp [h.settings, hs]
  position := h.position
  pending := by simpa [pair?_of_arg_ne hs] using h.pending

theorem add (hb : b ≠ f.arg) (value : String) :
    BothEnd (fun t' u' => f.Bares t' u' ps ∧ t'.pending = t.pending) (t.add b value)
      (u.add b value) := by
  unfold Taken.add
  rw [h.has_eq hb]
  split
  · exact .error _
  · split
    · next s hs => exact .ok ⟨h.push (Arg.arg_of_read hs ▸ hb), rfl⟩
    · exact .error _

/-- Where nothing is pending, all pairs are settings. -/
theorem pairs_eq (ht : t.pending = none) : u.pending = none ∧ ps = t.settings.filterMap f.pair? := by
  have hp := h.pending
  rw [ht] at hp
  generalize hw : u.pending = w at hp
  cases hp with
  | foreign => exact ⟨rfl, rfl⟩

/-- An argument of another name is left pending in both, perhaps at the next position. -/
theorem pend (hps : ps = t.settings.filterMap f.pair?) (hb : b ≠ f.arg) (x : Option String)
    (n : Nat) :
    f.Bares { t with pending := some (b, x), position := t.position + n }
      { u with pending := some (b, x), position := u.position + n } ps where
  settings := h.settings
  position := by rw [h.position]
  pending := by
    rw [hps]
    refine .foreign fun b' x' hw => ?_
    cases hw
    exact hb

/-- A pair that has been read is given, and leaves nothing. -/
theorem give (ht : t.pending = none) (p : String × String) :
    f.Bares { t with settings := t.settings ++ [f.setting p] } u (ps ++ [p]) where
  settings := by simp [h.settings, arg_setting]
  position := h.position
  pending := by
    obtain ⟨hu, rfl⟩ := h.pairs_eq ht
    have hpairs : (t.settings ++ [f.setting p]).filterMap f.pair? =
        t.settings.filterMap f.pair? ++ [p] := by
      simp [pair?_setting]
    rw [← hpairs, ht, hu]
    exact .foreign fun _ _ hw => nomatch hw

/-- A pair that is still pending has been given too. -/
theorem await (ht : t.pending = none) (hcut : Text.splitFirst? '=' text = some p) :
    f.Bares { t with pending := some (f.arg, some text) } u (ps ++ [p]) where
  settings := h.settings
  position := h.position
  pending := by
    obtain ⟨hu, rfl⟩ := h.pairs_eq ht
    rw [hu]
    exact .pair hcut

/-- A pending pair is read without fail. -/
theorem settle :
    BothEnd (fun t u => f.Bares t u ps ∧ t.pending = none) t.settle u.settle := by
  obtain ⟨hsettings, hposition, hpending⟩ := h
  rcases t with ⟨ts, tp, tn⟩
  rcases u with ⟨us, up, un⟩
  cases hsettings
  cases hposition
  have hbare : f.Bares ⟨ts, none, tn⟩ ⟨ts.filter (·.arg ≠ f.arg), none, tn⟩
      (ts.filterMap f.pair?) := ⟨rfl, rfl, .foreign fun _ _ hw => nomatch hw⟩
  simp only at hpending
  cases hpending with
  | @pair text p hcut =>
    -- Only here there is something to read on one side and nothing on the other.
    have hread : Taken.settle ⟨ts, some (f.arg, some text), tn⟩ =
        .ok ⟨ts ++ [f.setting p], none, tn⟩ := add_arg hcut ⟨ts, none, tn⟩
    rw [hread]
    exact .ok ⟨hbare.give rfl p, rfl⟩
  | foreign hw =>
    rcases tp with _ | ⟨b, _ | value⟩
    · exact .ok ⟨hbare, rfl⟩
    · exact .error _
    · exact hbare.add (hw b _ rfl) value

theorem addFlag (hb : b ≠ f.arg) : BothEnd (f.Bares · · ps) (t.addFlag b) (u.addFlag b) := by
  refine h.settle.bind fun t u ⟨h, _⟩ => ?_
  have hextended : Setting.extended.arg ≠ f.arg := by
    cases f <;> decide
  have hflag : BothEnd (f.Bares · · ps)
      (if t.has b then .error (Stop.usage (.repeated b.label))
        else .ok { t with settings := t.settings ++ [.extended] })
      (if u.has b then .error (Stop.usage (.repeated b.label))
        else .ok { u with settings := u.settings ++ [.extended] }) := by
    rw [h.has_eq hb]
    split
    · exact .error _
    · exact .ok (h.push hextended)
  cases b <;> first | exact .error _ | exact hflag

theorem addOption (hb : b ≠ f.arg) (attached : Option String) :
    BothEnd (f.Bares · · ps) (t.addOption b attached) (u.addOption b attached) := by
  refine h.settle.bind fun t u ⟨h, ht⟩ => ?_
  cases attached with
  | none => exact .ok (h.pend (h.pairs_eq ht).2 hb none 0)
  | some value => exact (h.add hb value).imp fun _ _ h => h.1

theorem addNamed {name : String} (hname : name ≠ f.name) (body : String)
    (attached : Option String) :
    BothEnd (f.Bares · · ps) (t.addNamed (.inner f.command) body name attached)
      (u.addNamed (.inner f.command) body name attached) := by
  unfold Taken.addNamed
  cases ha : (Level.inner f.command).long? name with
  | none => exact .error _
  | some a =>
    have hne : a ≠ f.arg := ne_arg_of_long? ha hname
    simp only
    split
    · exact h.addOption hne attached
    · split
      · exact .error _
      · exact h.addFlag hne

theorem addLong {body : List Char} (hs : f.Foreign s) (hbody : s.toList = '-' :: '-' :: body) :
    BothEnd (f.Bares · · ps) (t.addLong (.inner f.command) (String.ofList body))
      (u.addLong (.inner f.command) (String.ofList body)) := by
  cases hcut : Text.splitFirst? '=' (String.ofList body) with
  | none =>
    rw [Taken.addLong_of_uncut hcut, Taken.addLong_of_uncut hcut]
    refine h.addNamed (fun hname => hs.alone ?_) _ none
    rw [← hname, ← String.toList_inj]
    simpa using hbody
  | some p =>
    rw [Taken.addLong_of_cut hcut, Taken.addLong_of_cut hcut]
    refine h.addNamed (fun hname => hs.attached p.2 ?_) _ (some p.2)
    have hparts := (Text.splitFirst?_eq_some.mp hcut).1
    rw [String.toList_ofList] at hparts
    rw [← hname, ← String.toList_inj]
    simp [Catalog.attached, hbody, hparts]

theorem addShort {letter : Char} {rest : List Char} (hs : f.Foreign s)
    (hletter : s.toList = '-' :: letter :: rest) :
    BothEnd (f.Bares · · ps) (t.addShort (.inner f.command) letter rest)
      (u.addShort (.inner f.command) letter rest) := by
  unfold Taken.addShort
  cases ha : (Level.inner f.command).short? letter with
  | none => exact .error _
  | some a =>
    have hne : a ≠ f.arg := by
      rintro rfl
      exact hs.letter letter (short?_of_level ha) rest hletter
    simp only
    split
    · exact h.addFlag hne
    · split <;> exact h.addOption hne _

theorem addPosition (text : String) :
    BothEnd (f.Bares · · ps) (t.addPosition (.inner f.command) text)
      (u.addPosition (.inner f.command) text) := by
  unfold Taken.addPosition
  rw [h.position]
  cases ha : (Level.inner f.command).positions[t.position]? with
  | none => exact .error _
  | some a =>
    exact h.settle.bind fun t u ⟨h, ht⟩ =>
      .ok (h.pend (h.pairs_eq ht).2 (not_mem_positions ha) (some text) 1)

theorem takeWord (hs : f.Foreign s) :
    BothEnd (f.Bares · · ps) (Taken.takeWord (.inner f.command) t s)
      (Taken.takeWord (.inner f.command) u s) := by
  by_cases hdash : ∃ letter value, s.toList = '-' :: letter :: value
  · obtain ⟨letter, value, hchars⟩ := hdash
    by_cases hletter : letter = '-'
    · subst hletter
      rw [Taken.takeWord_long hchars, Taken.takeWord_long hchars]
      exact h.addLong hs hchars
    · rw [Taken.takeWord_short hchars hletter, Taken.takeWord_short hchars hletter]
      exact h.addShort hs hchars
  · have hplain : ∀ letter value, s.toList ≠ '-' :: letter :: value := fun letter value hchars =>
      hdash ⟨letter, value, hchars⟩
    rw [Taken.takeWord_plain hplain, Taken.takeWord_plain hplain]
    have hposition := h.addPosition s
    have hpending := h.pending
    generalize ht : t.pending = w at hpending
    generalize hu : u.pending = w' at hpending
    cases hpending with
    | pair => exact hposition
    | foreign hw =>
      rcases w with _ | ⟨b, _ | value⟩
      · exact hposition
      · exact .ok (h.pend rfl (hw b none rfl) (some s) 0)
      · exact hposition

/-- What follows two dashes stands at positions. -/
theorem take_escaped (texts : List String) :
    BothEnd (fun r r' => f.Bares r.1 r'.1 ps) (Taken.take (.inner f.command) true t texts)
      (Taken.take (.inner f.command) true u texts) := by
  induction texts generalizing t u with
  | nil => exact .ok h
  | cons text texts ih =>
    rw [Taken.take, Taken.take]
    exact (h.addPosition text).bind fun t u h => ih h

/-- A pair flag, however it is written, settles what is pending and gives its pair. -/
theorem foldlM_takeWord (hcut : Text.splitFirst? '=' text = some p) (hw : f.Writes text words) :
    BothEnd (f.Bares · · (ps ++ [p])) (words.foldlM (Taken.takeWord (.inner f.command)) t)
      u.settle := by
  -- A text in the same word is read at once; one in a word of its own is left pending.
  have hgive : BothEnd (f.Bares · · (ps ++ [p])) (t.addOption f.arg (some text)) u.settle := by
    refine h.settle.bind_left fun t u ⟨h, ht⟩ => ?_
    simp only [add_arg hcut]
    exact .ok (h.give ht p)
  have hawait (hdash : text.toList.head? ≠ some '-') : BothEnd (f.Bares · · (ps ++ [p]))
      (t.addOption f.arg none >>= fun t => Taken.takeWord (.inner f.command) t text) u.settle := by
    rw [Taken.addOption, bind_assoc]
    refine h.settle.bind_left fun t u ⟨h, ht⟩ => ?_
    simp only [pure_bind, Taken.takeWord_value hdash]
    exact .ok (h.await ht hcut)
  cases hw with
  | attached =>
    simp only [List.foldlM_cons, takeWord_attached, List.foldlM_nil, bind_pure]
    exact hgive
  | apart hdash =>
    simp only [List.foldlM_cons, takeWord_alone, List.foldlM_nil, bind_pure]
    exact hawait hdash
  | @letter c hc hequals =>
    -- The text has an equals sign, so it is not empty, and it does not begin with that sign.
    have hgiven : Taken.takeWord (.inner f.command) t (String.ofList ('-' :: c :: text.toList)) =
        t.addOption f.arg (some text) := by
      rw [takeWord_letter hc]
      split
      · next hnone => simp [(Text.splitFirst?_eq_some.mp hcut).1] at hnone
      · next hfirst => simp [hfirst] at hequals
      · rw [String.ofList_toList]
    simp only [List.foldlM_cons, hgiven, List.foldlM_nil, bind_pure]
    exact hgive
  | letterEquals hc =>
    simp only [List.foldlM_cons, takeWord_letter hc, List.foldlM_nil, bind_pure,
      String.ofList_toList]
    exact hgive
  | letterApart hc hdash =>
    simp only [List.foldlM_cons, takeWord_letter hc, List.foldlM_nil, bind_pure]
    exact hawait hdash

end Bares

/-- No word of a flag ends the options. -/
theorem Writes.ne_dashes (hw : f.Writes text words) : ∀ s ∈ words, s ≠ "--" := by
  have hvalue (hdash : text.toList.head? ≠ some '-') : text ≠ "--" := by
    rintro rfl
    exact hdash rfl
  have hchars : "--".toList = ['-', '-'] := rfl
  intro s hs he
  rw [← String.toList_inj, hchars] at he
  cases hw with
  | attached =>
    rw [List.mem_singleton.mp hs] at he
    simp [Catalog.attached] at he
  | apart hdash =>
    rcases List.mem_pair.mp hs with rfl | rfl
    · cases f <;> simp [name] at he
    · exact hvalue hdash (String.toList_inj.mp he)
  | letter hc =>
    rw [List.mem_singleton.mp hs, String.toList_ofList] at he
    exact letter_ne hc (List.cons.inj (List.cons.inj he).2).1
  | letterEquals hc =>
    rw [List.mem_singleton.mp hs, String.toList_ofList] at he
    exact letter_ne hc (List.cons.inj (List.cons.inj he).2).1
  | letterApart hc hdash =>
    rcases List.mem_pair.mp hs with rfl | rfl
    · rw [String.toList_ofList] at he
      exact letter_ne hc (List.cons.inj (List.cons.inj he).2).1
    · exact hvalue hdash (String.toList_inj.mp he)

end PairFlag
end Catalog
