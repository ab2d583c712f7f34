import Catalog.Command.Invocation
import Catalog.Proofs.Construction
import Catalog.Proofs.CutTexts

/-! Command lines and the invocations that they stand for: what is known of every setting that has
been read, and a line for a check, which is read back with its naming rules, format, kind and text. -/

namespace Catalog

/-- What every step of a fold keeps, the fold keeps. -/
theorem foldlM_keeps {ε α β : Type} {P : β → Prop} {f : β → α → Except ε β} {l : List α} {b b' : β}
    (hb : P b) (hstep : ∀ b a b', P b → f b a = .ok b' → P b') (h : l.foldlM f b = .ok b') :
    P b' := by
  induction l generalizing b with
  | nil =>
    cases h
    exact hb
  | cons a l ih =>
    rw [List.foldlM_cons] at h
    obtain ⟨c, hc, h⟩ := bind_eq_ok.mp h
    exact ih (hstep b a c hb hc) h

namespace Arg

theorem readCountFrom_append (cs ds : List Char) (m : Nat) :
    readCountFrom m (cs ++ ds) = readCountFrom m cs >>= fun n => readCountFrom n ds := by
  induction cs generalizing m with
  | nil => rfl
  | cons c cs ih =>
    simp only [List.cons_append, readCountFrom]
    split
    · rfl
    · split
      · rfl
      · exact ih _

/-- Digits are read as long as the number fits. -/
theorem readCountFrom_digit {m d : Nat} (hd : d < 10) (hm : m * 10 + d < Nat.pow 2 64) :
    readCountFrom m [d.digitChar] = .ok (m * 10 + d) := by
  have hval : d.digitChar.toNat - '0'.toNat = d := by
    rw [Nat.toNat_digitChar_of_lt_ten hd]
    simp
  have hdigits : ∀ d < 10, d.digitChar.isDigit = true := by decide
  have hdigit : d.digitChar.isDigit = true := hdigits d hd
  have hfits : ¬Nat.pow 2 64 ≤ m * 10 + d := Nat.not_le.mpr hm
  simp only [readCountFrom, hval, hdigit, hfits, Bool.not_true, Bool.false_eq_true, ↓reduceIte]

theorem readCountFrom_toDigits {n : Nat} (hn : n < Nat.pow 2 64) :
    readCountFrom 0 (Nat.toDigits 10 n) = .ok n := by
  -- The last digit comes off the end.
  induction n using Nat.strongRecOn with
  | ind n ih =>
    rw [Nat.toDigits_eq_if (by decide)]
    split
    · next hlt =>
      have h := readCountFrom_digit (m := 0) hlt (by omega)
      simpa using h
    · next hge =>
      have hrest := ih (n / 10) (by omega) (by omega)
      have hsum : n / 10 * 10 + n % 10 = n := by omega
      rw [readCountFrom_append, hrest]
      calc
        readCountFrom (n / 10) [(n % 10).digitChar] = .ok (n / 10 * 10 + n % 10) :=
          readCountFrom_digit (by omega) (by omega)
        _ = .ok n := by rw [hsum]

theorem readCount_toString {n : Nat} (hn : n < Nat.pow 2 64) : readCount (toString n) = .ok n := by
  have hdigits : (toString n).toList = Nat.toDigits 10 n := by simp [Nat.toString_eq_repr]
  have hread := readCountFrom_toDigits hn
  unfold readCount
  rw [hdigits]
  split
  · next h => exact absurd h Nat.toDigits_ne_nil
  · next h =>
    rw [h] at hread
    cases hread
  · next h =>
    rw [h] at hread
    cases hread
  · exact hread

theorem readCountFrom_lt {cs : List Char} {m n : Nat} (hm : m < Nat.pow 2 64)
    (h : readCountFrom m cs = .ok n) : n < Nat.pow 2 64 := by
  induction cs generalizing m with
  | nil =>
    cases h
    exact hm
  | cons c cs ih =>
    simp only [readCountFrom] at h
    split at h
    · cases h
    · split at h
      · cases h
      · next hfits => exact ih (Nat.not_le.mp hfits) h

theorem readCount_lt {s : String} {n : Nat} (h : readCount s = .ok n) : n < Nat.pow 2 64 := by
  unfold readCount at h
  split at h
  · cases h
  · cases h
  · exact readCountFrom_lt (by decide) h
  · exact readCountFrom_lt (by decide) h

end Arg

namespace Taken
variable {P : Setting → Prop} {t t' : Taken} {a : Arg} {value : String}

/-- All settings that have been taken have the property. -/
def All (P : Setting → Prop) (t : Taken) : Prop :=
  ∀ s ∈ t.settings, P s

section Reads
-- Whatever text a setting is read from, it has the property; and so have flags, which are not read.
variable (hr : ∀ (a : Arg) (value : String) (s : Setting), a.read value = .ok s → P s)
  (he : P .extended)
include hr

theorem all_add (ht : t.All P) (h : t.add a value = .ok t') : t'.All P := by
  unfold add at h
  split at h
  · cases h
  · split at h
    · next s hs =>
      cases h
      exact List.forall_mem_append.mpr ⟨ht, List.forall_mem_singleton.mpr (hr a value s hs)⟩
    · cases h

theorem all_settle (ht : t.All P) (h : t.settle = .ok t') : t'.All P := by
  unfold settle at h
  split at h
  · cases h
    exact ht
  · cases h
  · exact all_add hr (t := { t with pending := none }) ht h

theorem all_addOption {attached : Option String} (ht : t.All P)
    (h : t.addOption a attached = .ok t') : t'.All P := by
  obtain ⟨u, hu, h⟩ := bind_eq_ok.mp h
  have hall : u.All P := all_settle hr ht hu
  cases attached with
  | none =>
    cases h
    exact hall
  | some value => exact all_add hr hall h

theorem all_addPosition {l : Level} {text : String} (ht : t.All P)
    (h : t.addPosition l text = .ok t') : t'.All P := by
  unfold addPosition at h
  split at h
  · cases h
  · obtain ⟨u, hu, h⟩ := bind_eq_ok.mp h
    have hall : u.All P := all_settle hr ht hu
    cases h
    exact hall

theorem all_environment {lookup : String → Option String} {l : Level} {settings : List Setting}
    (h : t.environment lookup l = .ok settings) : ∀ s ∈ settings, P s := by
  refine foldlM_keeps (P := fun acc => ∀ s ∈ acc, P s) (fun _ hs => absurd hs List.not_mem_nil)
    (fun acc b acc' hacc hstep => ?_) h
  split at hstep
  · split at hstep
    · cases hstep
      exact hacc
    · split at hstep
      · next s hs =>
        cases hstep
        exact List.forall_mem_append.mpr ⟨hacc, List.forall_mem_singleton.mpr (hr b _ s hs)⟩
      · cases hstep
  · cases hstep
    exact hacc

include he

theorem all_addFlag (ht : t.All P) (h : t.addFlag a = .ok t') : t'.All P := by
  obtain ⟨u, hu, h⟩ := bind_eq_ok.mp h
  have hall : u.All P := all_settle hr ht hu
  split at h
  · cases h
  · cases h
  · split at h
    · cases h
    · cases h
      exact List.forall_mem_append.mpr ⟨hall, List.forall_mem_singleton.mpr he⟩

theorem all_addLong {l : Level} {body : String} (ht : t.All P)
    (h : t.addLong l body = .ok t') : t'.All P := by
  simp only [addLong] at h
  split at h
  · cases h
  · split at h
    · exact all_addOption hr ht h
    · split at h
      · cases h
      · exact all_addFlag hr he ht h

theorem all_addShort {l : Level} {letter : Char} {value : List Char} (ht : t.All P)
    (h : t.addShort l letter value = .ok t') : t'.All P := by
  simp only [addShort] at h
  split at h
  · cases h
  · split at h
    · exact all_addFlag hr he ht h
    · split at h <;> exact all_addOption hr ht h

/-- One argument after the other keeps what all settings have. -/
theorem all_take {l : Level} {escaped : Bool} {arguments : List String}
    {rest : Option (Subcommand × List String)} (ht : t.All P)
    (h : take l escaped t arguments = .ok (t', rest)) : t'.All P := by
  induction arguments generalizing t escaped with
  | nil =>
    cases h
    exact ht
  | cons text arguments ih =>
    rw [take] at h
    split at h
    · obtain ⟨u, hu, h⟩ := bind_eq_ok.mp h
      exact ih (all_addPosition hr ht hu) h
    · split at h
      · -- A command ends the level, with what has been taken before it.
        cases h
        exact ht
      · -- Two dashes alone, two dashes, one dash, or a text that is a value or a position.
        split at h
        · exact ih ht h
        · obtain ⟨u, hu, h⟩ := bind_eq_ok.mp h
          exact ih (all_addLong hr he ht hu) h
        · obtain ⟨u, hu, h⟩ := bind_eq_ok.mp h
          exact ih (all_addShort hr he ht hu) h
        · split at h
          · exact ih (t := { t with pending := some (_, some text) }) ht h
          · obtain ⟨u, hu, h⟩ := bind_eq_ok.mp h
            exact ih (all_addPosition hr ht hu) h

/-- All that an invocation is made of has what all settings have. -/
theorem all_parse {lookup : String → Option String} {arguments : List String} {i : Invocation}
    (h : Invocation.parse lookup arguments = .ok i) :
    ∃ settings command, (∀ s ∈ settings, P s) ∧ i = Invocation.ofSettings settings command := by
  -- The level after the command is completed first, and then the one in front of it.
  obtain ⟨⟨outer, next⟩, htaken, h⟩ := bind_eq_ok.mp h
  have hnone : All P {} := fun _ hs => absurd hs List.not_mem_nil
  have houter : outer.All P := all_take hr he hnone htaken
  cases next with
  | none =>
    obtain ⟨_, -, h⟩ := bind_eq_ok.mp h
    obtain ⟨_, -, h⟩ := bind_eq_ok.mp h
    cases h
  | some next =>
    obtain ⟨⟨inner, _⟩, htaken', h⟩ := bind_eq_ok.mp h
    have hinner : inner.All P := all_take hr he hnone htaken'
    obtain ⟨inner', hsettle', h⟩ := bind_eq_ok.mp h
    obtain ⟨innerEnv, henv', h⟩ := bind_eq_ok.mp h
    obtain ⟨command, -, h⟩ := bind_eq_ok.mp h
    obtain ⟨outer', hsettle, h⟩ := bind_eq_ok.mp h
    obtain ⟨outerEnv, henv, h⟩ := bind_eq_ok.mp h
    cases h
    refine ⟨inner'.settings ++ outer'.settings ++ innerEnv ++ outerEnv, command, ?_, rfl⟩
    simp only [List.forall_mem_append]
    exact ⟨⟨⟨all_settle hr hinner hsettle', all_settle hr houter hsettle⟩,
      all_environment hr henv'⟩, all_environment hr henv⟩

end Reads
end Taken

/-- The limit of the rules, if any, is a number that an option can give. -/
def NamingRules.Writable (rules : NamingRules) : Prop :=
  ∀ n, rules.maxLength = some n → n < Nat.pow 2 64

namespace Invocation

theorem maxNameLength_of_read {a : Arg} {value : String} {n : Nat}
    (h : a.read value = .ok (.maxNameLength n)) : n < Nat.pow 2 64 := by
  cases a <;> simp only [Arg.read, map_eq_ok, reduceCtorEq, and_false, exists_false,
    Except.ok.injEq] at h
  split at h
  · next m hm =>
    cases h
    exact Arg.readCount_lt hm
  · cases h

/-- Whatever arguments and environment they come from, the rules of an invocation can be written as
options again. -/
theorem writable_of_parse {lookup : String → Option String} {arguments : List String}
    {i : Invocation} (h : parse lookup arguments = .ok i) : i.rules.Writable := by
  have hread : ∀ (a : Arg) (value : String) (s : Setting), a.read value = .ok s →
      ∀ n, s.maxNameLength? = some n → n < Nat.pow 2 64 := by
    intro a value s hs n hn
    cases s <;> cases hn
    exact maxNameLength_of_read hs
  obtain ⟨settings, command, hall, rfl⟩ := Taken.all_parse hread (fun n hn => by cases hn) h
  intro n hn
  obtain ⟨s, hs, hsn⟩ := List.exists_of_findSome?_eq_some hn
  exact hall s hs n hsn

end Invocation
/-- No command has a name that begins with a dash. -/
theorem Subcommand.ofName?_of_dash {text : String} {cs : List Char} (h : text.toList = '-' :: cs) :
    ofName? text = none := by
  refine List.find?_eq_none.mpr fun c _ hc => ?_
  have hname : c.name = text := of_decide_eq_true hc
  rw [← hname] at h
  cases c <;> simp [name] at h

/-- The environment stands in for no argument. -/
def Silent (lookup : String → Option String) : Prop :=
  ∀ a : Arg, a.env?.bind lookup = none

theorem silent_none : Silent fun _ => none := by
  intro a
  cases a.env? <;> rfl

/-- An option with its value after an equals sign. -/
def attached (name value : String) : String :=
  "--" ++ name ++ "=" ++ value

namespace Taken
variable {l : Level} {t : Taken}

theorem environment_of_silent {lookup : String → Option String} (h : Silent lookup) :
    t.environment lookup l = .ok [] := by
  simp only [environment, h _]
  induction l.options with
  | nil => rfl
  | cons a options ih => exact ih

/-- An option with its value is read at once when nothing is pending. -/
theorem take_attached {a : Arg} {name value : String} {s : Setting} {rest : List String}
    (hl : l.long? name = some a) (hname : '=' ∉ name.toList) (hflag : a.isFlag = false)
    (hpending : t.pending = none) (hnew : t.has a = false) (hread : a.read value = .ok s) :
    take l false t (attached name value :: rest) =
      take l false { t with settings := t.settings ++ [s] } rest := by
  have htext : (attached name value).toList =
      '-' :: '-' :: (name.toList ++ '=' :: value.toList) := by
    simp [attached]
  have hcommand : Subcommand.ofName? (attached name value) = none :=
    Subcommand.ofName?_of_dash htext
  have hsettle : t.settle = .ok t := by rw [settle, hpending]
  have hadd : t.add a value = .ok { t with settings := t.settings ++ [s] } := by
    simp only [add, hnew, hread, Bool.and_false, Bool.false_eq_true, ↓reduceIte]
  have hoption : t.addLong l (String.ofList (name.toList ++ '=' :: value.toList)) =
      .ok { t with settings := t.settings ++ [s] } := by
    simp only [addLong, Text.splitFirst?_append hname, String.ofList_toList, hl, hflag, Bool.not_false,
      ↓reduceIte, addOption, hsettle]
    exact hadd
  rw [take]
  simp only [hcommand, Bool.false_eq_true, ↓reduceIte, Option.isSome_none, Bool.and_false]
  -- What follows the dashes is not empty, so they do not stand alone.
  rcases hbody : name.toList ++ '=' :: value.toList with _ | ⟨c, cs⟩
  · simp at hbody
  · rw [hbody] at htext hoption
    simp only [htext, hoption]
    rfl

end Taken
namespace NamingRules

/-- The options that ask for the rules. -/
def options (rules : NamingRules) : List String :=
  (rules.maxLength.map fun n => attached "max-name-length" (toString n)).toList ++
    [attached "forbidden-chars" (String.ofList rules.forbidden)]

def settings (rules : NamingRules) : List Setting :=
  (rules.maxLength.map .maxNameLength).toList ++ [.forbiddenChars rules.forbidden]

theorem take_options {rules : NamingRules} (hw : rules.Writable) (rest : List String) :
    Taken.take .outer false {} (rules.options ++ rest) =
      Taken.take .outer false { settings := rules.settings } rest := by
  have hchars : (Arg.forbiddenChars).read (String.ofList rules.forbidden) =
      .ok (.forbiddenChars rules.forbidden) := by
    simp only [Arg.read, String.toList_ofList]
  rcases rules with ⟨_ | n, forbidden⟩
  · exact Taken.take_attached (a := .forbiddenChars) (by decide) (by decide) rfl rfl rfl hchars
  · have hcount : (Arg.maxNameLength).read (toString n) = .ok (.maxNameLength n) := by
      simp only [Arg.read, Arg.readCount_toString (hw n rfl)]
    let limited : Taken := { settings := [.maxNameLength n] }
    calc
      _ = Taken.take .outer false limited
          (attached "forbidden-chars" (String.ofList forbidden) :: rest) :=
        Taken.take_attached (a := .maxNameLength) (by decide) (by decide) rfl rfl rfl hcount
      _ = _ := Taken.take_attached (a := .forbiddenChars) (by decide) (by decide) rfl rfl rfl hchars

end NamingRules

/-- What stands after the command in a line that checks a text. -/
def checkOptions (expected : Option Kind) (text : String) : List String :=
  (expected.map fun k => attached "kind" k.name).toList ++ [attached "json" text]

def checkSettings (expected : Option Kind) (text : String) : List Setting :=
  (expected.map .expectedKind).toList ++ [.json text]

/-- A line that checks a text under naming rules. -/
def checkLine (rules : NamingRules) (format : OutputFormat) (expected : Option Kind)
    (text : String) : List String :=
  rules.options ++ attached "format" format.name :: "check" :: checkOptions expected text

theorem take_checkOptions (expected : Option Kind) (text : String) :
    Taken.take (.inner .check) false {} (checkOptions expected text) =
      .ok ({ settings := checkSettings expected text }, none) := by
  have hjson : (Arg.json).read text = .ok (.json text) := rfl
  cases expected with
  | none => exact Taken.take_attached (a := .json) (by decide) (by decide) rfl rfl rfl hjson
  | some k =>
    have hkind : (Arg.expectedKind).read k.name = .ok (.expectedKind k) := by cases k <;> rfl
    let named : Taken := { settings := [.expectedKind k] }
    calc
      _ = Taken.take (.inner .check) false named [attached "json" text] :=
        Taken.take_attached (a := .expectedKind) (by decide) (by decide) rfl rfl rfl hkind
      _ = _ := Taken.take_attached (a := .json) (by decide) (by decide) rfl rfl rfl hjson

theorem take_checkLine {rules : NamingRules} (hw : rules.Writable) (format : OutputFormat)
    (expected : Option Kind) (text : String) :
    Taken.take .outer false {} (checkLine rules format expected text) =
      .ok ({ settings := rules.settings ++ [.format format] },
        some (.check, checkOptions expected text)) := by
  have hformat : (Arg.format).read format.name = .ok (.format format) := by cases format <;> rfl
  have hnew : ({ settings := rules.settings } : Taken).has .format = false := by
    rcases rules with ⟨_ | n, forbidden⟩ <;> rfl
  have hcommand : Subcommand.ofName? "check" = some .check := by decide
  calc
    _ = Taken.take .outer false { settings := rules.settings }
        (attached "format" format.name :: "check" :: checkOptions expected text) :=
      rules.take_options hw _
    _ = Taken.take .outer false { settings := rules.settings ++ [.format format] }
        ("check" :: checkOptions expected text) :=
      Taken.take_attached (a := .format) (by decide) (by decide) rfl rfl hnew hformat
    _ = _ := by simp [Taken.take, hcommand, Taken.awaitsValue, Level.outer]

/-- In a silent environment such a line is read as what it was made of. -/
theorem Invocation.parse_checkLine {lookup : String → Option String} {rules : NamingRules}
    (hw : rules.Writable) (hs : Silent lookup) (format : OutputFormat) (expected : Option Kind)
    (text : String) :
    parse lookup (checkLine rules format expected text) =
      .ok ⟨some format, .text, .warn, rules, .check (.text text) expected none⟩ := by
  let body : Taken := { settings := checkSettings expected text }
  let shown : Taken := { settings := rules.settings ++ [.format format] }
  have hcommand : usage (Command.ofSettings (body.settings ++ []) .check) =
      .ok (.check (.text text) expected none) := by
    cases expected <;> rfl
  have hsettings : ofSettings (body.settings ++ shown.settings ++ [] ++ [])
      (.check (.text text) expected none) =
      ⟨some format, .text, .warn, rules, .check (.text text) expected none⟩ := by
    rcases rules with ⟨_ | n, forbidden⟩ <;> cases expected <;> rfl
  -- The steps of reading, in their order; nothing is pending and the environment adds nothing.
  refine bind_eq_ok.mpr ⟨_, take_checkLine hw format expected text, ?_⟩
  refine bind_eq_ok.mpr ⟨_, take_checkOptions expected text, ?_⟩
  refine bind_eq_ok.mpr ⟨body, rfl, ?_⟩
  refine bind_eq_ok.mpr ⟨[], Taken.environment_of_silent hs, ?_⟩
  refine bind_eq_ok.mpr ⟨_, hcommand, ?_⟩
  refine bind_eq_ok.mpr ⟨shown, rfl, ?_⟩
  exact bind_eq_ok.mpr ⟨[], Taken.environment_of_silent hs, congrArg Except.ok hsettings⟩

end Catalog
