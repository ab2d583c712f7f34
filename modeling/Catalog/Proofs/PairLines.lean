import Catalog.Proofs.CheckVerdict
import Catalog.Proofs.PairWords

/-! Whole lines with flags that give a key and a value. The frame of a line alone decides which error
ends the taking and what is asked for besides the pairs, so lines of one frame are told apart by
nothing but their pairs, and of these the command sees the map. -/

namespace Catalog

/-- Takes what a line has besides its pair flags. Where there was one, only what is pending is read. -/
def Taken.takeFrame (l : Level) :
    Frame → Taken → Except Stop (Taken × Option (Subcommand × List String))
  | .nil, u => .ok (u, none)
  | .text s rest, u => u.takeWord l s >>= takeFrame l rest
  | .blank rest, u => u.settle >>= takeFrame l rest
  | .dashes texts, u => take l true u texts

/-- What is done when all arguments have been taken. -/
def Invocation.complete (lookup : String → Option String) (outer inner : Taken) (c : Subcommand) :
    Except Stop Invocation := do
  let inner ← inner.settle
  let innerEnv ← inner.environment lookup (.inner c)
  let command ← usage (Command.ofSettings (inner.settings ++ innerEnv) c)
  let outer ← outer.settle
  let outerEnv ← outer.environment lookup .outer
  return ofSettings (inner.settings ++ outer.settings ++ innerEnv ++ outerEnv) command

theorem Taken.take_front {l : Level} {escaped : Bool} {t outer : Taken} {front rest : List String}
    {c : Subcommand} (h : take l escaped t front = .ok (outer, some (c, rest)))
    (more : List String) : take l escaped t (front ++ more) = .ok (outer, some (c, rest ++ more)) := by
  induction front generalizing t escaped with
  | nil => cases h
  | cons text front ih =>
    rw [List.cons_append]
    rw [take] at h ⊢
    by_cases he : escaped
    · rw [if_pos he] at h ⊢
      obtain ⟨u, hu, h⟩ := bind_eq_ok.mp h
      exact bind_eq_ok.mpr ⟨u, hu, ih h⟩
    rw [if_neg he] at h ⊢
    split at h
    · next hcommand =>
      rw [if_pos hcommand]
      cases hname : Subcommand.ofName? text with
      | none => simp [hname] at h
      | some c' =>
        rw [hname] at h
        cases h
        rfl
    · next hcommand =>
      rw [if_neg hcommand]
      generalize text.toList = cs at h ⊢
      split at h
      · exact ih h
      · obtain ⟨u, hu, h⟩ := bind_eq_ok.mp h
        exact bind_eq_ok.mpr ⟨u, hu, ih h⟩
      · obtain ⟨u, hu, h⟩ := bind_eq_ok.mp h
        exact bind_eq_ok.mpr ⟨u, hu, ih h⟩
      · -- A word that is a value, or stands at a position.
        split at h
        · exact ih h
        · obtain ⟨u, hu, h⟩ := bind_eq_ok.mp h
          exact bind_eq_ok.mpr ⟨u, hu, ih h⟩

theorem Invocation.parse_front {lookup : String → Option String} {front : List String}
    {outer : Taken} {c : Subcommand} (h : Taken.take .outer false {} front = .ok (outer, some (c, [])))
    (args : List String) :
    parse lookup (front ++ args) =
      Taken.take (.inner c) false {} args >>= fun r => complete lookup outer r.1 c := by
  rw [parse, Taken.take_front h args]
  rfl

namespace PairFlag
variable {f : PairFlag} {frame : Frame} {pairs ps : List (String × String)} {args : List String}
  {t u : Taken}

theorem bothEnd_take (hline : f.Line frame pairs args) (h : f.Bares t u ps) :
    BothEnd (fun r r' => f.Bares r.1 r'.1 (ps ++ pairs)) (Taken.take (.inner f.command) false t args)
      (Taken.takeFrame (.inner f.command) frame u) := by
  induction hline generalizing t u ps with
  | nil =>
    rw [List.append_nil]
    exact .ok h
  | @text frame pairs args s hs _ ih =>
    rw [Taken.take_cons rfl hs.dashes, Taken.takeFrame]
    exact (h.takeWord hs).bind fun t u h => ih h
  | @flag frame pairs args words text p hcut hw _ ih =>
    rw [Taken.take_append rfl hw.ne_dashes, Taken.takeFrame]
    refine (h.foldlM_takeWord hcut hw).bind fun t u h => ?_
    have hrest := ih h
    rwa [List.append_assoc] at hrest
  | dashes texts =>
    have hskip : Taken.take (.inner f.command) false t ("--" :: texts) =
        Taken.take (.inner f.command) true t texts := by
      rw [Taken.take]
      simp [Level.inner]
    rw [hskip, List.append_nil]
    exact h.take_escaped texts

/-- No variable of the environment stands in for the flag. -/
theorem ne_arg_of_env? {lookup : String → Option String} {b : Arg} {value : String}
    (h : b.env?.bind lookup = some value) : b ≠ f.arg := by
  rintro rfl
  rw [env?_arg] at h
  cases h

/-- What the environment adds does not hang on pairs. -/
theorem Bares.environment_eq (h : f.Bares t u ps) (lookup : String → Option String) (l : Level) :
    u.environment lookup l = t.environment lookup l := by
  unfold Taken.environment
  congr 1
  funext acc b
  cases hb : b.env?.bind lookup with
  | none => rfl
  | some value => simp only [h.has_eq (ne_arg_of_env? hb)]

theorem arg_of_environment {lookup : String → Option String} {l : Level} {env : List Setting}
    (h : t.environment lookup l = .ok env) : ∀ s ∈ env, s.arg ≠ f.arg := by
  refine foldlM_keeps (P := fun acc => ∀ s ∈ acc, s.arg ≠ f.arg)
    (fun _ hs => absurd hs List.not_mem_nil) (fun acc b acc' hacc hstep => ?_) h
  split at hstep
  · next value hb =>
    split at hstep
    · cases hstep
      exact hacc
    · split at hstep
      · next s hs =>
        cases hstep
        refine List.forall_mem_append.mpr ⟨hacc, List.forall_mem_singleton.mpr ?_⟩
        rw [Arg.arg_of_read hs]
        exact ne_arg_of_env? hb
      · cases hstep
  · cases hstep
    exact hacc

section Settings
variable {α : Type} {g : Setting → Option α}

/-- What is not read from pairs is read without them too. -/
theorem filterMap_filter (hg : ∀ s, s.arg = f.arg → g s = none) (settings : List Setting) :
    (settings.filter (·.arg ≠ f.arg)).filterMap g = settings.filterMap g := by
  rw [List.filterMap_filter]
  congr 1
  funext s
  by_cases hs : s.arg = f.arg
  · simp [hs, hg s hs]
  · simp [hs]

theorem findSome?_filter (hg : ∀ s, s.arg = f.arg → g s = none) (settings : List Setting) :
    (settings.filter (·.arg ≠ f.arg)).findSome? g = settings.findSome? g := by
  rw [← List.head?_filterMap, filterMap_filter hg, List.head?_filterMap]

/-- Settings without their pairs make the same command but for the pairs. -/
theorem bothEnd_ofSettings (settings : List Setting) :
    BothEnd (fun c d => f.Asks (settings.filterMap f.pair?) c ∧
        c = d.withPairs (settings.filterMap f.pair?))
      (Command.ofSettings settings f.command)
      (Command.ofSettings (settings.filter (·.arg ≠ f.arg)) f.command) := by
  cases f with
  | property =>
    have hname : ∀ s : Setting, s.arg = .property → s.name? = none := by
      intro s hs
      cases s <;> first | rfl | cases hs
    simp only [command, Command.ofSettings, Command.required,
      findSome?_filter (f := .property) hname]
    cases settings.findSome? Setting.name? with
    | none => exact .error _
    | some name => exact .ok ⟨.create name _, rfl⟩
  | set =>
    have hremove : ∀ s : Setting, s.arg = .set → s.remove? = none := by
      intro s hs
      cases s <;> first | rfl | cases hs
    have hremovals := filterMap_filter (f := .set) hremove settings
    simp only [command, Command.ofSettings, hremovals]
    exact .ok ⟨.alter _ _, rfl⟩

/-- Settings without their pairs make the same invocation of the same command. -/
theorem ofSettings_filter (settings more : List Setting) (c : Command) :
    Invocation.ofSettings (settings.filter (·.arg ≠ f.arg) ++ more) c =
      Invocation.ofSettings (settings ++ more) c := by
  have hquiet : ∀ s : Setting, s.arg = f.arg → s.format? = none ∧ s.logFormat? = none ∧
      s.logLevel? = none ∧ s.maxNameLength? = none ∧ s.forbiddenChars? = none := by
    intro s hs
    cases f <;> cases s <;> first | exact ⟨rfl, rfl, rfl, rfl, rfl⟩ | cases hs
  have hfound {α : Type} {g : Setting → Option α} (hg : ∀ s : Setting, s.arg = f.arg → g s = none) :
      (settings.filter (·.arg ≠ f.arg) ++ more).findSome? g = (settings ++ more).findSome? g := by
    rw [List.findSome?_append, List.findSome?_append, findSome?_filter hg]
  rw [Invocation.ofSettings, Invocation.ofSettings, hfound fun s hs => (hquiet s hs).1,
    hfound fun s hs => (hquiet s hs).2.1, hfound fun s hs => (hquiet s hs).2.2.1,
    hfound fun s hs => (hquiet s hs).2.2.2.1, hfound fun s hs => (hquiet s hs).2.2.2.2]

end Settings

/-- Without its pairs, what has been taken is completed to the same invocation but for the pairs. -/
theorem Bares.complete (h : f.Bares t u ps) (lookup : String → Option String) (outer : Taken) :
    BothEnd (fun i j => f.Asks ps i.command ∧ i = { j with command := j.command.withPairs ps })
      (Invocation.complete lookup outer t f.command)
      (Invocation.complete lookup outer u f.command) := by
  refine h.settle.bind fun t u ⟨h, ht⟩ => ?_
  rw [h.environment_eq]
  cases henv : t.environment lookup (.inner f.command) with
  | error e => exact .error e
  | ok env =>
    have hforeign : ∀ s ∈ env, s.arg ≠ f.arg := arg_of_environment henv
    -- No setting from the environment is a pair, so both sides go by the same list but for pairs.
    have hsettings : u.settings ++ env = (t.settings ++ env).filter (·.arg ≠ f.arg) := by
      rw [h.settings, List.filter_append,
        List.filter_eq_self.mpr fun s hs => decide_eq_true (hforeign s hs)]
    have hpairs : (t.settings ++ env).filterMap f.pair? = ps := by
      rw [List.filterMap_append, ← (h.pairs_eq ht).2,
        List.filterMap_eq_nil_iff.mpr fun s hs => pair?_of_arg_ne (hforeign s hs), List.append_nil]
    have hcommand := bothEnd_ofSettings (f := f) (t.settings ++ env)
    rw [← hsettings, hpairs] at hcommand
    refine hcommand.mapError.bind fun c d ⟨hc, hcd⟩ => ?_
    refine (BothEnd.refl outer.settle).bind fun outer _ houter => ?_
    subst houter
    refine (BothEnd.refl _).bind fun outerEnv _ houterEnv => ?_
    subst houterEnv
    refine .ok ⟨hc, ?_⟩
    subst hcd
    simp only [List.append_assoc, h.settings, ofSettings_filter]
    rfl

section Lines
variable (lookup : String → Option String) {front : List String} {outer : Taken}
  (hfront : Taken.take .outer false {} front = .ok (outer, some (f.command, [])))
include hfront

/-- What a line stands for is decided by its frame, but for the pairs. -/
theorem bothEnd_parse (hline : f.Line frame pairs args) :
    BothEnd (fun i j => f.Asks pairs i.command ∧
        i = { j with command := j.command.withPairs pairs })
      (Invocation.parse lookup (front ++ args))
      (Taken.takeFrame (.inner f.command) frame {} >>= fun r =>
        Invocation.complete lookup outer r.1 f.command) := by
  rw [Invocation.parse_front hfront]
  exact (bothEnd_take hline bares_empty).bind fun r r' h => h.complete lookup outer

/-- Two lines of one frame stand for the same but for the pairs. -/
theorem bothEnd_parse_parse {pairs' : List (String × String)} {args' : List String}
    (hline : f.Line frame pairs args) (hline' : f.Line frame pairs' args') :
    BothEnd (fun i i' => f.Asks pairs i.command ∧
        i' = { i with command := i.command.withPairs pairs' })
      (Invocation.parse lookup (front ++ args)) (Invocation.parse lookup (front ++ args')) := by
  refine (bothEnd_parse lookup hfront hline).meet (bothEnd_parse lookup hfront hline') ?_
  rintro i i' j ⟨hc, rfl⟩ ⟨-, rfl⟩
  refine ⟨hc, ?_⟩
  cases j.command <;> rfl

end Lines

end PairFlag

namespace Invocation
variable {f : PairFlag} {i : Invocation} {pairs pairs' : List (String × String)} {key : String}

theorem run_withPairs (hc : f.Asks pairs i.command)
    (h : Command.collectPairs f.name pairs' = Command.collectPairs f.name pairs) (files : Files)
    (standard : OutputFormat) :
    run { i with command := i.command.withPairs pairs' } files standard = i.run files standard := by
  simp only [run, hc.run_withPairs h]

/-- A key that comes up again is all that is shown of an invocation. -/
theorem run_of_firstRepeated (hc : f.Asks pairs i.command)
    (h : FirstRepeated (Entries.keys pairs) key) (files : Files) (standard : OutputFormat) :
    i.run files standard = ⟨.usage, [],
      ["error: " ++ ("--" ++ f.name ++ " given more than once for key " ++ Text.quote key)]⟩ := by
  have hrun := hc.run_of_error (Command.collectPairs_of_firstRepeated h) files i.rules
    (i.format.getD standard)
  simp only [run, hrun]
  rfl

end Invocation

namespace PairFlag

/-- A text with an equals sign is cut at its first one, and the pairs of the flags of a line are
collected when no key comes up twice; the map then has those pairs and no others, in whatever order
they are given. Otherwise the first key that comes up again ends the command, whatever else is wrong
with the request. So a line whose flags have different keys shows the same when its flags change
places, however each is written. -/
theorem pairs_kept (f : PairFlag) :
    (∀ text : String, '=' ∈ text.toList → ∃ p, Text.splitFirst? '=' text = some p ∧
      f.arg.read text = .ok (f.setting p) ∧ text.toList = p.1.toList ++ '=' :: p.2.toList ∧
      '=' ∉ p.1.toList) ∧
    (∀ pairs, ((∃ m, Command.collectPairs f.name pairs = .ok m) ↔ (Entries.keys pairs).Nodup) ∧
      ∀ m, Command.collectPairs f.name pairs = .ok m →
        (∀ k v, m.get? k = some v ↔ (k, v) ∈ pairs) ∧
        ∀ pairs', pairs.Perm pairs' → Command.collectPairs f.name pairs' = .ok m) ∧
    ∀ lookup files standard front outer frame pairs args,
      Taken.take .outer false {} front = .ok (outer, some (f.command, [])) →
      f.Line frame pairs args →
        (∀ i, Invocation.parse lookup (front ++ args) = .ok i → f.Asks pairs i.command ∧
          (¬(Entries.keys pairs).Nodup → ∃ key, FirstRepeated (Entries.keys pairs) key ∧
            (Outcome.ofArguments lookup files standard (front ++ args)).code.number = 64 ∧
            (Outcome.ofArguments lookup files standard (front ++ args)).output = [] ∧
            (Outcome.ofArguments lookup files standard (front ++ args)).errors =
              ["error: " ++
                ("--" ++ f.name ++ " given more than once for key " ++ Text.quote key)])) ∧
        ∀ pairs' args', f.Line frame pairs' args' → pairs.Perm pairs' →
          (Entries.keys pairs).Nodup →
            Outcome.ofArguments lookup files standard (front ++ args') =
              Outcome.ofArguments lookup files standard (front ++ args) := by
  refine ⟨?_, ?_, ?_⟩
  · intro text htext
    obtain ⟨before, after, hcut⟩ := Text.exists_splitFirst? htext
    obtain ⟨hparts, hfree⟩ := Text.splitFirst?_eq_some.mp hcut
    exact ⟨(before, after), hcut, read_arg hcut, hparts, hfree⟩
  · intro pairs
    refine ⟨⟨fun ⟨m, hm⟩ => (Command.collectPairs_eq_ok.mp hm).1, fun hnodup =>
      ⟨_, Command.collectPairs_eq_ok.mpr ⟨hnodup, rfl⟩⟩⟩, fun m hm => ⟨?_, ?_⟩⟩
    · exact Command.get?_of_collectPairs hm
    · exact fun pairs' hperm => Command.collectPairs_of_perm hperm hm
  · intro lookup files standard front outer frame pairs args hfront hline
    constructor
    · intro i hp
      have hasks : f.Asks pairs i.command := by
        have hboth := bothEnd_parse_parse lookup hfront hline hline
        rw [hp] at hboth
        cases hboth with
        | ok h => exact h.1
      refine ⟨hasks, fun hrepeat => ?_⟩
      obtain ⟨key, hkey⟩ := exists_firstRepeated hrepeat
      rw [Outcome.ofArguments_eq_run hp, Invocation.run_of_firstRepeated hasks hkey]
      exact ⟨key, hkey, rfl, rfl, rfl⟩
    · intro pairs' args' hline' hperm hnodup
      have hcollect : Command.collectPairs f.name pairs' = Command.collectPairs f.name pairs := by
        have hm : Command.collectPairs f.name pairs = .ok (.ofEntries pairs) :=
          Command.collectPairs_eq_ok.mpr ⟨hnodup, rfl⟩
        rw [hm, Command.collectPairs_of_perm hperm hm]
      have hboth := bothEnd_parse_parse lookup hfront hline hline'
      unfold Outcome.ofArguments
      generalize Invocation.parse lookup (front ++ args) = x at hboth ⊢
      generalize Invocation.parse lookup (front ++ args') = x' at hboth ⊢
      cases hboth with
      | error e => rfl
      | ok h =>
        obtain ⟨hasks, rfl⟩ := h
        exact Invocation.run_withPairs hasks hcollect files standard

/-- Two properties change places, each written in another way; one that comes up again is refused. -/
theorem pairs_kept_sales :
    Outcome.ofArguments (fun _ => none) noFiles .json
        (["create-database"] ++ ["sales", "-pa=1", "--property=b=2=3"]) =
      Outcome.ofArguments (fun _ => none) noFiles .json
        (["create-database"] ++ ["sales", "--property", "b=2=3", "-p=a=1"]) ∧
    (Outcome.ofArguments (fun _ => none) noFiles .json
      (["create-database"] ++ ["sales", "-pa=1", "-pa=2"])).code.number = 64 := by
  have hfront : Taken.take .outer false {} ["create-database"] =
      .ok ({}, some (.createDatabase, [])) := rfl
  have hname : Foreign .property "sales" := foreign_of_not_dash (by decide)
  have hcut : Text.splitFirst? '=' "a=1" = some ("a", "1") := by decide
  have hcut' : Text.splitFirst? '=' "b=2=3" = some ("b", "2=3") := by decide
  have hagain : Text.splitFirst? '=' "a=2" = some ("a", "2") := by decide
  have hapart : Line .property (.text "sales" (.blank (.blank .nil))) [("b", "2=3"), ("a", "1")]
      ["sales", "--property", "b=2=3", "-p=a=1"] :=
    .text hname (.flag hcut' (.apart (by decide)) (.flag hcut (.letterEquals rfl) .nil))
  have hattached : Line .property (.text "sales" (.blank (.blank .nil))) [("a", "1"), ("b", "2=3")]
      ["sales", "-pa=1", "--property=b=2=3"] :=
    .text hname (.flag hcut (.letter rfl (by decide)) (.flag hcut' .attached .nil))
  have hrepeats : Line .property (.text "sales" (.blank (.blank .nil))) [("a", "1"), ("a", "2")]
      ["sales", "-pa=1", "-pa=2"] :=
    .text hname (.flag hcut (.letter rfl (by decide)) (.flag hagain (.letter rfl (by decide)) .nil))
  constructor
  · exact ((pairs_kept .property).2.2 _ noFiles .json _ _ _ _ _ hfront hapart).2 _ _ hattached
      (.swap _ _ _) (by decide)
  · have hp : Invocation.parse (fun _ => none) (["create-database"] ++ ["sales", "-pa=1", "-pa=2"]) =
        .ok ⟨none, .text, .warn, {}, .createDatabase "sales" [("a", "1"), ("a", "2")]⟩ := rfl
    obtain ⟨-, hrefused⟩ :=
      ((pairs_kept .property).2.2 _ noFiles .json _ _ _ _ _ hfront hrepeats).1 _ hp
    obtain ⟨-, -, hcode, -⟩ := hrefused (by decide)
    exact hcode

end PairFlag
end Catalog
