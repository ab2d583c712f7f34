import Catalog.Proofs.CheckVerdict

/-! Building a request and checking it. The body that a building command prints is read back under
the rules that it was built under, as the request that was built; so a check shows of it what the
building command shows. -/

namespace Catalog

/-- The kind of the requests that the command builds. -/
def Command.builds? : Command → Option Kind
  | .createDatabase _ _ => some .createDatabase
  | .alterDatabase _ _ => some .alterDatabase
  | .renameTable _ _ => some .renameTable
  | .check _ _ _ | .schema _ | .version _ => none

theorem Command.requestOf_of_builds {c : Command} {k : Kind} (hb : c.builds? = some k)
    (files : Files) (rules : NamingRules) :
    ∃ x, c.requestOf? files rules = some x ∧ ∀ r, x = .ok r → r.kind = k ∧ r.Allowed rules := by
  cases c with
  | createDatabase name properties =>
    cases hb
    refine ⟨_, rfl, fun r hr => ?_⟩
    obtain ⟨properties, -, hr⟩ := bind_eq_ok.mp hr
    obtain ⟨c, hc, hr⟩ := bind_eq_ok.mp hr
    cases hr
    obtain ⟨rfl, -, hallowed⟩ := CreateDatabase.new_eq_ok.mp (mapError_eq_ok.mp hc)
    refine ⟨rfl, fun c' hc' => ?_⟩
    cases hc'
    exact NamingRules.check_eq_ok.mpr hallowed
  | alterDatabase removals updates =>
    cases hb
    refine ⟨_, rfl, fun r hr => ?_⟩
    obtain ⟨updates, -, hr⟩ := bind_eq_ok.mp hr
    obtain ⟨a, -, hr⟩ := bind_eq_ok.mp hr
    cases hr
    exact ⟨rfl, fun c hc => by cases hc⟩
  | renameTable source destination =>
    cases hb
    refine ⟨_, rfl, fun r hr => ?_⟩
    obtain ⟨t, -, hr⟩ := bind_eq_ok.mp hr
    cases hr
    exact ⟨rfl, fun c hc => by cases hc⟩
  | check source expected schemaDir => cases hb
  | schema kind => cases hb
  | version extended => cases hb

namespace Invocation

/-- The same invocation with its output in the format. -/
def printing (i : Invocation) (format : OutputFormat) : Invocation :=
  { i with format := some format }

/-- The invocation checks the text against the built-in contracts under the rules, and prints the
request in the format. -/
structure Checks (j : Invocation) (rules : NamingRules) (format : OutputFormat)
    (expected : Option Kind) (text : String) : Prop where
  rules_eq : j.rules = rules
  format_eq : j.format = some format
  command_eq : j.command = .check (.text text) expected none

/-- A building command that succeeds has built a request of its kind that the rules allow, and
prints it in whatever format is asked for. -/
theorem run_of_builds {i : Invocation} {k : Kind} {files : Files} {standard : OutputFormat}
    (hb : i.command.builds? = some k) (h0 : (i.run files standard).code.number = 0) :
    ∃ r : Request, r.kind = k ∧ r.Allowed i.rules ∧
      ∀ format, ((i.printing format).run files standard).output = r.render format := by
  obtain ⟨x, hx, hbuilt⟩ := Command.requestOf_of_builds hb files i.rules
  cases x with
  | ok r =>
    obtain ⟨hkind, hallowed⟩ := hbuilt r rfl
    refine ⟨r, hkind, hallowed, fun format => ?_⟩
    exact (run_of_request (i := i.printing format) hx standard).2
  | error e =>
    rw [(run_of_failure hx standard).1] at h0
    exact absurd h0 e.number_code_ne_zero

/-- A check of the body of an allowed request prints that request, unless another kind is expected. -/
theorem run_of_checks {j : Invocation} {rules : NamingRules} {r : Request} {format : OutputFormat}
    {expected : Option Kind} (hj : j.Checks rules format expected r.body.compact)
    (ha : r.Allowed rules) (hsize : r.body.compact.utf8ByteSize ≤ 1048576) (files : Files)
    (standard : OutputFormat) :
    ((expected = none ∨ expected = some r.kind) →
      (j.run files standard).code.number = 0 ∧
        (j.run files standard).output = r.render format) ∧
    (¬(expected = none ∨ expected = some r.kind) → (j.run files standard).code.number = 60) := by
  obtain ⟨rfl, hformat, hcommand⟩ := hj
  refine ⟨fun hkind => ?_, fun hkind => ?_⟩
  · have haccepts : Command.Accepts j.rules expected r.body.compact r :=
      Command.accepts_body_iff.mpr ⟨rfl, ha, hkind, hsize⟩
    have hrun : (j.run files standard).code = .success ∧
        (j.run files standard).output = r.render (j.format.getD standard) :=
      run_of_accepts hcommand rfl haccepts standard
    rw [hrun.1, hrun.2, hformat]
    exact ⟨rfl, rfl⟩
  · have hnone : ¬∃ r', Command.Accepts j.rules expected r.body.compact r' := fun ⟨_, hr'⟩ =>
      hkind (Command.accepts_body_iff.mp hr').2.2.1
    rw [(run_of_not_accepts hcommand rfl hnone standard).1]
    rfl

end Invocation

namespace Outcome

/-- The closed loop of building and checking. A building command that succeeds prints one line in
the format `raw`; if that line is not too long, every check of it under the same rules prints, in
each format, what the building command prints in it, and fails only if another kind is expected. The
rules can be given to a check by options again. -/
theorem closed_loop {lookup : String → Option String} {arguments : List String} {i : Invocation}
    {k : Kind} (files : Files) (standard : OutputFormat)
    (hp : Invocation.parse lookup arguments = .ok i) (hb : i.command.builds? = some k)
    (h0 : (ofArguments lookup files standard arguments).code.number = 0) :
    ∃ line, ((i.printing .raw).run files standard).output = [line] ∧
      (line.utf8ByteSize ≤ 1048576 → ∀ (format : OutputFormat) (expected : Option Kind),
        (∀ (lookup' : String → Option String) (files' : Files) (standard' : OutputFormat)
          (checking : List String) (j : Invocation),
          Invocation.parse lookup' checking = .ok j → j.Checks i.rules format expected line →
          ((expected = none ∨ expected = some k) →
            (ofArguments lookup' files' standard' checking).code.number = 0 ∧
              (ofArguments lookup' files' standard' checking).output =
                ((i.printing format).run files standard).output) ∧
          (¬(expected = none ∨ expected = some k) →
            (ofArguments lookup' files' standard' checking).code.number = 60)) ∧
        ∀ lookup' : String → Option String, Silent lookup' →
          ∃ j, Invocation.parse lookup' (checkLine i.rules format expected line) = .ok j ∧
            j.Checks i.rules format expected line) := by
  rw [ofArguments_eq_run hp] at h0
  obtain ⟨r, rfl, hallowed, hprints⟩ := Invocation.run_of_builds hb h0
  refine ⟨r.body.compact, hprints .raw, fun hsize format expected => ⟨?_, ?_⟩⟩
  · intro lookup' files' standard' checking j hp' hj
    rw [hprints format, ofArguments_eq_run hp']
    exact Invocation.run_of_checks hj hallowed hsize files' standard'
  · intro lookup' hsilent
    have hwritable : i.rules.Writable := Invocation.writable_of_parse hp
    exact ⟨_, Invocation.parse_checkLine hwritable hsilent format expected r.body.compact,
      rfl, rfl, rfl⟩

/-- Building a request for a database with one property, under both naming rules. -/
def ownedBuild : Invocation :=
  ⟨none, .text, .warn, ⟨some 5, ['.', '/']⟩, .createDatabase "sales" [("owner", "a")]⟩

def ownedText : String :=
  "\x7b\"name\":\"sales\",\"properties\":\x7b\"owner\":\"a\"\x7d\x7d"

theorem closed_loop_owned :
    ((ownedBuild.printing .raw).run noFiles .json).output = [ownedText] ∧
      (ofArguments (fun _ => none) noFiles .json
        (checkLine ownedBuild.rules .table (some .createDatabase) ownedText)).code.number = 0 ∧
      (ofArguments (fun _ => none) noFiles .json
        (checkLine ownedBuild.rules .table (some .createDatabase) ownedText)).output =
          ((ownedBuild.printing .table).run noFiles .json).output ∧
      (ofArguments (fun _ => none) noFiles .json
        (checkLine ownedBuild.rules .table (some .renameTable) ownedText)).code.number = 60 := by
  have hp : Invocation.parse (fun _ => none) ["--max-name-length=5", "--forbidden-chars=./",
      "create-database", "sales", "-powner=a"] = .ok ownedBuild := rfl
  have hraw : ((ownedBuild.printing .raw).run noFiles .json).output = [ownedText] := rfl
  obtain ⟨line, hline, hloop⟩ := closed_loop noFiles .json hp rfl rfl
  cases hline.symm.trans hraw
  have hchecks (expected : Option Kind) := hloop (by decide) .table expected
  obtain ⟨j, hj, hcreate⟩ := (hchecks (some .createDatabase)).2 _ silent_none
  obtain ⟨j', hj', hrename⟩ := (hchecks (some .renameTable)).2 _ silent_none
  have hsuccess := ((hchecks _).1 _ noFiles .json _ j hj hcreate).1 (.inr rfl)
  have hfailure := ((hchecks _).1 _ noFiles .json _ j' hj' hrename).2 (by decide)
  exact ⟨hraw, hsuccess.1, hsuccess.2, hfailure⟩

end Outcome
end Catalog
