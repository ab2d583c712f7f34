import Catalog.Proofs.CheckVerdict
import Catalog.Proofs.DirectoryLoading

/-! Checks with the schemas of a directory. The last stage of a check reads the text as a request
whatever the contracts are, and a directory does not move the limit on the length of bodies. So the
contracts of a directory, even of one that has none for the kind, add to what a check demands and
replace nothing. -/

namespace Catalog

theorem Registry.config_of_ofDirectory {files : Files} {config : RegistryConfig} {path : String}
    {g : Registry} (h : ofDirectory files config path = .ok g) : g.config = config := by
  cases hl : files.list path with
  | error e => simp [ofDirectory, Loading.directory, hl] at h
  | ok entries =>
    obtain ⟨l, hrun, rfl⟩ := (ofDirectory_eq_ok hl).mp h
    exact Loading.config_of_run hrun

namespace Command
variable {files : Files} {rules : NamingRules} {source : BodySource} {expected : Option Kind}
  {dir : String}

/-- A check with the contracts of a directory gives the requests that a check is to accept and that
keep those contracts. -/
theorem checked_directory_eq_ok {r : Request} :
    checked files rules source expected (some dir) = .ok r ↔
      ∃ text, readBody files source = .ok text ∧ Accepts rules expected text r ∧
        ∃ g, Registry.ofDirectory files {} dir = .ok g ∧ g.validateValue r.kind r.body = .ok () := by
  simp only [checked, contractsOf, bind_eq_ok, mapError_eq_ok, shownKind_eq_ok]
  constructor
  · rintro ⟨text, htext, body, hbody, k, ⟨hk, hexpected⟩, g, hg, _, hvalid, hread⟩
    -- What the last stage reads settles the value and the kind that the first stages found.
    have hparse := (Request.parse_of_ofSource hread).1
    rw [hparse] at hbody
    cases hbody
    rw [r.classify_body] at hk
    cases hk
    obtain ⟨hsize, hvalue⟩ := (Registry.validate_eq_ok hparse).mp hvalid
    rw [Registry.config_of_ofDirectory hg] at hsize
    exact ⟨text, htext, ⟨hread, hexpected, hsize⟩, g, hg, hvalue⟩
  · rintro ⟨text, htext, ⟨hread, hexpected, hsize⟩, g, hg, hvalue⟩
    have hparse := (Request.parse_of_ofSource hread).1
    have hmax : text.utf8ByteSize ≤ g.config.maxBodySize := by
      rw [Registry.config_of_ofDirectory hg]
      exact hsize
    have hvalid : g.validate r.kind text.toUTF8 = .ok () :=
      (Registry.validate_eq_ok hparse).mpr ⟨hmax, hvalue⟩
    exact ⟨text, htext, r.body, hparse, r.kind, ⟨r.classify_body, hexpected⟩, g, hg, (), hvalid,
      hread⟩

end Command

namespace Invocation
variable {i : Invocation} {files : Files}

/-- A run that is to print a request and succeeds has that request. -/
theorem request_of_success {x : Except Failure Request}
    (hx : i.command.requestOf? files i.rules = some x) {standard : OutputFormat}
    (h : (i.run files standard).code.number = 0) : ∃ r, x = .ok r := by
  cases x with
  | ok r => exact ⟨r, rfl⟩
  | error e =>
    rw [(run_of_failure hx standard).1] at h
    exact absurd h e.number_code_ne_zero

end Invocation

namespace Outcome
variable {lookup lookup' : String → Option String} {arguments arguments' : List String}
  {i j : Invocation} {source : BodySource} {expected : Option Kind} {dir : String}

/-- Whatever is in a directory of schemas, what a check with it accepts is accepted and printed in the
same way by the check that asks for the same but for the directory. -/
theorem directory_only_narrows (files : Files) (standard : OutputFormat)
    (hi : Invocation.parse lookup arguments = .ok i)
    (hdir : i.command = .check source expected (some dir))
    (hj : Invocation.parse lookup' arguments' = .ok j)
    (hnone : j.command = .check source expected none)
    (hrules : j.rules = i.rules) (hformat : j.format = i.format)
    (h : (ofArguments lookup files standard arguments).code.number = 0) :
    (ofArguments lookup' files standard arguments').code.number = 0 ∧
      (ofArguments lookup' files standard arguments').output =
        (ofArguments lookup files standard arguments).output := by
  rw [ofArguments_eq_run hi] at h ⊢
  rw [ofArguments_eq_run hj]
  have hrequest : i.command.requestOf? files i.rules =
      some (Command.checked files i.rules source expected (some dir)) :=
    Invocation.requestOf_of_check hdir
  obtain ⟨r, hr⟩ := Invocation.request_of_success hrequest h
  -- Nothing is kept of the directory's contracts: the standard ones hold of whatever is read.
  obtain ⟨text, htext, haccepts, -⟩ := Command.checked_directory_eq_ok.mp hr
  rw [← hrules] at haccepts
  have hprinted := (Invocation.run_of_request (hrequest.trans (congrArg some hr)) standard).2
  obtain ⟨hcode, houtput⟩ := Invocation.run_of_accepts hnone htext haccepts standard
  refine ⟨by rw [hcode]; rfl, ?_⟩
  rw [houtput, hprinted, hformat]

/-- A line that checks the body of a request for a database, with the schemas of a directory or
without. -/
def salesArguments (dir : Option String) : List String :=
  "--format=raw" :: "check" :: ("--json=" ++ sales.body.compact) ::
    (dir.map ("--schema-dir=" ++ ·)).toList

/-- What such a line asks for. -/
def salesInvocation (dir : Option String) : Invocation :=
  ⟨some .raw, .text, .warn, {}, .check (.text sales.body.compact) none dir⟩

/-- A directory whose one schema lets every body pass. -/
def openFiles : Files :=
  .listing [Registry.openFile .createDatabase]

theorem directory_only_narrows_open :
    (ofArguments (fun _ => none) openFiles .json (salesArguments (some "schemas"))).code.number = 0 ∧
    (ofArguments (fun _ => none) openFiles .json (salesArguments none)).code.number = 0 ∧
    (ofArguments (fun _ => none) openFiles .json (salesArguments none)).output =
      (ofArguments (fun _ => none) openFiles .json (salesArguments (some "schemas"))).output := by
  have hdir : Invocation.parse (fun _ => none) (salesArguments (some "schemas")) =
      .ok (salesInvocation (some "schemas")) := rfl
  have hnone : Invocation.parse (fun _ => none) (salesArguments none) =
      .ok (salesInvocation none) := rfl
  have haccepts : Command.Accepts {} none sales.body.compact sales :=
    Command.accepts_body_iff.mpr ⟨rfl, Request.allowed_default sales, .inl rfl, by decide⟩
  -- The registry of the directory has the contract of its one file.
  have hsupplies := Registry.supplies_openFile .createDatabase
  have hloadable : Loadable {} [Registry.openFile .createDatabase] := by
    refine Loadable.iff_of_entries.mpr ⟨fun e he => ?_, ?_⟩
    · cases List.mem_singleton.mp he
      exact Or.inr ⟨_, _, hsupplies⟩
    · exact Nat.le_trans (List.length_filter_le ..) (by decide)
  have hlisted : openFiles.list "schemas" = .ok [Registry.openFile .createDatabase] := rfl
  obtain ⟨g, hg⟩ := (Registry.ofDirectory_succeeds_iff hlisted).mpr hloadable
  have hcontract : g.contracts .createDatabase = some ⟨.anything, []⟩ :=
    ((Registry.holds_of_ofDirectory hlisted (List.pairwise_singleton ..) hg).contracts_eq _ _).mpr
      ⟨_, List.mem_singleton.mpr rfl, hsupplies⟩
  have hvalue : g.validateValue sales.kind sales.body = .ok () := by
    have hkind : sales.kind = .createDatabase := rfl
    rw [hkind, Registry.validateValue, hcontract]
    rfl
  have hchecked : Command.checked openFiles {} (.text sales.body.compact) none (some "schemas") =
      .ok sales := Command.checked_directory_eq_ok.mpr ⟨_, rfl, haccepts, g, hg, hvalue⟩
  have hcommand : (salesInvocation (some "schemas")).command =
      .check (.text sales.body.compact) none (some "schemas") := rfl
  have hrequest := (Invocation.requestOf_of_check hcommand).trans (congrArg some hchecked)
  have hcode : (ofArguments (fun _ => none) openFiles .json
      (salesArguments (some "schemas"))).code.number = 0 := by
    rw [ofArguments_eq_run hdir, (Invocation.run_of_request hrequest .json).1]
    rfl
  exact ⟨hcode, directory_only_narrows openFiles .json hdir rfl hnone rfl rfl rfl hcode⟩

end Outcome
end Catalog
