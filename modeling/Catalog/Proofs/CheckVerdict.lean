import Catalog.Proofs.Agreement
import Catalog.Proofs.CommandLines
import Catalog.Proofs.RoundTrip
import Catalog.Proofs.Sessions
import Catalog.Proofs.ValidationEntries

/-! The verdict of a check against the built-in contracts. A text that is read as a request stands for
the body of that request, so it passes every stage that looks at its value only; hence the stages
before the last refuse nothing that the last one accepts, long texts apart. -/

namespace Catalog

theorem Request.parse_of_ofSource {rules : NamingRules} {s : Json.Source} {r : Request}
    (h : ofSource rules s = .ok r) : Json.parse s = .ok r.body ∧ r.Allowed rules := by
  cases ht : Json.parseTree s with
  | error e => simp [ofSource, Json.scan, ht, Except.map] at h
  | ok t =>
    rw [ofSource_eq_ofScanned ht] at h
    -- Nothing is repeated in the text of a request, so it is read as its value is.
    have hvalue : ofValue rules t = .ok r := by
      rw [ofValue, ← Json.ofTree_eq_ofValue (not_repeatsKey_of_ofScanned h)]
      exact h
    obtain ⟨hbody, hallowed⟩ := body_of_ofValue hvalue
    refine ⟨?_, hallowed⟩
    simp only [Json.parse, ht, Except.map, hbody]

/-- No two requests have the same body. -/
theorem Request.body_injective {r r' : Request} (h : r.body = r'.body) : r = r' := by
  have hr : ofValue {} r.body = .ok r :=
    ofValue_of_body (Json.collapse_collapse _) (allowed_default r)
  have hr' : ofValue {} r'.body = .ok r' :=
    ofValue_of_body (Json.collapse_collapse _) (allowed_default r')
  rw [h] at hr
  exact Except.ok.inj (hr.symm.trans hr')

theorem Request.classify_body (r : Request) : Kind.classify r.body = .ok r.kind :=
  r.shaped_body.classify_eq_ok

namespace Registry

/-- The registry of the built-in contracts in the default configuration. -/
def standard : Registry :=
  ⟨{}, fun k => some (Schema.builtinContract k)⟩

theorem builtin_eq_standard : builtin {} = .ok standard :=
  builtin_eq_ok {}

theorem validateValue_standard_body (r : Request) :
    standard.validateValue r.kind r.body = .ok () := by
  have hbody : r.body.collapse = r.body := Json.collapse_collapse r.encode
  have h : standard.validateValue r.kind r.body.collapse = .ok () :=
    validateValue_builtin_eq_ok.mpr (by rw [hbody]; exact r.shaped_body)
  rwa [hbody] at h

/-- The text of a body passes when it is short enough and its value passes. -/
theorem validate_eq_ok {g : Registry} {k : Kind} {text : String} {body : Json}
    (h : Json.parse (.ofText text) = .ok body) :
    g.validate k text.toUTF8 = .ok () ↔
      text.utf8ByteSize ≤ g.config.maxBodySize ∧ g.validateValue k body = .ok () := by
  by_cases hfit : g.Fitting text.toUTF8
  · have hsize : text.utf8ByteSize ≤ g.config.maxBodySize := hfit
    rw [← Json.Source.ofBytes_toUTF8] at h
    rw [validate_of_parse hfit h, and_iff_right hsize]
  · have hsize : ¬text.utf8ByteSize ≤ g.config.maxBodySize := hfit
    rw [validate_of_not_fitting hfit]
    simp [hsize]

theorem validate_standard_eq_ok {k : Kind} {text : String} {body : Json}
    (h : Json.parse (.ofText text) = .ok body) :
    standard.validate k text.toUTF8 = .ok () ↔
      text.utf8ByteSize ≤ 1048576 ∧ standard.validateValue k body = .ok () :=
  validate_eq_ok h

end Registry

namespace Failure
variable {α β : Type}

/-- Whatever failure there is, it has the code. -/
def Coded (c : ExitCode) (x : Except Failure α) : Prop :=
  ∀ e, x = .error e → e.code = c

theorem Coded.bind {c : ExitCode} {x : Except Failure α} {f : α → Except Failure β}
    (hx : Coded c x) (hf : ∀ a, x = .ok a → Coded c (f a)) : Coded c (x >>= f) := by
  intro e he
  rcases bind_eq_error.mp he with hfirst | ⟨a, ha, hsecond⟩
  · exact hx e hfirst
  · exact hf a ha e hsecond

theorem coded_mapError {ε : Type} {c : ExitCode} {f : ε → Failure} {x : Except ε α}
    (h : ∀ d, x = .error d → (f d).code = c) : Coded c (x.mapError f) := by
  intro e he
  cases x with
  | error d =>
    cases he
    exact h d rfl
  | ok a => cases he

/-- A contract that is there refuses bodies only for what they are. -/
theorem code_of_validate {g : Registry} {k : Kind} {c : Contract} (hc : g.contracts k = some c)
    {bytes : ByteArray} {e : SchemaError} (h : g.validate k bytes = .error e) (context : String) :
    (Failure.schema context e).code = .data := by
  simp only [Registry.validate, hc, Registry.checkContract] at h
  split at h
  · cases h
    rfl
  · split at h
    · split at h
      · cases h
      · cases h
        rfl
    · cases h
      rfl

end Failure

namespace Command
variable {files : Files} {rules : NamingRules} {source : BodySource} {expected : Option Kind}
  {text : String}

/-- The text is read as the request under the naming rules, no other kind is expected, and it is not
longer than a body may be. -/
structure Accepts (rules : NamingRules) (expected : Option Kind) (text : String) (r : Request) :
    Prop where
  read : Request.ofSource rules (.ofText text) = .ok r
  kind : expected = none ∨ expected = some r.kind
  size : text.utf8ByteSize ≤ 1048576

/-- The text of the body of a request is accepted as that request or not at all. -/
theorem accepts_body_iff {r r' : Request} :
    Accepts rules expected r.body.compact r' ↔ r' = r ∧ r.Allowed rules ∧
      (expected = none ∨ expected = some r.kind) ∧ r.body.compact.utf8ByteSize ≤ 1048576 := by
  have hbody : Json.parse (.ofText r.body.compact) = .ok r.body :=
    (Request.parse_of_ofSource (Request.ofSource_body (Request.allowed_default r))).1
  constructor
  · rintro ⟨hread, hkind, hsize⟩
    obtain ⟨hbody', hallowed⟩ := Request.parse_of_ofSource hread
    have hsame : r' = r := Request.body_injective (Except.ok.inj (hbody'.symm.trans hbody))
    rw [hsame] at hkind hallowed
    exact ⟨hsame, hallowed, hkind, hsize⟩
  · rintro ⟨rfl, hallowed, hkind, hsize⟩
    exact ⟨Request.ofSource_body hallowed, hkind, hsize⟩

theorem shownKind_eq_ok {body : Json} {k : Kind} :
    shownKind body expected = .ok k ↔
      Kind.classify body = .ok k ∧ (expected = none ∨ expected = some k) := by
  unfold shownKind
  cases Kind.classify body with
  | error m => simp
  | ok l =>
    cases expected with
    | none => simp
    | some e =>
      by_cases he : e = l
      · simp [he]
      · have hne : ¬(l = k ∧ e = k) := fun h => he (h.2.trans h.1.symm)
        simpa [he] using hne

/-- A check with the built-in contracts gives the requests that it is to accept, and no others. -/
theorem checked_builtin_eq_ok (ht : readBody files source = .ok text) {r : Request} :
    checked files rules source expected none = .ok r ↔ Accepts rules expected text r := by
  simp only [checked, contractsOf, ht, Registry.builtin_eq_standard, bind_eq_ok, mapError_eq_ok,
    shownKind_eq_ok, Except.ok.injEq, exists_eq_left']
  constructor
  · rintro ⟨body, hbody, k, ⟨hk, hexpected⟩, _, hvalid, hread⟩
    have hparse := (Request.parse_of_ofSource hread).1
    rw [hparse] at hbody
    cases hbody
    rw [r.classify_body] at hk
    cases hk
    exact ⟨hread, hexpected, ((Registry.validate_standard_eq_ok hparse).mp hvalid).1⟩
  · rintro ⟨hread, hexpected, hsize⟩
    have hparse := (Request.parse_of_ofSource hread).1
    have hvalid : Registry.standard.validate r.kind text.toUTF8 = .ok () :=
      (Registry.validate_standard_eq_ok hparse).mpr
        ⟨hsize, Registry.validateValue_standard_body r⟩
    exact ⟨r.body, hparse, r.kind, ⟨r.classify_body, hexpected⟩, (), hvalid, hread⟩

/-- Whichever stage of such a check refuses a text, the text is to blame. -/
theorem coded_checked_builtin (ht : readBody files source = .ok text) :
    Failure.Coded .data (checked files rules source expected none) := by
  -- The two stages that could fail on another account, the text and the contracts, do not.
  have hcontracts : contractsOf files none = .ok Registry.standard := Registry.builtin_eq_standard
  simp only [checked, ht, hcontracts]
  refine Failure.Coded.bind (fun e he => by cases he) fun t _ => ?_
  refine Failure.Coded.bind (Failure.coded_mapError fun _ _ => rfl) fun body _ => ?_
  refine Failure.Coded.bind (Failure.coded_mapError fun _ _ => rfl) fun k _ => ?_
  refine Failure.Coded.bind (fun e he => by cases he) fun registry hregistry => ?_
  cases hregistry
  refine Failure.Coded.bind (Failure.coded_mapError fun e he => ?_) fun _ _ => ?_
  · exact Failure.code_of_validate rfl he _
  · exact Failure.coded_mapError fun _ _ => rfl

end Command

namespace Invocation
variable {i : Invocation} {files : Files} {source : BodySource} {expected : Option Kind}
  {text : String}

theorem requestOf_of_check {dir : Option String} (hc : i.command = .check source expected dir) :
    i.command.requestOf? files i.rules =
      some (Command.checked files i.rules source expected dir) := by
  rw [hc]
  rfl

theorem run_of_accepts (hc : i.command = .check source expected none)
    (ht : Command.readBody files source = .ok text) {r : Request}
    (hr : Command.Accepts i.rules expected text r) (standard : OutputFormat) :
    (i.run files standard).code = .success ∧
      (i.run files standard).output = r.render (i.format.getD standard) := by
  have hchecked : Command.checked files i.rules source expected none = .ok r :=
    (Command.checked_builtin_eq_ok ht).mpr hr
  exact run_of_request ((requestOf_of_check hc).trans (congrArg some hchecked)) standard

theorem run_of_not_accepts (hc : i.command = .check source expected none)
    (ht : Command.readBody files source = .ok text)
    (hnone : ¬∃ r, Command.Accepts i.rules expected text r) (standard : OutputFormat) :
    (i.run files standard).code = .data ∧ (i.run files standard).output = [] := by
  cases hchecked : Command.checked files i.rules source expected none with
  | ok r => exact absurd ⟨r, (Command.checked_builtin_eq_ok ht).mp hchecked⟩ hnone
  | error e =>
    obtain ⟨hcode, houtput⟩ :=
      run_of_failure ((requestOf_of_check hc).trans (congrArg some hchecked)) standard
    have hdata : e.code = .data := Command.coded_checked_builtin ht e hchecked
    exact ⟨hcode.trans hdata, houtput⟩

end Invocation

namespace Outcome

theorem ofArguments_eq_run {lookup : String → Option String} {files : Files}
    {standard : OutputFormat} {arguments : List String} {i : Invocation}
    (h : Invocation.parse lookup arguments = .ok i) :
    ofArguments lookup files standard arguments = i.run files standard := by
  rw [ofArguments, h]

/-- A check with the built-in contracts succeeds on the texts that are read as a request of the
expected kind and are short enough, and prints that request; on all other texts it fails with the
code of bad data, and prints nothing. -/
theorem check_verdict {lookup : String → Option String} {arguments : List String} {i : Invocation}
    {source : BodySource} {expected : Option Kind} {text : String} (files : Files)
    (standard : OutputFormat) (hp : Invocation.parse lookup arguments = .ok i)
    (hc : i.command = .check source expected none)
    (ht : Command.readBody files source = .ok text) :
    ((ofArguments lookup files standard arguments).code.number = 0 ↔
        ∃ r, Command.Accepts i.rules expected text r) ∧
      (∀ r, Command.Accepts i.rules expected text r →
        (ofArguments lookup files standard arguments).output =
          r.render (i.format.getD standard)) ∧
      ((¬∃ r, Command.Accepts i.rules expected text r) →
        (ofArguments lookup files standard arguments).code.number = 60 ∧
          (ofArguments lookup files standard arguments).output = []) := by
  rw [ofArguments_eq_run hp]
  have hsuccess (r : Request) (hr : Command.Accepts i.rules expected text r) :=
    Invocation.run_of_accepts hc ht hr standard
  have hfailure (hnone : ¬∃ r, Command.Accepts i.rules expected text r) :=
    Invocation.run_of_not_accepts hc ht hnone standard
  refine ⟨⟨fun h0 => ?_, fun ⟨r, hr⟩ => ?_⟩, fun r hr => (hsuccess r hr).2, fun hnone => ⟨?_, ?_⟩⟩
  · by_contra hnone
    rw [(hfailure hnone).1] at h0
    cases h0
  · rw [(hsuccess r hr).1]
    rfl
  · rw [(hfailure hnone).1]
    rfl
  · exact (hfailure hnone).2

/-- A request for a database with a name of five letters and no properties. -/
def sales : Request :=
  .create ⟨"sales", .empty, by decide, rfl⟩

/-- A check of the body of that request, of the kind that it is, under a limit on names. -/
def salesLine (limit : Nat) : List String :=
  checkLine ⟨some limit, []⟩ .raw (some .createDatabase) sales.body.compact

def noFiles : Files :=
  ⟨fun _ => .error .notFound, fun _ => .error .notFound⟩

theorem check_verdict_sales :
    ((ofArguments (fun _ => none) noFiles .json (salesLine 5)).code.number = 0 ∧
      (ofArguments (fun _ => none) noFiles .json (salesLine 5)).output = [sales.body.compact]) ∧
    (ofArguments (fun _ => none) noFiles .json (salesLine 4)).code.number = 60 ∧
      (ofArguments (fun _ => none) noFiles .json (salesLine 4)).output = [] := by
  have hline (limit : Nat) (hlimit : limit < Nat.pow 2 64) :
      Invocation.parse (fun _ => none) (salesLine limit) =
        .ok ⟨some .raw, .text, .warn, ⟨some limit, []⟩,
          .check (.text sales.body.compact) (some .createDatabase) none⟩ :=
    Invocation.parse_checkLine (fun n hn => by cases hn; exact hlimit) silent_none _ _ _
  have haccepts : Command.Accepts ⟨some 5, []⟩ (some .createDatabase) sales.body.compact sales :=
    Command.accepts_body_iff.mpr ⟨rfl, fun c hc => by cases hc; decide, .inr rfl, by decide⟩
  have hnone : ¬∃ r, Command.Accepts ⟨some 4, []⟩ (some .createDatabase) sales.body.compact r := by
    rintro ⟨r, hr⟩
    have hallowed : sales.Allowed ⟨some 4, []⟩ := (Command.accepts_body_iff.mp hr).2.1
    exact absurd (hallowed _ rfl) (by decide)
  have hfive := check_verdict noFiles .json (hline 5 (by decide)) rfl rfl
  have hfour := check_verdict noFiles .json (hline 4 (by decide)) rfl rfl
  exact ⟨⟨hfive.1.mpr ⟨sales, haccepts⟩, hfive.2.1 sales haccepts⟩, hfour.2.2 hnone⟩

end Outcome
end Catalog
