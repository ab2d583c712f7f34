import Catalog.Command.Run
import Catalog.Proofs.Construction

/-! Sessions without their log. What a session ends with does not hang on what has been logged, so a
command that prints a request comes down to the checks that it makes, one after the other. -/

namespace Catalog

namespace Session
variable {α β : Type}

/-- Whatever has been logged before it, the session ends with `x`. -/
def Ends (s : Session α) (x : Except Failure α) : Prop :=
  ∀ log, (s.run.run log).1 = x

theorem ends_pure (a : α) : Ends (pure a) (.ok a) := fun _ => rfl

theorem ends_throw (e : Failure) : Ends (throw e : Session α) (.error e) := fun _ => rfl

theorem ends_log {level : LogLevel} {message : String} {fields : List (String × LogValue)} :
    Ends (log level message fields) (.ok ()) := fun _ => rfl

theorem ends_check {ε : Type} {f : ε → Failure} {x : Except ε α} :
    Ends (check f x) (x.mapError f) := by
  intro log
  cases x <;> rfl

theorem run_bind (s : Session α) (f : α → Session β) (log : List LogEvent) :
    (s >>= f).run.run log = match s.run.run log with
      | (.ok a, log) => (f a).run.run log
      | (.error e, log) => (.error e, log) := by
  simp only [bind, ExceptT.bind, ExceptT.mk, ExceptT.run, StateT.bind, StateT.run]
  rcases s log with ⟨x, log'⟩
  cases x <;> rfl

theorem Ends.bind {s : Session α} {x : Except Failure α} {f : α → Session β}
    {g : α → Except Failure β} (hs : Ends s x) (hf : ∀ a, Ends (f a) (g a)) :
    Ends (s >>= f) (x >>= g) := by
  intro log
  have hx := hs log
  rw [run_bind]
  rcases hrun : s.run.run log with ⟨y, log'⟩
  rw [hrun] at hx
  cases hx
  -- The log that `s` leaves is one that `f` may start from.
  cases y with
  | ok a => exact hf a log'
  | error e => rfl

theorem Ends.after_log {s : Session α} {x : Except Failure α} (h : Ends s x) {level : LogLevel}
    {message : String} {fields : List (String × LogValue)} :
    Ends (log level message fields >>= fun _ => s) x :=
  ends_log.bind fun _ => h

theorem ends_forM {f : α → Session Unit} {l : List α} (h : ∀ a, Ends (f a) (.ok ())) :
    Ends (l.forM f) (.ok ()) := by
  induction l with
  | nil => exact ends_pure ()
  | cons a l ih => exact (h a).bind fun _ => ih

end Session

namespace Command
open Session

/-- The kind that a body shows, unless the caller expects another one. -/
def shownKind (body : Json) (expected : Option Kind) : Except Mismatch Kind :=
  match Kind.classify body, expected with
  | .error m, _ => .error m
  | .ok kind, none => .ok kind
  | .ok kind, some e => if e = kind then .ok kind else .error (.otherKind e kind)

theorem ends_resolveKind (body : Json) (expected : Option Kind) :
    Ends (resolveKind body expected)
      ((shownKind body expected).mapError fun m =>
        .request "unrecognized request body" (.mismatch m)) := by
  -- Either way in which a kind is rejected is one session that logs and then fails.
  have hreject (m : Mismatch) : Ends (do
      log .warn "rejected request body" [("error", .shown (RequestError.mismatch m).message)]
      throw (.request "unrecognized request body" (.mismatch m)) : Session Kind)
      (.error (.request "unrecognized request body" (.mismatch m))) :=
    (ends_throw _).after_log
  unfold resolveKind shownKind
  cases Kind.classify body with
  | error m => exact hreject m
  | ok kind =>
    cases expected with
    | none => exact (ends_pure kind).after_log
    | some e =>
      by_cases he : e = kind
      · simp only [he, ↓reduceIte]
        exact (ends_pure kind).after_log
      · simp only [he, ↓reduceIte]
        exact (hreject _).after_log

/-- The contracts of a directory, or else the built-in ones. -/
def contractsOf (files : Files) : Option String → Except SchemaError Registry
  | none => Registry.builtin {}
  | some path => Registry.ofDirectory files {} path

theorem ends_loadRegistry (files : Files) (schemaDir : Option String) :
    Ends (loadRegistry files schemaDir)
      ((contractsOf files schemaDir).mapError (.schema "failed loading schemas")) := by
  cases schemaDir with
  | none =>
    unfold loadRegistry contractsOf
    cases Registry.builtin {} with
    | error e => exact ends_throw _
    | ok r =>
      have hlogs : Ends (r.kinds.forM (logRegistered r)) (.ok ()) := ends_forM fun k => ends_log
      exact hlogs.bind fun _ => ends_pure r
  | some path =>
    simp only [loadRegistry, contractsOf, Registry.ofDirectory]
    rcases Loading.directory files {} path with ⟨l, e⟩
    cases e with
    | none =>
      exact (ends_forM fun _ => ends_log.after_log).bind fun _ => ends_pure l.registry
    | some e =>
      exact (ends_forM fun _ => ends_log.after_log).bind fun _ =>
        ends_throw (.schema "failed loading schemas" e)

/-- What a check comes to: the body is read, its kind found, its contract looked up and kept, and
last the text is read once more as a request. -/
def checked (files : Files) (rules : NamingRules) (source : BodySource) (expected : Option Kind)
    (schemaDir : Option String) : Except Failure Request := do
  let text ← (readBody files source).mapError (bodyFailure source)
  let body ← (Json.parse (.ofText text)).mapError fun e => .request "invalid request body" (.unread e)
  let kind ← (shownKind body expected).mapError fun m =>
    .request "unrecognized request body" (.mismatch m)
  let registry ← (contractsOf files schemaDir).mapError (.schema "failed loading schemas")
  let () ← (registry.validate kind text.toUTF8).mapError (.schema "schema check failed")
  (Request.ofSource rules (.ofText text)).mapError (.request "invalid request")

theorem ends_checkBody (files : Files) (rules : NamingRules) (source : BodySource)
    (expected : Option Kind) (schemaDir : Option String) :
    Ends (checkBody files rules source expected schemaDir)
      (checked files rules source expected schemaDir) := by
  refine ends_check.bind fun text => ends_check.bind fun body =>
    (ends_resolveKind body expected).bind fun kind =>
    (ends_loadRegistry files schemaDir).bind fun registry => ?_
  cases registry.validate kind text.toUTF8 with
  | error e => exact (ends_throw _).after_log
  | ok u =>
    refine Ends.after_log ?_
    cases Request.ofSource rules (.ofText text) with
    | error e => exact (ends_throw _).after_log
    | ok request => exact (ends_pure request).after_log

/-- The request that a command prints or the reason why it prints none; commands that print something
else than a request have neither. -/
def requestOf? (files : Files) (rules : NamingRules) : Command → Option (Except Failure Request)
  | .createDatabase name properties => some do
    let properties ← collectPairs "property" properties
    let r ← (CreateDatabase.new rules name properties).mapError fun v =>
      .request "invalid create-database request" (.violation v)
    return .create r
  | .alterDatabase removals updates => some do
    let updates ← collectPairs "set" updates
    let r ← (AlterDatabase.new removals updates).mapError fun v =>
      .request "invalid alter-database request" (.violation v)
    return .alter r
  | .renameTable source destination => some do
    let r ← (RenameTable.new source destination).mapError fun v =>
      .request "invalid rename-table request" (.violation v)
    return .rename r
  | .check source expected schemaDir => some (checked files rules source expected schemaDir)
  | .schema _ | .version _ => none

theorem ends_collectPairs {flag : String} {pairs : List (String × String)} :
    Ends (Session.check id (collectPairs flag pairs)) (collectPairs flag pairs) := by
  intro log
  cases collectPairs flag pairs <;> rfl

/-- Printing is what comes after a command has its request. -/
theorem ends_render {s : Session Request} {x : Except Failure Request} (h : Ends s x)
    (format : OutputFormat) :
    Ends (do return (← s).render format) (x.map (·.render format)) := by
  have hmap : x.map (·.render format) = x >>= fun r => .ok (r.render format) := by
    cases x <;> rfl
  rw [hmap]
  exact h.bind fun r => ends_pure (r.render format)

theorem ends_run {files : Files} {rules : NamingRules} {c : Command} {x : Except Failure Request}
    (h : c.requestOf? files rules = some x) (format : OutputFormat) :
    Ends (c.run files rules format) (x.map (·.render format)) := by
  cases c with
  | createDatabase name properties =>
    cases h
    apply ends_render
    exact ends_collectPairs.bind fun properties => ends_check.bind fun r =>
      (ends_pure (Request.create r)).after_log
  | alterDatabase removals updates =>
    cases h
    apply ends_render
    exact ends_collectPairs.bind fun updates => ends_check.bind fun r =>
      (ends_pure (Request.alter r)).after_log
  | renameTable source destination =>
    cases h
    apply ends_render
    exact ends_check.bind fun r => (ends_pure (Request.rename r)).after_log
  | check source expected schemaDir =>
    cases h
    exact ends_render (ends_checkBody files rules source expected schemaDir) format
  | schema kind => cases h
  | version extended => cases h

end Command

/-- No failure has the exit code of a success. -/
theorem Failure.number_code_ne_zero (e : Failure) : e.code.number ≠ 0 := by
  cases e with
  | request context e => simp [code, ExitCode.number]
  | schema context e => cases e <;> simp [code, ExitCode.number]
  | file path e => cases e <;> simp [code, ExitCode.number]
  | repeatedKey flag key => simp [code, ExitCode.number]

namespace Invocation
variable {i : Invocation} {files : Files}

/-- A run that has its request prints it. -/
theorem run_of_request {r : Request} (h : i.command.requestOf? files i.rules = some (.ok r))
    (standard : OutputFormat) : (i.run files standard).code = .success ∧
      (i.run files standard).output = r.render (i.format.getD standard) := by
  have hends := Command.ends_run h (i.format.getD standard) []
  unfold run
  rcases hrun : (i.command.run files i.rules (i.format.getD standard)).run.run [] with ⟨y, log⟩
  rw [hrun] at hends
  subst hends
  exact ⟨rfl, rfl⟩

/-- A run that fails to have its request prints nothing and shows why. -/
theorem run_of_failure {e : Failure} (h : i.command.requestOf? files i.rules = some (.error e))
    (standard : OutputFormat) : (i.run files standard).code = e.code ∧
      (i.run files standard).output = [] := by
  have hends := Command.ends_run h (i.format.getD standard) []
  unfold run
  rcases hrun : (i.command.run files i.rules (i.format.getD standard)).run.run [] with ⟨y, log⟩
  rw [hrun] at hends
  subst hends
  exact ⟨rfl, rfl⟩

end Invocation
end Catalog
