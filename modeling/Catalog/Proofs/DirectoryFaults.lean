import Catalog.Proofs.FileLimits
import Catalog.Proofs.NarrowedChecks

/-! Directories that are not loaded. The first entry at fault ends the load, and its fault is the
error. One fault is not told as one of the directory: a schema file that is no JSON text has the error
of a body that is none, and a check ends as though its body were to blame. -/

namespace Catalog

theorem Json.parse_eq_error_iff {s : Source} :
    (∃ e, parse s = .error e) ↔ ¬∃ t, IsText t s := by
  simp only [← parseTree_eq_ok, parse]
  cases parseTree s <;> simp [Except.map]

theorem map_eq_error {ε α β : Type} {x : Except ε α} {f : α → β} {e : ε} :
    x.map f = .error e ↔ x = .error e := by
  cases x <;> simp [Except.map]

/-- A schema is refused when its text cannot be read, or as no schema. -/
theorem Registry.register_eq_error {g : Registry} {k : Kind} {s : Json.Source} {x : SchemaError}
    (h : g.register k s = .error x) :
    x = .notSchema k ∨ ∃ r, Json.parse s = .error r ∧ x = .unread r := by
  unfold register at h
  split at h
  · next v hv =>
    unfold registerValue at h
    split at h
    · cases h
    · cases h
      exact .inl rfl
  · next r hr =>
    cases h
    exact .inr ⟨r, hr, rfl⟩

/-- The entry is a file that is named after a kind and not too large, and its content is a text, but
no JSON text. -/
def DirectoryEntry.Garbled (config : RegistryConfig) (e : DirectoryEntry) : Prop :=
  ∃ (k : Kind) (bytes : ByteArray) (text : String), e.name = k.name ++ SchemaFile.ending ∧
    e.item = .file bytes ∧ bytes.size ≤ config.maxSchemaFileSize ∧
      Files.decodeText bytes = .ok text ∧ ¬∃ t, Json.IsText t (.ofText text)

namespace Loading
variable {path : String} {l l' : Loading} {entries : List DirectoryEntry} {e : DirectoryEntry}
  {x : SchemaError}

/-- An entry is at fault as a part of the directory, as a schema, or as a text. -/
theorem step_eq_error (h : l.step path e = .error x) :
    (∃ d, x = .load d) ∨ (∃ k, x = .notSchema k) ∨
      (∃ r, x = .unread r) ∧ l.loaded.length < l.registry.config.maxSchemasFromDirectory ∧
        e.Garbled l.registry.config := by
  unfold step at h
  split at h
  · cases h
  · cases h
    exact .inl ⟨_, rfl⟩
  · cases h
  · next stem bytes hs hitem =>
    split at h
    · cases h
      exact .inl ⟨_, rfl⟩
    · next k hk =>
      simp only at h
      split at h
      · cases h
        exact .inl ⟨_, rfl⟩
      · next hroom =>
        split at h
        · cases h
          exact .inl ⟨_, rfl⟩
        · next text htext =>
          obtain ⟨htext, hsize⟩ := SchemaFile.readLimited_eq_ok.mp htext
          have hname : e.name = k.name ++ SchemaFile.ending := by
            rw [← Kind.ofName?_eq_some.mp hk]
            exact SchemaFile.stem?_eq_some.mp hs
          rcases Registry.register_eq_error (map_eq_error.mp h) with rfl | ⟨r, hr, rfl⟩
          · exact .inr (.inl ⟨k, rfl⟩)
          · exact .inr (.inr ⟨⟨r, rfl⟩, Nat.not_lt.mp hroom, k, bytes, text, hname, hitem, hsize,
              htext, Json.parse_eq_error_iff.mp ⟨r, hr⟩⟩)

/-- While there is room for a file, one that is garbled ends the load as a text that cannot be
read. -/
theorem step_of_garbled (he : e.Garbled l.registry.config)
    (hroom : l.loaded.length < l.registry.config.maxSchemasFromDirectory) :
    ∃ r, l.step path e = .error (.unread r) := by
  obtain ⟨k, bytes, text, hname, hitem, hsize, htext, hnone⟩ := he
  obtain ⟨r, hr⟩ := Json.parse_eq_error_iff.mpr hnone
  have hread : SchemaFile.readLimited (SchemaFile.pathIn path e.name)
      l.registry.config.maxSchemaFileSize bytes = .ok text :=
    SchemaFile.readLimited_eq_ok.mpr ⟨htext, hsize⟩
  have hregister : l.registry.register k (.ofText text) = .error (.unread r) := by
    rw [Registry.register, hr]
  refine ⟨r, ?_⟩
  rw [step_of_file hname hitem hroom, hread]
  simp only [Except.mapError]
  rw [bind_eq_error]
  exact .inr ⟨text, rfl, bind_eq_error.mpr (.inl hregister)⟩

/-- The load ends with the error of the first entry at fault. -/
theorem run_eq_error :
    l.run path entries = (l', some x) ↔ ∃ before e after, entries = before ++ e :: after ∧
      l.run path before = (l', none) ∧ l'.step path e = .error x := by
  induction entries generalizing l with
  | nil => simp [run]
  | cons e entries ih =>
    constructor
    · intro h
      rw [run] at h
      cases hstep : l.step path e with
      | error y =>
        rw [hstep] at h
        cases h
        exact ⟨[], e, entries, rfl, rfl, hstep⟩
      | ok m =>
        rw [hstep] at h
        obtain ⟨before, f, after, rfl, hbefore, hf⟩ := ih.mp h
        exact ⟨e :: before, f, after, rfl, run_cons_eq_none.mpr ⟨m, hstep, hbefore⟩, hf⟩
    · rintro ⟨before, f, after, hsplit, hbefore, hf⟩
      cases before with
      | nil =>
        cases hsplit
        cases hbefore
        rw [run, hf]
      | cons d before =>
        cases hsplit
        obtain ⟨m, hstep, hbefore⟩ := run_cons_eq_none.mp hbefore
        rw [run, hstep]
        exact ih.mpr ⟨before, f, after, rfl, hbefore, hf⟩

/-- What has been loaded is a file for each schema file that has been taken in. -/
theorem length_loaded_of_run (h : l.run path entries = (l', none)) :
    l'.loaded.length = l.loaded.length + (entries.filter (·.isSchemaFile)).length := by
  induction entries generalizing l with
  | nil =>
    cases h
    rfl
  | cons e entries ih =>
    obtain ⟨m, hstep, hrun⟩ := run_cons_eq_none.mp h
    rw [ih hrun]
    rcases step_eq_ok.mp hstep with ⟨hover, rfl⟩ | ⟨k, c, hsupplies, -, rfl⟩
    · rw [List.filter_cons, hover.not_isSchemaFile]
      rfl
    · rw [List.filter_cons, hsupplies.isSchemaFile]
      simp [add]
      omega

end Loading

namespace Registry
variable {files : Files} {config : RegistryConfig} {path dir : String}
  {entries : List DirectoryEntry} {x : SchemaError}

/-- The directory at the path is listed, and the first entry at fault is a garbled schema file. -/
def GarbledFirst (files : Files) (config : RegistryConfig) (path : String) : Prop :=
  ∃ before e after, files.list path = .ok (before ++ e :: after) ∧ Loadable config before ∧
    (before.filter (·.isSchemaFile)).length < config.maxSchemasFromDirectory ∧ e.Garbled config

theorem loadable_of_run {l : Loading}
    (h : Loading.run path ⟨empty config, []⟩ entries = (l, none)) :
    Loadable config entries ∧ l.registry.config = config ∧
      l.loaded.length = (entries.filter (·.isSchemaFile)).length := by
  have hlisted : (Files.listing entries).list path = .ok entries := rfl
  have hlength := Loading.length_loaded_of_run h
  rw [List.length_nil, Nat.zero_add] at hlength
  refine ⟨(ofDirectory_succeeds_iff hlisted).mp ⟨l.registry, ?_⟩, Loading.config_of_run h, hlength⟩
  exact (ofDirectory_eq_ok hlisted).mpr ⟨l, h, rfl⟩

theorem run_of_loadable (h : Loadable config entries) (path : String) :
    ∃ l, Loading.run path ⟨empty config, []⟩ entries = (l, none) := by
  have hlisted : (Files.listing entries).list path = .ok entries := rfl
  obtain ⟨g, hg⟩ := (ofDirectory_succeeds_iff hlisted).mpr h
  obtain ⟨l, hrun, -⟩ := (ofDirectory_eq_ok hlisted).mp hg
  exact ⟨l, hrun⟩

/-- A directory is not loaded when it cannot be listed, or when one of its entries is at fault after
those in front of it have been taken in. -/
theorem ofDirectory_eq_error :
    ofDirectory files config path = .error x ↔
      (∃ e, files.list path = .error e ∧ x = .load (.directory path e)) ∨
      ∃ before e after l, files.list path = .ok (before ++ e :: after) ∧
        Loading.run path ⟨empty config, []⟩ before = (l, none) ∧ l.step path e = .error x := by
  cases hl : files.list path with
  | error e => simp [ofDirectory, Loading.directory, hl, eq_comm]
  | ok entries =>
    have hrun : ofDirectory files config path = .error x ↔
        ∃ l, Loading.run path ⟨empty config, []⟩ entries = (l, some x) := by
      unfold ofDirectory Loading.directory
      simp only [hl]
      rcases Loading.run path ⟨empty config, []⟩ entries with ⟨l, _ | e⟩ <;> simp
    rw [hrun]
    constructor
    · rintro ⟨l, h⟩
      obtain ⟨before, e, after, rfl, hbefore, hstep⟩ := Loading.run_eq_error.mp h
      exact .inr ⟨before, e, after, l, rfl, hbefore, hstep⟩
    · rintro (⟨e, he, -⟩ | ⟨before, e, after, l, hsplit, hbefore, hstep⟩)
      · cases he
      · cases hsplit
        exact ⟨l, Loading.run_eq_error.mpr ⟨before, e, after, rfl, hbefore, hstep⟩⟩

/-- Directories are refused as such, for a schema that is none, or because of a garbled file. -/
theorem ofDirectory_error_cases (h : ofDirectory files config path = .error x) :
    (∃ d, x = .load d) ∨ (∃ k, x = .notSchema k) ∨
      (∃ r, x = .unread r) ∧ GarbledFirst files config path := by
  rcases ofDirectory_eq_error.mp h with ⟨e, -, rfl⟩ | ⟨before, e, after, l, hl, hbefore, hstep⟩
  · exact .inl ⟨_, rfl⟩
  · obtain ⟨hloadable, hconfig, hlength⟩ := loadable_of_run hbefore
    refine (Loading.step_eq_error hstep).imp_right (Or.imp_right ?_)
    rintro ⟨hx, hroom, hgarbled⟩
    rw [hconfig] at hroom hgarbled
    rw [hlength] at hroom
    exact ⟨hx, before, e, after, hl, hloadable, hroom, hgarbled⟩

/-- A garbled file is reported with the error of a body that is no JSON text. -/
theorem ofDirectory_of_garbledFirst (h : GarbledFirst files config path) :
    ∃ r, ofDirectory files config path = .error (.unread r) := by
  obtain ⟨before, e, after, hl, hloadable, hroom, hgarbled⟩ := h
  obtain ⟨l, hbefore⟩ := run_of_loadable hloadable path
  obtain ⟨-, hconfig, hlength⟩ := loadable_of_run hbefore
  rw [← hconfig] at hroom hgarbled
  rw [← hlength] at hroom
  obtain ⟨r, hr⟩ := Loading.step_of_garbled hgarbled hroom
  exact ⟨r, ofDirectory_eq_error.mpr (.inr ⟨before, e, after, l, hl, hbefore, hr⟩)⟩

end Registry

namespace Command
variable {files : Files} {rules : NamingRules} {source : BodySource} {expected : Option Kind}
  {dir text : String} {t : Json} {k : Kind} {x : SchemaError}

/-- A check whose body is as it should be ends with the error of the directory. -/
theorem checked_of_unloaded (htext : readBody files source = .ok text)
    (ht : Json.IsText t (.ofText text)) (hk : k.Fits t)
    (hexpected : expected = none ∨ expected = some k)
    (hx : Registry.ofDirectory files {} dir = .error x) :
    checked files rules source expected (some dir) =
      .error (.schema "failed loading schemas" x) := by
  have hbody : Json.parse (.ofText text) = .ok t.collapse := by
    rw [Json.parse, Json.parseTree_eq_ok.mpr ht]
    rfl
  have hshown : shownKind t.collapse expected = .ok k :=
    shownKind_eq_ok.mpr ⟨Kind.classify_collapse_eq_ok.mpr hk, hexpected⟩
  -- The three stages in front of the contracts go through.
  refine bind_eq_error.mpr (.inr ⟨text, mapError_eq_ok.mpr htext, ?_⟩)
  refine bind_eq_error.mpr (.inr ⟨t.collapse, mapError_eq_ok.mpr hbody, ?_⟩)
  refine bind_eq_error.mpr (.inr ⟨k, mapError_eq_ok.mpr hshown, ?_⟩)
  refine bind_eq_error.mpr (.inl ?_)
  simp only [contractsOf, hx]
  rfl

end Command

/-- A check whose body is as it should be prints nothing when the directory is not loaded, and has the
exit code of the error. -/
theorem Invocation.run_of_unloaded {i : Invocation} {files : Files} {source : BodySource}
    {expected : Option Kind} {dir text : String} {t : Json} {k : Kind} {x : SchemaError}
    (hc : i.command = .check source expected (some dir))
    (htext : Command.readBody files source = .ok text) (ht : Json.IsText t (.ofText text))
    (hk : k.Fits t) (hexpected : expected = none ∨ expected = some k)
    (hx : Registry.ofDirectory files {} dir = .error x) (standard : OutputFormat) :
    (i.run files standard).code = (Failure.schema "failed loading schemas" x).code ∧
      (i.run files standard).output = [] := by
  have hchecked : Command.checked files i.rules source expected (some dir) =
      .error (.schema "failed loading schemas" x) :=
    Command.checked_of_unloaded htext ht hk hexpected hx
  exact run_of_failure ((requestOf_of_check hc).trans (congrArg some hchecked)) standard

/-- The body of a request is the text of a value of its kind. -/
theorem Request.exists_isText_body (r : Request) :
    ∃ t, Json.IsText t (.ofText r.body.compact) ∧ r.kind.Fits t := by
  have hparse := (parse_of_ofSource (ofSource_body (allowed_default r))).1
  obtain ⟨t, ht, hbody⟩ := map_eq_ok.mp hparse
  refine ⟨t, Json.parseTree_eq_ok.mp ht, Kind.classify_collapse_eq_ok.mp ?_⟩
  rw [hbody, r.classify_body]

namespace Outcome

/-- A directory is refused as such or for a schema that is none, unless its first entry at fault is a
garbled schema file; then it is refused as a body that is no JSON text. So a check whose body is as it
should be ends with the code of a failure when the directory is not loaded, but with the code of bad
data when that is for a garbled file. -/
theorem broken_directory_blamed (files : Files) :
    (∀ config path x, Registry.ofDirectory files config path = .error x →
      (∃ d, x = .load d) ∨ (∃ k, x = .notSchema k) ∨
        (∃ r, x = .unread r) ∧ Registry.GarbledFirst files config path) ∧
    (∀ config path, Registry.GarbledFirst files config path →
      ∃ r, Registry.ofDirectory files config path = .error (.unread r)) ∧
    ∀ lookup arguments standard (i : Invocation) source expected dir text t (k : Kind),
      Invocation.parse lookup arguments = .ok i → i.command = .check source expected (some dir) →
      Command.readBody files source = .ok text → Json.IsText t (.ofText text) → k.Fits t →
      (expected = none ∨ expected = some k) → (∀ g, Registry.ofDirectory files {} dir ≠ .ok g) →
        (ofArguments lookup files standard arguments).output = [] ∧
        (¬Registry.GarbledFirst files {} dir →
          (ofArguments lookup files standard arguments).code.number = 1) ∧
        (Registry.GarbledFirst files {} dir →
          (ofArguments lookup files standard arguments).code.number = 60) := by
  refine ⟨fun config path x => Registry.ofDirectory_error_cases, fun config path =>
    Registry.ofDirectory_of_garbledFirst, ?_⟩
  intro lookup arguments standard i source expected dir text t k hp hc htext ht hk hexpected hbroken
  obtain ⟨x, hx⟩ : ∃ x, Registry.ofDirectory files {} dir = .error x := by
    cases hd : Registry.ofDirectory files {} dir with
    | ok g => exact absurd hd (hbroken g)
    | error x => exact ⟨x, rfl⟩
  obtain ⟨hcode, houtput⟩ :=
    Invocation.run_of_unloaded hc htext ht hk hexpected hx standard
  rw [ofArguments_eq_run hp, hcode]
  refine ⟨houtput, fun hfirst => ?_, fun hfirst => ?_⟩
  -- The code hangs on the class of the error, and only a garbled file gives that of a body.
  · rcases Registry.ofDirectory_error_cases hx with ⟨d, rfl⟩ | ⟨k', rfl⟩ | ⟨-, hgarbled⟩
    · rfl
    · rfl
    · exact absurd hgarbled hfirst
  · obtain ⟨r, hr⟩ := Registry.ofDirectory_of_garbledFirst hfirst
    cases hx.symm.trans hr
    rfl

/-- A directory with one file, of the kind of requests for new databases. -/
def loneFile (content : String) : Files :=
  .listing [⟨Kind.createDatabase.name ++ SchemaFile.ending, .file content.toUTF8⟩]

theorem garbledFirst_unclosed : Registry.GarbledFirst (loneFile "\x7b") {} "schemas" := by
  have hnone : ¬∃ t, Json.IsText t (.ofText "\x7b") := by
    rw [← Json.parse_eq_error_iff]
    exact ⟨.unfinished, by decide⟩
  refine ⟨[], _, [], rfl, ?_, by decide, .createDatabase, _, "\x7b", rfl, rfl, by decide,
    Files.decodeText_eq_ok.mpr rfl, hnone⟩
  exact Loadable.iff_of_entries.mpr ⟨fun e he => absurd he List.not_mem_nil, by decide⟩

/-- One file is no JSON text and the other no schema. -/
theorem broken_directory_blamed_lone :
    (ofArguments (fun _ => none) (loneFile "\x7b") .json
      (salesArguments (some "schemas"))).code.number = 60 ∧
    (ofArguments (fun _ => none) (loneFile "7") .json
      (salesArguments (some "schemas"))).code.number = 1 := by
  have hp : Invocation.parse (fun _ => none) (salesArguments (some "schemas")) =
      .ok (salesInvocation (some "schemas")) := rfl
  obtain ⟨t, ht, hk⟩ := sales.exists_isText_body
  have hseven : Registry.ofDirectory (loneFile "7") {} "schemas" =
      .error (.notSchema .createDatabase) := rfl
  constructor
  · have hfirst := garbledFirst_unclosed
    have hbroken : ∀ g, Registry.ofDirectory (loneFile "\x7b") {} "schemas" ≠ .ok g := by
      intro g hg
      obtain ⟨r, hr⟩ := Registry.ofDirectory_of_garbledFirst hfirst
      cases hg.symm.trans hr
    exact ((broken_directory_blamed (loneFile "\x7b")).2.2 _ _ .json _ _ _ _ _ _ _ hp rfl rfl ht hk
      (.inl rfl) hbroken).2.2 hfirst
  · have hfirst : ¬Registry.GarbledFirst (loneFile "7") {} "schemas" := by
      intro hfirst
      obtain ⟨r, hr⟩ := (broken_directory_blamed (loneFile "7")).2.1 _ _ hfirst
      cases hseven.symm.trans hr
    have hbroken : ∀ g, Registry.ofDirectory (loneFile "7") {} "schemas" ≠ .ok g := by
      intro g hg
      cases hg.symm.trans hseven
    exact ((broken_directory_blamed (loneFile "7")).2.2 _ _ .json _ _ _ _ _ _ _ hp rfl rfl ht hk
      (.inl rfl) hbroken).2.1 hfirst

/-- For a garbled file a directory is refused neither as such nor for a schema that is none, and the
check of a body that is as it should be ends with the code of bad data. -/
theorem garbled_directory_blamed_on_body :
    (∃ x, Registry.ofDirectory (loneFile "\x7b") {} "schemas" = .error x ∧ (∀ d, x ≠ .load d) ∧
      ∀ k, x ≠ .notSchema k) ∧
    (∃ r, Request.ofSource {} (.ofText sales.body.compact) = .ok r) ∧
    (ofArguments (fun _ => none) (loneFile "\x7b") .json
      (salesArguments (some "schemas"))).code.number ≠ 1 := by
  have hp : Invocation.parse (fun _ => none) (salesArguments (some "schemas")) =
      .ok (salesInvocation (some "schemas")) := rfl
  obtain ⟨r, hr⟩ := Registry.ofDirectory_of_garbledFirst garbledFirst_unclosed
  obtain ⟨t, ht, hk⟩ := sales.exists_isText_body
  have hblame : (∀ d, SchemaError.unread r ≠ .load d) ∧ ∀ k, SchemaError.unread r ≠ .notSchema k := by
    constructor <;> intro _ h <;> cases h
  refine ⟨⟨_, hr, hblame⟩, ⟨sales, Request.ofSource_body (Request.allowed_default sales)⟩, ?_⟩
  rw [ofArguments_eq_run hp, (Invocation.run_of_unloaded rfl rfl ht hk (.inl rfl) hr .json).1]
  have hcode : (Failure.schema "failed loading schemas" (.unread r)).code.number = 60 := rfl
  rw [hcode]
  decide

end Outcome
end Catalog
