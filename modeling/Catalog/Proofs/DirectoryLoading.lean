import Catalog.Proofs.SchemaFiles

/-! Loading directories. Whatever stands in front of it, an entry is passed over, or taken in whole,
or makes the directory unusable. So what comes of a directory hangs on the set of its entries, and not
on the order in which they are listed. -/

namespace Catalog

/-- What makes a directory usable: no link has the name of a schema file, and the schema files are
not too many, each named after a kind and with a content that is short enough, a text, and a schema
that can be registered. -/
structure Loadable (config : RegistryConfig) (entries : List DirectoryEntry) : Prop where
  links : ∀ e ∈ entries, ∀ stem, e.name = stem ++ SchemaFile.ending → e.item ≠ .link
  kinds : ∀ e ∈ entries, ∀ stem bytes, e.name = stem ++ SchemaFile.ending → e.item = .file bytes →
    ∃ k : Kind, stem = k.name
  count : (entries.filter (·.isSchemaFile)).length ≤ config.maxSchemasFromDirectory
  content : ∀ e ∈ entries, ∀ (k : Kind) bytes, e.name = k.name ++ SchemaFile.ending →
    e.item = .file bytes → bytes.size ≤ config.maxSchemaFileSize ∧
      ∃ text, Files.decodeText bytes = .ok text ∧
        ∃ alone, (Registry.empty config).register k (.ofText text) = .ok alone

/-- The registry has one contract for each schema file of the directory, that of its content under
the kind that it is named after, and no others. -/
structure Registry.Holds (r : Registry) (config : RegistryConfig) (entries : List DirectoryEntry) :
    Prop where
  config_eq : r.config = config
  contracts_eq : ∀ k c, r.contracts k = some c ↔ ∃ e ∈ entries, e.Supplies config k c
  kinds_perm : r.kinds.Perm (entries.filterMap (·.kind?))

namespace Loading
variable {path : String} {l l' : Loading} {entries : List DirectoryEntry}

/-- The directory with the contract of one more file. -/
def add (path : String) (l : Loading) (e : DirectoryEntry) (k : Kind) (c : Contract) : Loading :=
  ⟨l.registry.put k c, l.loaded ++ [(k, SchemaFile.pathIn path e.name)]⟩

/-- An entry that is taken in is passed over or supplies a contract, while there is room for one. -/
theorem step_eq_ok {e : DirectoryEntry} :
    l.step path e = .ok l' ↔ (e.PassedOver ∧ l' = l) ∨
      ∃ k c, e.Supplies l.registry.config k c ∧
        l.loaded.length < l.registry.config.maxSchemasFromDirectory ∧ l' = l.add path e k c := by
  constructor
  · intro h
    unfold step at h
    split at h
    · next hs =>
      cases h
      refine Or.inl ⟨Or.inl fun stem hname => ?_, rfl⟩
      rw [SchemaFile.stem?_eq_some.mpr hname] at hs
      cases hs
    · cases h
    · next hitem =>
      cases h
      exact Or.inl ⟨Or.inr hitem, rfl⟩
    · next stem bytes hs hitem =>
      split at h
      · cases h
      · next k hk =>
        simp only at h
        split at h
        · cases h
        · next hroom =>
          split at h
          · cases h
          · next text htext =>
            obtain ⟨r, hr, rfl⟩ := map_eq_ok.mp h
            obtain ⟨htext, hsize⟩ := SchemaFile.readLimited_eq_ok.mp htext
            obtain ⟨v, c, hv, hc, rfl⟩ := Registry.register_eq_ok.mp hr
            obtain ⟨alone, halone, hsame⟩ := Registry.register_alone.mpr hr
            refine Or.inr ⟨k, c, ⟨?_, bytes, text, alone, hitem, hsize, htext, halone, hsame⟩,
              Nat.not_lt.mp hroom, rfl⟩
            rw [← Kind.ofName?_eq_some.mp hk]
            exact SchemaFile.stem?_eq_some.mp hs
  · rintro (⟨hover, rfl⟩ | ⟨k, c, hsupplies, hroom, rfl⟩)
    · unfold step
      rcases hover with hname | hitem
      · cases hs : SchemaFile.stem? e.name with
        | none => rfl
        | some stem => exact absurd (SchemaFile.stem?_eq_some.mp hs) (hname stem)
      · rw [hitem]
        cases SchemaFile.stem? e.name <;> rfl
    · obtain ⟨hname, bytes, text, alone, hitem, hsize, htext, halone, hc⟩ := hsupplies
      have hread : SchemaFile.readLimited (SchemaFile.pathIn path e.name)
          l.registry.config.maxSchemaFileSize bytes = .ok text :=
        SchemaFile.readLimited_eq_ok.mpr ⟨htext, hsize⟩
      have hregister := Registry.register_alone.mp ⟨alone, halone, hc⟩
      have hcount : ¬l.registry.config.maxSchemasFromDirectory < l.loaded.length + 1 :=
        Nat.not_lt.mpr hroom
      simp only [step, SchemaFile.stem?_eq_some.mpr hname, hitem, Kind.ofName?_eq_some.mpr rfl,
        hcount, ↓reduceIte, hread, hregister]
      rfl

theorem run_cons_eq_none {e : DirectoryEntry} :
    l.run path (e :: entries) = (l', none) ↔
      ∃ m, l.step path e = .ok m ∧ m.run path entries = (l', none) := by
  rw [run]
  cases l.step path e <;> simp

/-- The directory can be loaded to its end if no entry is at fault and there is room for all files. -/
theorem run_succeeds_iff
    (hl : l.loaded.length ≤ l.registry.config.maxSchemasFromDirectory) :
    (∃ l', l.run path entries = (l', none)) ↔
      (∀ e ∈ entries, e.PassedOver ∨ ∃ k c, e.Supplies l.registry.config k c) ∧
        l.loaded.length + (entries.filter (·.isSchemaFile)).length ≤
          l.registry.config.maxSchemasFromDirectory := by
  -- On the entries, whatever was loaded before them. A file that is loaded moves from the second
  -- summand to the first, so the sum stays.
  induction entries generalizing l with
  | nil => simp [run, hl]
  | cons e entries ih =>
    simp only [run_cons_eq_none, List.forall_mem_cons, List.filter_cons]
    constructor
    · rintro ⟨l', m, hstep, hrun⟩
      rcases step_eq_ok.mp hstep with ⟨hover, rfl⟩ | ⟨k, c, hsupplies, hroom, rfl⟩
      · obtain ⟨hrest, hcount⟩ := (ih hl).mp ⟨l', hrun⟩
        rw [hover.not_isSchemaFile]
        exact ⟨⟨Or.inl hover, hrest⟩, hcount⟩
      · have hadd : (l.add path e k c).loaded.length = l.loaded.length + 1 := by simp [add]
        obtain ⟨hrest, hcount⟩ := (ih (l := l.add path e k c) (hadd ▸ hroom)).mp ⟨l', hrun⟩
        rw [hadd] at hcount
        rw [hsupplies.isSchemaFile]
        refine ⟨⟨Or.inr ⟨k, c, hsupplies⟩, hrest⟩, ?_⟩
        simp only [↓reduceIte, List.length_cons]
        exact Nat.le_trans (by omega) hcount
    · rintro ⟨⟨hover | ⟨k, c, hsupplies⟩, hrest⟩, hcount⟩
      · rw [hover.not_isSchemaFile] at hcount
        obtain ⟨l', hrun⟩ := (ih hl).mpr ⟨hrest, hcount⟩
        exact ⟨l', l, step_eq_ok.mpr (Or.inl ⟨hover, rfl⟩), hrun⟩
      · have hadd : (l.add path e k c).loaded.length = l.loaded.length + 1 := by simp [add]
        rw [hsupplies.isSchemaFile] at hcount
        simp only [↓reduceIte, List.length_cons] at hcount
        have hroom : l.loaded.length < l.registry.config.maxSchemasFromDirectory := by omega
        have hrest' : (l.add path e k c).loaded.length +
            (entries.filter (·.isSchemaFile)).length ≤
              l.registry.config.maxSchemasFromDirectory := by
          rw [hadd]
          omega
        obtain ⟨l', hrun⟩ := (ih (l := l.add path e k c) (hadd ▸ hroom)).mpr ⟨hrest, hrest'⟩
        exact ⟨l', _, step_eq_ok.mpr (Or.inr ⟨k, c, hsupplies, hroom, rfl⟩), hrun⟩

/-- Files do not change how the registry treats bodies and schema files. -/
theorem config_of_run (h : l.run path entries = (l', none)) :
    l'.registry.config = l.registry.config := by
  induction entries generalizing l with
  | nil =>
    cases h
    rfl
  | cons e entries ih =>
    obtain ⟨m, hstep, hrun⟩ := run_cons_eq_none.mp h
    rcases step_eq_ok.mp hstep with ⟨-, rfl⟩ | ⟨k, c, -, -, rfl⟩
    · exact ih hrun
    · exact ih (l := l.add path e k c) hrun

/-- No two entries supply a contract of the same kind. -/
def Unrivalled (config : RegistryConfig) (entries : List DirectoryEntry) : Prop :=
  entries.Pairwise fun a b => ∀ k c c', a.Supplies config k c → ¬b.Supplies config k c'

/-- Of each kind there is in the end the contract that an entry supplies, and without such an entry
that of the start. -/
theorem contracts_of_run (hu : Unrivalled l.registry.config entries)
    (h : l.run path entries = (l', none)) (k : Kind) :
    (∀ e ∈ entries, ∀ c, e.Supplies l.registry.config k c → l'.registry.contracts k = some c) ∧
      ((∀ e ∈ entries, ∀ c, ¬e.Supplies l.registry.config k c) →
        l'.registry.contracts k = l.registry.contracts k) := by
  -- Both parts at once: what an entry supplies stays because the entries behind it leave its kind be.
  induction entries generalizing l with
  | nil =>
    cases h
    exact ⟨fun e he => absurd he List.not_mem_nil, fun _ => rfl⟩
  | cons e entries ih =>
    obtain ⟨hfirst, hrest⟩ := List.pairwise_cons.mp hu
    obtain ⟨m, hstep, hrun⟩ := run_cons_eq_none.mp h
    rcases step_eq_ok.mp hstep with ⟨hover, rfl⟩ | ⟨k₀, c₀, hsupplies, -, rfl⟩
    · obtain ⟨hsome, hstart⟩ := ih hrest hrun
      refine ⟨fun e' he' c hc => ?_, fun hnone => ?_⟩
      · rcases List.mem_cons.mp he' with rfl | he'
        · exact absurd hc hover.not_supplies
        · exact hsome e' he' c hc
      · exact hstart fun e' he' => hnone e' (List.mem_cons_of_mem _ he')
    · obtain ⟨hsome, hstart⟩ := ih (l := l.add path e k₀ c₀) hrest hrun
      have hput : (l.add path e k₀ c₀).registry.contracts k =
          if k = k₀ then some c₀ else l.registry.contracts k := rfl
      refine ⟨fun e' he' c hc => ?_, fun hnone => ?_⟩
      · rcases List.mem_cons.mp he' with rfl | he'
        · -- Nothing behind the entry supplies the kind again.
          have hkind : k = k₀ := Kind.name_injective
            (String.append_left_inj _ |>.mp (hc.1.symm.trans hsupplies.1))
          subst hkind
          rw [hstart fun e' he' c' => hfirst e' he' k c c' hc, hput, if_pos rfl,
            hsupplies.unique hc]
        · exact hsome e' he' c hc
      · have hkind : k ≠ k₀ := by
          rintro rfl
          exact hnone e List.mem_cons_self c₀ hsupplies
        rw [hstart fun e' he' => hnone e' (List.mem_cons_of_mem _ he'), hput, if_neg hkind]

end Loading

namespace Loadable
variable {config : RegistryConfig} {entries order others : List DirectoryEntry}

/-- A directory is usable if no entry is at fault and the files are not too many. -/
theorem iff_of_entries : Loadable config entries ↔
    (∀ e ∈ entries, e.PassedOver ∨ ∃ k c, e.Supplies config k c) ∧
      (entries.filter (·.isSchemaFile)).length ≤ config.maxSchemasFromDirectory := by
  constructor
  · intro h
    refine ⟨fun e he => ?_, h.count⟩
    cases hs : SchemaFile.stem? e.name with
    | none =>
      refine Or.inl (Or.inl fun stem hname => ?_)
      rw [SchemaFile.stem?_eq_some.mpr hname] at hs
      cases hs
    | some stem =>
      have hname := SchemaFile.stem?_eq_some.mp hs
      cases hitem : e.item with
      | other => exact Or.inl (Or.inr hitem)
      | link => exact absurd hitem (h.links e he stem hname)
      | file bytes =>
        obtain ⟨k, rfl⟩ := h.kinds e he stem bytes hname hitem
        obtain ⟨hsize, text, htext, alone, halone⟩ := h.content e he k bytes hname hitem
        obtain ⟨v, c, -, -, rfl⟩ := Registry.register_eq_ok.mp halone
        exact Or.inr ⟨k, c, hname, bytes, text, _, hitem, hsize, htext, halone, if_pos rfl⟩
  · rintro ⟨hentries, hcount⟩
    -- An entry with the name of a schema file that is no other item supplies the contract.
    have hsupplies {e : DirectoryEntry} (he : e ∈ entries) {stem : String}
        (hname : e.name = stem ++ SchemaFile.ending) (hitem : e.item ≠ .other) :
        ∃ k c, e.Supplies config k c :=
      (hentries e he).resolve_left fun hover =>
        hover.elim (fun hnone => hnone stem hname) hitem
    refine ⟨fun e he stem hname hlink => ?_, fun e he stem bytes hname hitem => ?_, hcount,
      fun e he k bytes hname hitem => ?_⟩
    · obtain ⟨k, c, -, bytes, _, _, hitem, -⟩ :=
        hsupplies he hname (by rw [hlink]; exact DirectoryItem.noConfusion)
      cases hlink.symm.trans hitem
    · obtain ⟨k, c, hkind, -⟩ :=
        hsupplies he hname (by rw [hitem]; exact DirectoryItem.noConfusion)
      exact ⟨k, (String.append_left_inj _).mp (hname.symm.trans hkind)⟩
    · obtain ⟨k', c, hkind, bytes', text, alone, hitem', hsize, htext, halone, -⟩ :=
        hsupplies he hname (by rw [hitem]; exact DirectoryItem.noConfusion)
      obtain rfl : k = k' :=
        Kind.name_injective ((String.append_left_inj _).mp (hname.symm.trans hkind))
      cases hitem.symm.trans hitem'
      exact ⟨hsize, text, htext, alone, halone⟩

theorem supplies_of_kind (h : Loadable config entries) {e : DirectoryEntry} (he : e ∈ entries)
    {k : Kind} (hk : e.kind? = some k) : ∃ c, e.Supplies config k c := by
  obtain ⟨hname, bytes, hitem⟩ := DirectoryEntry.kind?_eq_some.mp hk
  obtain ⟨hsize, text, htext, alone, halone⟩ := h.content e he k bytes hname hitem
  obtain ⟨v, c, -, -, rfl⟩ := Registry.register_eq_ok.mp halone
  exact ⟨c, hname, bytes, text, _, hitem, hsize, htext, halone, if_pos rfl⟩

section Order
variable (ho : ∀ e ∈ others, e.PassedOver) (hp : order.Perm (entries ++ others))
include ho hp

theorem iff_of_perm : Loadable config order ↔ Loadable config entries := by
  have hnone : others.filter (·.isSchemaFile) = [] :=
    List.filter_eq_nil_iff.mpr fun e he => by simp [(ho e he).not_isSchemaFile]
  have hcount : (order.filter (·.isSchemaFile)).length =
      (entries.filter (·.isSchemaFile)).length := by
    rw [(hp.filter _).length_eq, List.filter_append, hnone, List.append_nil]
  rw [iff_of_entries, iff_of_entries, hcount]
  apply and_congr_left'
  constructor
  · exact fun h e he => h e (hp.mem_iff.mpr (List.mem_append_left _ he))
  · intro h e he
    rcases List.mem_append.mp (hp.mem_iff.mp he) with he | he
    · exact h e he
    · exact Or.inl (ho e he)

end Order

end Loadable

namespace Registry
variable {config : RegistryConfig} {entries order others : List DirectoryEntry} {r r' : Registry}

/-- The contracts of a directory make up one registry. -/
theorem Holds.unique (h : r.Holds config entries) (h' : r'.Holds config entries) : r = r' := by
  have hcontracts : r.contracts = r'.contracts := by
    funext k
    apply Option.ext
    intro c
    rw [h.contracts_eq, h'.contracts_eq]
  cases r
  cases r'
  cases h.config_eq
  cases h'.config_eq
  cases hcontracts
  rfl

theorem holds_iff_of_perm (ho : ∀ e ∈ others, e.PassedOver)
    (hp : order.Perm (entries ++ others)) : r.Holds config order ↔ r.Holds config entries := by
  have hsupplies (k : Kind) (c : Contract) :
      (∃ e ∈ order, e.Supplies config k c) ↔ ∃ e ∈ entries, e.Supplies config k c := by
    constructor
    · rintro ⟨e, he, hs⟩
      rcases List.mem_append.mp (hp.mem_iff.mp he) with he | he
      · exact ⟨e, he, hs⟩
      · exact absurd hs (ho e he).not_supplies
    · rintro ⟨e, he, hs⟩
      exact ⟨e, hp.mem_iff.mpr (List.mem_append_left _ he), hs⟩
  have hnone : others.filterMap (·.kind?) = [] :=
    List.filterMap_eq_nil_iff.mpr fun e he => by
      cases hk : e.kind? with
      | none => rfl
      | some k => exact absurd hk (ho e he).kind?_ne_some
  have hkinds : (order.filterMap (·.kind?)).Perm (entries.filterMap (·.kind?)) := by
    have hall := hp.filterMap (·.kind?)
    rwa [List.filterMap_append, hnone, List.append_nil] at hall
  constructor
  · rintro ⟨hconfig, hcontracts, hperm⟩
    exact ⟨hconfig, fun k c => (hcontracts k c).trans (hsupplies k c), hperm.trans hkinds⟩
  · rintro ⟨hconfig, hcontracts, hperm⟩
    exact ⟨hconfig, fun k c => (hcontracts k c).trans (hsupplies k c).symm,
      hperm.trans hkinds.symm⟩

theorem ofDirectory_eq_ok {files : Files} {path : String} (hl : files.list path = .ok entries) :
    ofDirectory files config path = .ok r ↔
      ∃ l, Loading.run path ⟨empty config, []⟩ entries = (l, none) ∧ l.registry = r := by
  unfold ofDirectory Loading.directory
  simp only [hl]
  rcases Loading.run path ⟨empty config, []⟩ entries with ⟨l, _ | e⟩ <;> simp

theorem ofDirectory_succeeds_iff {files : Files} {path : String}
    (hl : files.list path = .ok entries) :
    (∃ r, ofDirectory files config path = .ok r) ↔ Loadable config entries := by
  have hrun : (∃ l, Loading.run path ⟨empty config, []⟩ entries = (l, none)) ↔
      (∀ e ∈ entries, e.PassedOver ∨ ∃ k c, e.Supplies config k c) ∧
        0 + (entries.filter (·.isSchemaFile)).length ≤ config.maxSchemasFromDirectory :=
    Loading.run_succeeds_iff (Nat.zero_le _)
  rw [Nat.zero_add] at hrun
  rw [Loadable.iff_of_entries]
  refine Iff.trans ?_ hrun
  simp only [ofDirectory_eq_ok hl]
  constructor
  · rintro ⟨r, l, hrun, rfl⟩
    exact ⟨l, hrun⟩
  · rintro ⟨l, hrun⟩
    exact ⟨l.registry, l, hrun, rfl⟩

theorem holds_of_ofDirectory {files : Files} {path : String} (hl : files.list path = .ok entries)
    (hu : Loading.Unrivalled config entries) (h : ofDirectory files config path = .ok r) :
    r.Holds config entries := by
  have hloadable : Loadable config entries := (ofDirectory_succeeds_iff hl).mp ⟨r, h⟩
  obtain ⟨l, hrun, rfl⟩ := (ofDirectory_eq_ok hl).mp h
  have hconfig : l.registry.config = config := Loading.config_of_run hrun
  have hcontracts (k : Kind) :=
    Loading.contracts_of_run (l := ⟨empty config, []⟩) hu hrun k
  have hiff (k : Kind) (c : Contract) :
      l.registry.contracts k = some c ↔ ∃ e ∈ entries, e.Supplies config k c := by
    constructor
    · intro hc
      by_cases hany : ∃ e ∈ entries, ∃ c', e.Supplies config k c'
      · obtain ⟨e, he, c', hs⟩ := hany
        have hc' := (hcontracts k).1 e he c' hs
        rw [hc, Option.some.injEq] at hc'
        exact ⟨e, he, hc' ▸ hs⟩
      · have hstart := (hcontracts k).2 fun e he c' hs => hany ⟨e, he, c', hs⟩
        rw [hc] at hstart
        cases hstart
    · rintro ⟨e, he, hs⟩
      exact (hcontracts k).1 e he c hs
  refine ⟨hconfig, hiff, ?_⟩
  -- No kind is listed twice on either side, so it is enough that both list the same kinds.
  have hkinds : l.registry.kinds.Nodup := by
    have hall : Kind.all.Nodup := by decide
    exact hall.filter _
  have hfiles : (entries.filterMap (·.kind?)).Nodup := by
    refine List.Pairwise.filterMap _ (R := fun a b => ∀ k, a.kind? = some k → b.kind? ≠ some k)
      ?_ (hu.imp_of_mem ?_)
    · rintro a b hab k hk k' hk' rfl
      exact hab k hk hk'
    · intro a b ha hb hab k hka hkb
      obtain ⟨c, hc⟩ := hloadable.supplies_of_kind ha hka
      obtain ⟨c', hc'⟩ := hloadable.supplies_of_kind hb hkb
      exact hab k c c' hc hc'
  apply (List.perm_ext_iff_of_nodup hkinds hfiles).mpr
  intro k
  rw [mem_kinds, hasSchema, Option.isSome_iff_exists, List.mem_filterMap]
  constructor
  · rintro ⟨c, hc⟩
    obtain ⟨e, he, hs⟩ := (hiff k c).mp hc
    exact ⟨e, he, hs.kind?⟩
  · rintro ⟨e, he, hk⟩
    obtain ⟨c, hc⟩ := hloadable.supplies_of_kind he hk
    exact ⟨c, (hiff k c).mpr ⟨e, he, hc⟩⟩

/-- Loading a directory is all or nothing, and the same for every order in which the entries are
listed: it succeeds exactly for usable directories, and then gives the one registry that holds the
contracts of the schema files. Entries that have another ending, or are neither files nor links, make
no difference wherever they are listed. -/
theorem ofDirectory_any_order (config : RegistryConfig) (path : String)
    {entries : List DirectoryEntry} (hn : (entries.map (·.name)).Nodup) :
    ∃ outcome : Option Registry,
      (outcome.isSome = true ↔ Loadable config entries) ∧
      (∀ r, outcome = some r → r.Holds config entries) ∧
      ∀ (files : Files) (order others : List DirectoryEntry), (∀ e ∈ others, e.PassedOver) →
        order.Perm (entries ++ others) → files.list path = .ok order →
          (ofDirectory files config path).toOption = outcome := by
  have hunrivalled : Loading.Unrivalled config entries :=
    (List.pairwise_map.mp hn).imp fun hne k c c' hs hs' => hne (hs.1.trans hs'.1.symm)
  -- The outcome in one order, from which those in the others do not differ.
  have hlisted : (Files.listing entries).list path = .ok entries := rfl
  have hloadable : (∃ r, ofDirectory (.listing entries) config path = .ok r) ↔
      Loadable config entries := ofDirectory_succeeds_iff hlisted
  have hholds {r : Registry} (h : ofDirectory (.listing entries) config path = .ok r) :
      r.Holds config entries := holds_of_ofDirectory hlisted hunrivalled h
  refine ⟨(ofDirectory (.listing entries) config path).toOption, ?_, fun r hr => ?_, ?_⟩
  · rw [← hloadable, Option.isSome_iff_exists]
    simp only [toOption_eq_some]
  · exact hholds (toOption_eq_some.mp hr)
  · intro files order others ho hp hl
    have horder : Loading.Unrivalled config order := by
      have hothers : Loading.Unrivalled config (entries ++ others) := by
        refine List.pairwise_append.mpr ⟨hunrivalled, ?_, ?_⟩
        · exact List.pairwise_of_forall_mem_list fun a ha b _ k c c' hs =>
            absurd hs (ho a ha).not_supplies
        · exact fun a _ b hb k c c' _ hs => (ho b hb).not_supplies hs
      exact (hp.pairwise_iff fun hab k c c' hb ha => hab k c' c ha hb).mpr hothers
    apply Option.ext
    intro r
    rw [toOption_eq_some, toOption_eq_some]
    have hsame {r : Registry} (h : ofDirectory files config path = .ok r) :
        r.Holds config entries :=
      (holds_iff_of_perm ho hp).mp (holds_of_ofDirectory hl horder h)
    constructor
    · intro h
      obtain ⟨r', hr'⟩ := hloadable.mpr
        ((Loadable.iff_of_perm ho hp).mp ((ofDirectory_succeeds_iff hl).mp ⟨r, h⟩))
      rwa [(hsame h).unique (hholds hr')]
    · intro h
      obtain ⟨r', hr'⟩ := (ofDirectory_succeeds_iff hl).mpr
        ((Loadable.iff_of_perm ho hp).mpr (hloadable.mp ⟨r, h⟩))
      rwa [(hholds h).unique (hsame hr')]

/-- A file with a schema for the kind that lets every body pass. -/
def openFile (k : Kind) : DirectoryEntry :=
  ⟨k.name ++ SchemaFile.ending, .file "true".toUTF8⟩

/-- A link and a directory, neither of which is a schema file. -/
def bystanders : List DirectoryEntry :=
  [⟨"notes.txt", .link⟩, ⟨"rename-table.schema.json", .other⟩]

theorem register_true (g : Registry) (k : Kind) :
    g.register k (.ofText "true") = .ok (g.put k ⟨.anything, []⟩) := by
  have hcontract : contract? g.config (.bool true) = some ⟨.anything, []⟩ := by
    unfold contract?
    cases g.config.strictMode <;> rfl
  exact register_eq_ok.mpr ⟨.bool true, _, rfl, hcontract, rfl⟩

theorem supplies_openFile (k : Kind) : (openFile k).Supplies {} k ⟨.anything, []⟩ :=
  ⟨rfl, _, _, _, rfl, by decide, Files.decodeText_eq_ok.mpr rfl, register_true _ k, if_pos rfl⟩

theorem ofDirectory_any_order_open :
    ∃ r : Registry, r.kinds.Perm [.alterDatabase, .createDatabase] ∧
      ∀ order : List DirectoryEntry,
        order.Perm ([openFile .alterDatabase, openFile .createDatabase] ++ bystanders) →
          (ofDirectory (.listing order) {} "schemas").toOption = some r := by
  have hn : ([openFile .alterDatabase, openFile .createDatabase].map (·.name)).Nodup := by
    decide
  obtain ⟨outcome, hsome, hholds, horder⟩ := ofDirectory_any_order {} "schemas" hn
  have hloadable : Loadable {} [openFile .alterDatabase, openFile .createDatabase] := by
    refine Loadable.iff_of_entries.mpr ⟨fun e he => ?_, ?_⟩
    · simp only [List.mem_cons, List.not_mem_nil, or_false] at he
      rcases he with rfl | rfl
      · exact Or.inr ⟨_, _, supplies_openFile _⟩
      · exact Or.inr ⟨_, _, supplies_openFile _⟩
    · exact Nat.le_trans (List.length_filter_le ..) (by decide)
  obtain ⟨r, rfl⟩ := Option.isSome_iff_exists.mp (hsome.mpr hloadable)
  have hkinds := (hholds r rfl).kinds_perm
  simp only [List.filterMap_cons, List.filterMap_nil, (supplies_openFile _).kind?] at hkinds
  refine ⟨r, hkinds, fun order hp => horder _ order bystanders ?_ hp rfl⟩
  intro e he
  simp only [bystanders, List.mem_cons, List.not_mem_nil, or_false] at he
  rcases he with rfl | rfl
  · left
    intro stem hname
    have hnone : SchemaFile.stem? "notes.txt" = none := by decide
    rw [SchemaFile.stem?_eq_some.mpr hname] at hnone
    cases hnone
  · exact Or.inr rfl

end Registry
end Catalog
