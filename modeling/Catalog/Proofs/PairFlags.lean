import Catalog.Proofs.CommandLines
import Catalog.Proofs.MapRepeats
import Catalog.Proofs.Sessions

/-! Flags that give a key and a value. A text is cut at its first equals sign, and the pairs of all
flags are collected in a map, which no pair is lost from: a key that comes up again ends the command.
So the map does not hang on the order of the flags. -/

namespace Catalog

theorem Text.exists_splitFirst? {c : Char} {s : String} (h : c ∈ s.toList) :
    ∃ before after, splitFirst? c s = some (before, after) := by
  obtain ⟨before, after, hsplit, hfree⟩ := List.eq_append_cons_of_mem h
  have hs : s = String.ofList (before ++ c :: after) := by rw [← hsplit, String.ofList_toList]
  exact ⟨_, _, hs ▸ splitFirst?_append hfree after⟩

namespace Command
variable {flag : String} {pairs pairs' : List (String × String)} {m m' : KeyMap String} {k : String}

/-- One pair after the others. -/
def addPair (flag : String) (m : KeyMap String) (p : String × String) :
    Except Failure (KeyMap String) :=
  if m.contains p.1 then .error (.repeatedKey flag p.1) else .ok (m.insert p.1 p.2)

theorem collectPairs_eq_foldlM : collectPairs flag pairs = pairs.foldlM (addPair flag) .empty := rfl

theorem addPair_of_contains {p : String × String} (h : m.contains p.1 = true) :
    addPair flag m p = .error (.repeatedKey flag p.1) := if_pos h

theorem addPair_eq_ok {p : String × String} :
    addPair flag m p = .ok m' ↔ m.contains p.1 = false ∧ m.insert p.1 p.2 = m' := by
  unfold addPair
  cases m.contains p.1 <;> simp

/-- Pairs are added one after the other when all keys are new and none comes up twice. -/
theorem foldlM_addPair_eq_ok :
    pairs.foldlM (addPair flag) m = .ok m' ↔
      (Entries.keys pairs).Nodup ∧ (∀ k ∈ Entries.keys pairs, m.contains k = false) ∧
        pairs.foldl (fun m p => m.insert p.1 p.2) m = m' := by
  induction pairs generalizing m with
  | nil => simp [Entries.keys, pure_eq_ok]
  | cons p pairs ih =>
    have hkeys : Entries.keys (p :: pairs) = p.1 :: Entries.keys pairs := rfl
    have hrest : (∀ k ∈ Entries.keys pairs, (m.insert p.1 p.2).contains k = false) ↔
        p.1 ∉ Entries.keys pairs ∧ ∀ k ∈ Entries.keys pairs, m.contains k = false := by
      simp only [KeyMap.contains_insert_eq_false]
      constructor
      · intro h
        exact ⟨fun hmem => (h _ hmem).1 rfl, fun k hk => (h k hk).2⟩
      · rintro ⟨hnot, h⟩ k hk
        exact ⟨fun he => hnot (he ▸ hk), h k hk⟩
    rw [List.foldlM_cons, bind_eq_ok, hkeys, List.nodup_cons, List.forall_mem_cons]
    simp only [addPair_eq_ok, List.foldl_cons]
    constructor
    · rintro ⟨n, ⟨hnew, rfl⟩, h⟩
      obtain ⟨hnodup, hfree, h⟩ := ih.mp h
      obtain ⟨hnot, hfree⟩ := hrest.mp hfree
      exact ⟨⟨hnot, hnodup⟩, ⟨hnew, hfree⟩, h⟩
    · rintro ⟨⟨hnot, hnodup⟩, ⟨hnew, hfree⟩, h⟩
      exact ⟨_, ⟨hnew, rfl⟩, ih.mpr ⟨hnodup, hrest.mpr ⟨hnot, hfree⟩, h⟩⟩

/-- Pairs are collected when no key comes up twice, and are then the entries of the map. -/
theorem collectPairs_eq_ok :
    collectPairs flag pairs = .ok m ↔ (Entries.keys pairs).Nodup ∧ KeyMap.ofEntries pairs = m := by
  have hfold : pairs.foldl (fun m p => m.insert p.1 p.2) .empty = KeyMap.ofEntries pairs :=
    KeyMap.ext_entries (List.foldl_hom KeyMap.entries fun _ _ => rfl).symm
  have hempty : ∀ k ∈ Entries.keys pairs, (KeyMap.empty : KeyMap String).contains k = false :=
    fun _ _ => rfl
  rw [collectPairs_eq_foldlM, foldlM_addPair_eq_ok, hfold, and_iff_right hempty]

theorem get?_of_collectPairs (h : collectPairs flag pairs = .ok m) (k v : String) :
    m.get? k = some v ↔ (k, v) ∈ pairs := by
  obtain ⟨hnodup, rfl⟩ := collectPairs_eq_ok.mp h
  calc
    (KeyMap.ofEntries pairs).get? k = some v ↔ (k, v) ∈ Entries.collect pairs :=
      ((Entries.ordered_collect pairs).mem_iff (e := (k, v))).symm
    _ ↔ (k, v) ∈ pairs := Entries.mem_collect_of_nodup hnodup

/-- The order of the pairs does not matter to their map. -/
theorem collectPairs_of_perm (hperm : pairs.Perm pairs') (h : collectPairs flag pairs = .ok m) :
    collectPairs flag pairs' = .ok m := by
  have hnodup : (Entries.keys pairs').Nodup :=
    (hperm.map Prod.fst).nodup_iff.mp (collectPairs_eq_ok.mp h).1
  have hcollect : collectPairs flag pairs' = .ok (.ofEntries pairs') :=
    collectPairs_eq_ok.mpr ⟨hnodup, rfl⟩
  have hsame : KeyMap.ofEntries pairs' = m := by
    apply KeyMap.ext_get?
    intro k
    apply Option.ext
    intro v
    rw [get?_of_collectPairs hcollect, get?_of_collectPairs h, hperm.mem_iff]
  rw [hcollect, hsame]

/-- The first key that comes up again is the one that is blamed. -/
theorem collectPairs_of_firstRepeated (h : FirstRepeated (Entries.keys pairs) k) :
    collectPairs flag pairs = .error (.repeatedKey flag k) := by
  generalize hkeys : Entries.keys pairs = keys at h
  cases h with
  | split fresh again =>
    -- The pairs in front of the key are collected, and the key is among theirs.
    obtain ⟨before, rest, rfl, hbefore, hrest⟩ := List.map_eq_append_iff.mp hkeys
    obtain ⟨p, after, rfl, rfl, -⟩ := List.map_eq_cons_iff.mp hrest
    subst hbefore
    have hfront : before.foldlM (addPair flag) .empty = .ok (.ofEntries before) :=
      collectPairs_eq_ok.mpr ⟨fresh, rfl⟩
    have hhere : (KeyMap.ofEntries before).contains p.1 = true :=
      KeyMap.mem_keys_iff.mp (Entries.mem_keys_collect.mpr again)
    rw [collectPairs_eq_foldlM, List.foldlM_append, bind_eq_error]
    refine .inr ⟨_, hfront, ?_⟩
    rw [List.foldlM_cons, addPair_of_contains hhere]
    rfl

end Command

/-- The flags that give a key and a value. Each is an option of one command, and may be given any
number of times. -/
inductive PairFlag where
  | property
  | set

namespace PairFlag

def arg : PairFlag → Arg
  | .property => .property
  | .set => .set

def name : PairFlag → String
  | .property => "property"
  | .set => "set"

def command : PairFlag → Subcommand
  | .property => .createDatabase
  | .set => .alterDatabase

def setting : PairFlag → String × String → Setting
  | .property, p => .property p.1 p.2
  | .set, p => .set p.1 p.2

/-- The pair in a setting of the flag. -/
def pair? : PairFlag → Setting → Option (String × String)
  | .property => Setting.property?
  | .set => Setting.set?

end PairFlag

/-- The same command with other pairs. -/
def Command.withPairs (pairs : List (String × String)) : Command → Command
  | .createDatabase name _ => .createDatabase name pairs
  | .alterDatabase removals _ => .alterDatabase removals pairs
  | c => c

namespace PairFlag

/-- The command takes the flag, and has these pairs. -/
inductive Asks : PairFlag → List (String × String) → Command → Prop where
  | create (name : String) (pairs : List (String × String)) :
    Asks .property pairs (.createDatabase name pairs)
  | alter (removals : List String) (pairs : List (String × String)) :
    Asks .set pairs (.alterDatabase removals pairs)

variable {f : PairFlag} {pairs pairs' : List (String × String)} {c : Command}

/-- Of the pairs a command sees nothing but their map. -/
theorem Asks.run_withPairs (hc : f.Asks pairs c)
    (h : Command.collectPairs f.name pairs' = Command.collectPairs f.name pairs) (files : Files)
    (rules : NamingRules) (format : OutputFormat) :
    (c.withPairs pairs').run files rules format = c.run files rules format := by
  cases hc with
  | create =>
    have hmap : Command.collectPairs "property" pairs' = Command.collectPairs "property" pairs := h
    simp only [Command.withPairs, Command.run, Command.buildCreate, hmap]
  | alter =>
    have hmap : Command.collectPairs "set" pairs' = Command.collectPairs "set" pairs := h
    simp only [Command.withPairs, Command.run, Command.buildAlter, hmap]

/-- Whatever else the command is given, pairs that cannot be collected end it before anything is
logged. -/
theorem Asks.run_of_error (hc : f.Asks pairs c) {e : Failure}
    (h : Command.collectPairs f.name pairs = .error e) (files : Files) (rules : NamingRules)
    (format : OutputFormat) : (c.run files rules format).run.run [] = (.error e, []) := by
  cases hc with
  | create =>
    have hmap : Command.collectPairs "property" pairs = .error e := h
    simp only [Command.run, Command.buildCreate, hmap]
    rfl
  | alter =>
    have hmap : Command.collectPairs "set" pairs = .error e := h
    simp only [Command.run, Command.buildAlter, hmap]
    rfl

end PairFlag
end Catalog
