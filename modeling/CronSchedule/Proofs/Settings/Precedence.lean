import CronSchedule.Proofs.Settings.Keys

/-!
# Which source a setting comes from

Settings are loaded from the entries of a file and from the variables of an environment.  A setting
has what the last variable for it says, else what the file's entry under its name says, and else
its default.

What is load-bearing is that the entries are merged before any of them is read as a setting.  A
value that a variable replaces is never read, so that nothing it could say is an error; and of the
environment nothing counts but the variables of settings, and the name of the file where no path is
given.  Of the reader of documents it is asked that it keeps keys apart, as the value under a name
would not be one otherwise.

* `Setting.HasVariable`, `Setting.given?` — the variables for a setting, and what the last of them
  gives;
* `SectionInForce` — the entries of the file that counts;
* `get?_environmentEntries` — what the variables give under the name of a setting;
* `Settings.load_eq_ok_iff` — settings that are loaded, source by source;
* `Settings.load_filter` — the variables that count;
* `Settings.load_precedence` — both.
-/

namespace CronSchedule

open Text

variable {files : FileSource} {path : Option String} {environment : Environment}

/-! ### Variables -/

/-- The name is that of a variable for the setting: behind the stem stands the name of the setting,
in any case.  The variable that names the file is none. -/
def Setting.HasVariable (t : Setting) (name : String) : Prop :=
  name ≠ fileVariable ∧
    ∃ rest, name.toList = variableStem.toList ++ rest ∧ lower rest = t.name.toList

theorem variableSetting?_eq_some_iff {name : String} {t : Setting} :
    variableSetting? name = some t ↔ t.HasVariable name := by
  unfold variableSetting?
  dsimp only
  split
  · next hnone =>
    refine ⟨fun h => (by cases h), ?_⟩
    rintro ⟨hne, rest, hrest, -⟩
    rcases hnone with hfile | hstem
    · exact absurd hfile hne
    · rw [hrest] at hstem
      exact absurd (List.isPrefixOf_iff_prefix.mpr (List.prefix_append _ rest)) hstem
  · next hsome =>
    rw [not_or, Classical.not_not] at hsome
    obtain ⟨rest, hrest⟩ := List.isPrefixOf_iff_prefix.mp hsome.2
    rw [Setting.ofName?_eq_some_iff, ← hrest, List.drop_left, ← String.toList_inj,
      String.toList_ofList]
    constructor
    · exact fun hlower => ⟨hsome.1, rest, hrest.symm, hlower⟩
    · rintro ⟨-, rest', hrest', hlower⟩
      rw [hrest'] at hrest
      rw [List.append_cancel_left hrest, hlower]

instance (t : Setting) (name : String) : Decidable (t.HasVariable name) :=
  decidable_of_iff _ variableSetting?_eq_some_iff

/-- What an environment gives for a setting: the text of the last variable for it. -/
def Setting.given? (t : Setting) (environment : Environment) : Option String :=
  (environment.filter fun e => t.HasVariable e.1).getLast?.map (·.2)

theorem Setting.given?_cons (t : Setting) (e : String × String) (environment : Environment) :
    t.given? (e :: environment) =
      (t.given? environment).or (if t.HasVariable e.1 then some e.2 else none) := by
  unfold given?
  by_cases h : t.HasVariable e.1
  · rw [List.filter_cons, if_pos (decide_eq_true h), if_pos h, List.getLast?_cons]
    cases (environment.filter _).getLast? <;> rfl
  · rw [List.filter_cons, if_neg (by rwa [decide_eq_true_iff]), if_neg h, Option.or_none]

/-- What the variables give under the name of a setting. -/
theorem get?_environmentEntries (environment : Environment) (t : Setting) :
    Entries.get? (environmentEntries environment) t.name = t.given? environment := by
  induction environment with
  | nil => rfl
  | cons e environment ih =>
    rw [Setting.given?_cons, ← ih]
    cases hname : variableSetting? e.1 with
    | none =>
      have hother : ¬ t.HasVariable e.1 := by
        rw [← variableSetting?_eq_some_iff, hname]
        exact fun h => by cases h
      rw [if_neg hother, Option.or_none, environmentEntries, List.filterMap_cons, hname]
      rfl
    | some u =>
      have hfirst : environmentEntries (e :: environment) =
          Entries.merge [(u.name, e.2)] (environment.filterMap fun e =>
            (variableSetting? e.1).map fun s => (s.name, e.2)) := by
        rw [environmentEntries, List.filterMap_cons, hname]
        rfl
      rw [hfirst, Entries.get?_merge, Entries.get?_cons, Entries.get?_nil]
      by_cases hu : u = t
      · subst hu
        rw [if_pos (beq_self_eq_true _), if_pos (variableSetting?_eq_some_iff.mp hname)]
        rfl
      · have hother : ¬ t.HasVariable e.1 := by
          rw [← variableSetting?_eq_some_iff, hname]
          exact fun h => hu (Option.some.inj h)
        have hnames : u.name ≠ t.name := fun h =>
          hu (Option.some.inj ((Setting.ofName?_name u).symm.trans
            (Setting.ofName?_eq_some_iff.mpr h)))
        rw [if_neg (mt beq_iff_eq.mp hnames), if_neg hother]
        rfl

/-- The entries that the variables give, as values under names. -/
def variableValues (environment : Environment) : Entries String Value :=
  (environmentEntries environment).map fun e => (e.1, .text e.2)

theorem distinct_variableValues (environment : Environment) :
    (variableValues environment).Distinct := by
  have hdistinct : (environmentEntries environment).Distinct :=
    Entries.distinct_merge (show Entries.Distinct [] from List.nodup_nil) _
  unfold Entries.Distinct variableValues
  rwa [List.map_map]

theorem get?_variableValues (environment : Environment) (t : Setting) :
    Entries.get? (variableValues environment) t.name = (t.given? environment).map .text := by
  rw [← get?_environmentEntries, Entries.get?, Entries.get?, variableValues, List.find?_map,
    Option.map_map, Option.map_map]
  rfl

/-- Variables give values under the names of settings only. -/
theorem exists_name_of_mem_variableValues {e : String × Value}
    (he : e ∈ variableValues environment) : ∃ t : Setting, e.1 = t.name := by
  have hnamed : ∀ e ∈ environment.filterMap fun e =>
      (variableSetting? e.1).map fun t => (t.name, e.2), ∃ t : Setting, e.1 = t.name := by
    intro e he
    obtain ⟨f, -, hf⟩ := List.mem_filterMap.mp he
    obtain ⟨t, -, rfl⟩ := Option.map_eq_some_iff.mp hf
    exact ⟨t, rfl⟩
  have hkeys : ∀ k ∈ (environmentEntries environment).map (·.1), ∃ t : Setting, k = t.name :=
    (Entries.forall_keys_merge_iff hnamed).mpr (List.forall_mem_nil _)
  obtain ⟨f, hf, rfl⟩ := List.mem_map.mp he
  exact hkeys f.1 (List.mem_map_of_mem hf)

/-! ### The file in force -/

/-- The path of the file that counts: the one that is given, or else the one that the environment
names. -/
inductive PathInForce (environment : Environment) : Option String → String → Prop
  | given (file : String) : PathInForce environment (some file) file
  | named {file : String} : Entries.get? environment fileVariable = some file →
      PathInForce environment none file

/-- The entries of the file that counts.  An empty path stands for no file. -/
inductive SectionInForce (files : FileSource) (path : Option String) (environment : Environment) :
    Entries Value Value → Prop
  | file {file : String} {es : Entries Value Value} : PathInForce environment path file →
      file ≠ "" → files.entries file = .ok es → SectionInForce files path environment es
  | none : (∀ file, PathInForce environment path file → file = "") →
      SectionInForce files path environment []

theorem filePath?_eq_some_iff {file : String} :
    filePath? path environment = some file ↔ PathInForce environment path file ∧ file ≠ "" := by
  have hnamed : path.or (Entries.get? environment fileVariable) = some file ↔
      PathInForce environment path file := by
    cases path with
    | some given =>
      rw [Option.some_or, Option.some.injEq]
      constructor
      · rintro rfl
        exact .given given
      · rintro ⟨⟩
        rfl
    | none =>
      rw [Option.none_or]
      constructor
      · exact .named
      · rintro (- | h)
        exact h
  rw [filePath?, Option.filter_eq_some_iff, hnamed, bne_iff_ne]

theorem sectionInForce_iff {es : Entries Value Value} :
    SectionInForce files path environment es ↔
      match filePath? path environment with
      | some file => files.entries file = .ok es
      | none => es = [] := by
  cases hpath : filePath? path environment with
  | some file =>
    obtain ⟨hfile, hne⟩ := filePath?_eq_some_iff.mp hpath
    constructor
    · rintro (⟨hother, hne', hentries⟩ | hempty)
      · rw [filePath?_eq_some_iff.mpr ⟨hother, hne'⟩] at hpath
        exact Option.some.inj hpath ▸ hentries
      · exact absurd (hempty file hfile) hne
    · exact .file hfile hne
  | none =>
    constructor
    · rintro (⟨hfile, hne, -⟩ | hempty)
      · rw [filePath?_eq_some_iff.mpr ⟨hfile, hne⟩] at hpath
        cases hpath
      · rfl
    · rintro rfl
      refine .none fun file hfile => Classical.byContradiction fun hne => ?_
      rw [filePath?_eq_some_iff.mpr ⟨hfile, hne⟩] at hpath
      cases hpath

theorem SectionInForce.apart (hreader : files.parse.KeepsKeysApart) {es : Entries Value Value}
    (h : SectionInForce files path environment es) : es.Apart := by
  cases h with
  | file _ _ hentries => exact FileSource.apart_of_entries hreader hentries
  | none => exact Entries.apart_nil

/-! ### Loading -/

namespace Settings

/-- Settings are loaded from the entries of the file that counts, with those of the variables
written over them. -/
theorem load_eq_ok_iff {s : Settings} :
    load files path environment = .ok s ↔ ∃ es, SectionInForce files path environment es ∧
      ofEntries (Entries.merge es (underNames (variableValues environment))) = .ok s := by
  unfold load
  cases hpath : filePath? path environment with
  | some file =>
    simp only [sectionInForce_iff, hpath]
    exact bind_eq_ok_iff
  | none =>
    simp only [sectionInForce_iff, hpath, exists_eq_left]
    rfl

/-- Settings are loaded where every key of the file that counts is the name of a setting, and every
setting has what the last variable for it says, or else what the file says, or else its default. -/
theorem load_eq_ok_iff_gets (hreader : files.parse.KeepsKeysApart) {s : Settings} :
    load files path environment = .ok s ↔ ∃ es, SectionInForce files path environment es ∧
      (∀ k ∈ es.map (·.1), ∃ t : Setting, k = .text t.name) ∧
      ∀ t : Setting, t.Gets
        (((t.given? environment).map .text).or (Entries.get? es (.text t.name)))
        (Draft.get {} t) (s.get t) := by
  have hnames : ∀ e ∈ underNames (variableValues environment),
      ∃ t : Setting, e.1 = .text t.name := by
    intro e he
    obtain ⟨f, hf, rfl⟩ := List.mem_map.mp he
    obtain ⟨t, ht⟩ := exists_name_of_mem_variableValues hf
    exact ⟨t, congrArg Value.text ht⟩
  rw [load_eq_ok_iff]
  refine exists_congr fun es => and_congr_right fun hes => ?_
  rw [ofEntries_eq_ok_iff_gets (Entries.apart_merge (hes.apart hreader) _),
    Entries.forall_keys_merge_iff hnames]
  simp only [Entries.get?_merge_underNames (distinct_variableValues environment),
    get?_variableValues]

/-! ### What does not count -/

/-- A variable that counts: one for a setting, or the one that names the file where no path is
given. -/
def Counts (path : Option String) (name : String) : Prop :=
  (path = none ∧ name = fileVariable) ∨ ∃ t : Setting, t.HasVariable name

theorem counts_iff {name : String} :
    Counts path name ↔
      (path = none ∧ name = fileVariable) ∨ (variableSetting? name).isSome = true := by
  simp only [Counts, ← variableSetting?_eq_some_iff, Option.isSome_iff_exists]

instance (path : Option String) (name : String) : Decidable (Counts path name) :=
  decidable_of_iff _ counts_iff.symm

/-- Without the variables that do not count the same is loaded, or refused. -/
theorem load_filter (files : FileSource) (path : Option String) (environment : Environment) :
    load files path (environment.filter fun e => Counts path e.1) =
      load files path environment := by
  have hvariables : environmentEntries (environment.filter fun e => Counts path e.1) =
      environmentEntries environment := by
    rw [environmentEntries, List.filterMap_filter, environmentEntries]
    apply congrArg fun given => Entries.ofList (environment.filterMap given)
    funext e
    split
    · rfl
    · next hcounts =>
      rw [decide_eq_true_iff, counts_iff, not_or, Option.not_isSome_iff_eq_none] at hcounts
      rw [hcounts.2]
      rfl
  have hfile : filePath? path (environment.filter fun e => Counts path e.1) =
      filePath? path environment := by
    cases path with
    | some file => rfl
    | none =>
      rw [filePath?, Option.none_or, Entries.get?, List.find?_filter, filePath?, Option.none_or,
        Entries.get?]
      apply congrArg fun q => ((environment.find? q).map (·.2)).filter (· != "")
      funext e
      -- the variable that names the file counts
      cases hname : e.1 == fileVariable with
      | false => simp
      | true =>
        have hcounts : Counts none e.1 := .inl ⟨rfl, eq_of_beq hname⟩
        simp [hcounts]
  unfold load
  rw [hvariables, hfile]

/-- Settings are loaded source by source: each setting has what the last variable for it says, or
else what the file says under its name, or else its default.  So nothing else counts of the
environment, and of the file nothing that a variable replaces, not even as an error. -/
theorem load_precedence {files : FileSource} (hreader : files.parse.KeepsKeysApart)
    (path : Option String) (environment : Environment) :
    (∀ s, load files path environment = .ok s ↔
      ∃ es, SectionInForce files path environment es ∧
        (∀ k ∈ es.map (·.1), ∃ t : Setting, k = .text t.name) ∧
        ∀ t : Setting, t.Gets
          (((t.given? environment).map .text).or (Entries.get? es (.text t.name)))
          (Draft.get {} t) (s.get t)) ∧
    load files path (environment.filter fun e => Counts path e.1) = load files path environment :=
  ⟨fun _ => load_eq_ok_iff_gets hreader, load_filter files path environment⟩

/-- A file outside the directory in which paths start, with a limit that is no number.  A variable
replaces the limit, the last of two gives the span, and the file that the environment names does not
count. -/
theorem load_replacedLimit :
    let text := "cronmatch:\n  max_scan_ticks: few\n  match_seconds: 'on'\n"
    let files : FileSource := { table := [("/etc/cron.yaml", text.toUTF8)] }
    let environment : Environment :=
      [("CRONMATCH_CONFIG", "other.yaml"), ("CRONMATCH_MAX_SCAN_TICKS", "9"),
        ("CRONMATCH_SEARCH_HORIZON_DAYS", "many"), ("CRONMATCH_search_horizon_days", "30")]
    files.parse.KeepsKeysApart ∧
      ∃ s, load files (some "/etc/cron.yaml") environment = .ok s ∧ s.maxScanTicks = .int 9 ∧
        s.matchSeconds = .bool true ∧ s.searchHorizonDays = .int 30 ∧
        s.defaultTimezone = .null := by
  intro text files environment
  have hreader : files.parse.KeepsKeysApart := Yaml.keepsKeysApart_parse
  let es := Entries.ofTexts [("max_scan_ticks", "few"), ("match_seconds", "on")]
  have hentries : files.entries "/etc/cron.yaml" = .ok es := by
    have hsame : (files.entries "/etc/cron.yaml").toOption.map (· == es) = some true := by
      decide +kernel
    cases h : files.entries "/etc/cron.yaml" with
    | error e =>
      rw [h] at hsame
      cases hsame
    | ok es' =>
      rw [h] at hsame
      rw [Entries.eq_ofTexts_of_beq (Option.some.inj hsame)]
  let s : Settings :=
    { maxScanTicks := .int 9, matchSeconds := .bool true, searchHorizonDays := .int 30,
      ticks_pos := .inr rfl, days_pos := rfl }
  refine ⟨hreader, s, ((load_precedence hreader _ environment).1 s).mpr ?_, rfl, rfl, rfl, rfl⟩
  refine ⟨es, .file (.given _) (by decide) hentries, ?_, ?_⟩
  · intro k hk
    rcases List.mem_cons.mp hk with rfl | hk
    · exact ⟨.maxScanTicks, rfl⟩
    · obtain rfl := List.mem_singleton.mp hk
      exact ⟨.matchSeconds, rfl⟩
  · intro t
    cases t <;> rfl

end Settings

end CronSchedule
