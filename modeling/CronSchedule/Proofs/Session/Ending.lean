import CronSchedule.Session.Matching

/-!
# What searches fail with

A cursor that has no further result says so by an error of its own, and a window that ends
before it starts is refused with one of its own.  Everything that a search goes through, from
loading settings to the scan, can fail, but in no place with either of them: so a cursor never
takes the failure of a search for its end, and a caller who sees one of the two knows what has
happened.

* `FailsOnly` — the result is a value or one of certain errors, with its laws for results in
  sequence;
* `Error.OfSearch` — the errors of loading settings, `Settings.failsOnly_load`, and of looking
  for the matches of a window, `Window.failsOnly_enumerate`;
* `NoEnd` — the result is not the error that ends a cursor;
* `Call.noEnd_next` — a search in a session does not fail with it.
-/

namespace CronSchedule

/-- The result is a value or one of these errors. -/
def FailsOnly {α : Type} (P : Error → Prop) (r : Except Error α) : Prop :=
  ∀ e, r = .error e → P e

namespace FailsOnly

variable {α β : Type} {P Q : Error → Prop} {r : Except Error α}

theorem ok (a : α) : FailsOnly P (.ok a) := fun _ h => by cases h

theorem error_iff {e : Error} : FailsOnly P (.error e : Except Error α) ↔ P e := by
  simp [FailsOnly]

theorem mono (h : FailsOnly P r) (hPQ : ∀ e, P e → Q e) : FailsOnly Q r :=
  fun e he => hPQ e (h e he)

theorem bind {f : α → Except Error β} (h : FailsOnly P r) (hf : ∀ a, FailsOnly P (f a)) :
    FailsOnly P (r >>= f) := by
  cases r with
  | ok a => exact hf a
  | error e => exact error_iff.mpr (error_iff.mp h)

theorem mapM {f : α → Except Error β} (hf : ∀ a, FailsOnly P (f a)) (xs : List α) :
    FailsOnly P (xs.mapM f) := by
  induction xs with
  | nil => exact ok []
  | cons x xs ih =>
    rw [List.mapM_cons]
    exact (hf x).bind fun y => ih.bind fun ys => ok _

theorem foldlM {f : β → α → Except Error β} (hf : ∀ b a, FailsOnly P (f b a)) (xs : List α)
    (b : β) : FailsOnly P (xs.foldlM f b) := by
  induction xs generalizing b with
  | nil => exact ok b
  | cons x xs ih =>
    rw [List.foldlM_cons]
    exact (hf b x).bind fun c => ih c

end FailsOnly

/-- The errors of loading settings and of looking for matches: settings that cannot be used, a
zone that is unknown, and any failure but the end of a cursor. -/
def Error.OfSearch : Error → Prop
  | settings _ => True
  | argument (.unknownZone _) => True
  | fault f => f ≠ .exhausted
  | _ => False

theorem failsOnly_liftFault {α : Type} {r : Except Fault α} (h : r ≠ .error .exhausted) :
    FailsOnly Error.OfSearch (liftFault r) := by
  cases r with
  | ok a => exact .ok a
  | error f => exact FailsOnly.error_iff.mpr fun hf => h (congrArg Except.error hf)

theorem failsOnly_withinCalendar {α : Type} (x : Option α) :
    FailsOnly Error.OfSearch (withinCalendar x) := by
  cases x <;> simp [FailsOnly, withinCalendar, Error.OfSearch]

/-! ### Loading settings -/

theorem SettingsError.ofSearch_raised (e : SettingsError) : e.raised.OfSearch := by
  unfold raised
  split <;> simp [Error.OfSearch]

theorem FileSource.failsOnly_entries (files : FileSource) (path : String) :
    FailsOnly Error.OfSearch (files.entries path) := by
  have hread : FailsOnly Error.OfSearch (files.read path) := by
    unfold FailsOnly FileTree.read Error.OfSearch
    grind
  refine hread.bind fun text => ?_
  cases files.parse text with
  | error refusal =>
    exact FailsOnly.error_iff.mpr (by cases refusal <;> simp [Yaml.Refusal.error, Error.OfSearch])
  | ok document =>
    simp only [FailsOnly, documentEntries, Error.OfSearch]
    grind

theorem Setting.failsOnly_coerce (s : Setting) (v : Value) :
    FailsOnly Error.OfSearch (s.coerce v) := by
  have hinterpret : FailsOnly Error.OfSearch (s.interpret v) := by
    unfold FailsOnly Setting.interpret Error.OfSearch
    grind
  unfold Setting.coerce
  cases h : s.interpret v with
  | error e =>
    rw [h] at hinterpret
    exact FailsOnly.error_iff.mpr (FailsOnly.error_iff.mp hinterpret)
  | ok w =>
    show FailsOnly _ (if _ then _ else _)
    split
    · exact .ok w
    · exact FailsOnly.error_iff.mpr (SettingsError.ofSearch_raised _)

theorem Draft.failsOnly_settings (d : Draft) : FailsOnly Error.OfSearch d.settings := by
  have hrefusal (s : Setting) (v : Value) : (s.refusal v).OfSearch := by
    unfold Setting.refusal
    split
    · exact SettingsError.ofSearch_raised _
    · simp [Error.OfSearch]
  unfold Draft.settings
  split
  · split
    · exact .ok _
    · exact FailsOnly.error_iff.mpr (hrefusal _ _)
  · exact FailsOnly.error_iff.mpr (hrefusal _ _)

theorem Settings.failsOnly_ofEntries (es : Entries Value Value) :
    FailsOnly Error.OfSearch (Settings.ofEntries es) := by
  have hread (d : Draft) (e : Value × Value) : FailsOnly Error.OfSearch (d.read e) := by
    unfold Draft.read
    cases entrySetting? e with
    | none => simp [FailsOnly, Error.OfSearch]
    | some s => exact (s.failsOnly_coerce e.2).bind fun v => .ok _
  have hdraft : FailsOnly Error.OfSearch (es.foldlM Draft.read {} >>= Draft.settings) :=
    (FailsOnly.foldlM hread es {}).bind Draft.failsOnly_settings
  unfold Settings.ofEntries
  cases unknownNames es with
  | none => exact FailsOnly.error_iff.mpr (by simp [Error.OfSearch])
  | some names =>
    cases names with
    | nil => exact hdraft
    | cons name names => exact FailsOnly.error_iff.mpr (by simp [Error.OfSearch])

theorem Settings.failsOnly_load (files : FileSource) (path : Option String)
    (environment : Environment) :
    FailsOnly Error.OfSearch (Settings.load files path environment) := by
  unfold Settings.load
  cases filePath? path environment with
  | none => exact Settings.failsOnly_ofEntries _
  | some file =>
    exact (files.failsOnly_entries file).bind fun fromFile => Settings.failsOnly_ofEntries _

/-! ### Looking for matches -/

theorem Scan.run_ne_exhausted (scan : Scan) (budget wanted : Nat) (tick : WallTime)
    (found : List WallTime) : scan.run budget wanted tick found ≠ .error .exhausted := by
  fun_induction scan.run budget wanted tick found <;> simp_all

theorem Window.failsOnly_enumerate (w : Window) (zones : ZoneTable) (settings : Settings)
    (p : Pattern) (matchSeconds : Option Bool) (timezone : Option ZoneRef) :
    FailsOnly Error.OfSearch (w.enumerate zones settings p matchSeconds timezone) := by
  have haware (home clock : TimeZone) (withSeconds : Bool) (cap : Option Nat) :
      FailsOnly Error.OfSearch (w.enumerateAware home clock p withSeconds cap) :=
    (failsOnly_withinCalendar _).bind fun start => (failsOnly_withinCalendar _).bind fun stop =>
      (failsOnly_liftFault (Scan.run_ne_exhausted _ _ _ _ _)).bind fun found =>
        (FailsOnly.mapM (fun tick => failsOnly_withinCalendar _) _).bind fun dates => .ok _
  have hresolve (ref : ZoneRef) : FailsOnly Error.OfSearch (zones.resolve ref) := by
    unfold FailsOnly ZoneTable.resolve Error.OfSearch
    grind
  unfold Window.enumerate
  cases w.start.zone with
  | none =>
    exact (failsOnly_liftFault (Scan.run_ne_exhausted _ _ _ _ _)).bind fun found => .ok _
  | some home =>
    cases timezone with
    | none => exact haware home home _ _
    | some ref => exact (hresolve ref).bind fun clock => haware home clock _ _

/-! ### The end of a cursor -/

/-- The result is not the error that ends a cursor. -/
def NoEnd {α : Type} (r : Except Error α) : Prop := FailsOnly (· ≠ .fault .exhausted) r

namespace NoEnd

variable {α : Type} {r : Except Error α}

theorem ok (a : α) : NoEnd (.ok a) := FailsOnly.ok a

theorem error_iff {e : Error} : NoEnd (.error e : Except Error α) ↔ e ≠ .fault .exhausted :=
  FailsOnly.error_iff

theorem of_failsOnly (h : FailsOnly Error.OfSearch r) : NoEnd r :=
  h.mono fun e he => by
    rintro rfl
    exact he rfl

end NoEnd

theorem Window.noEnd_check (start : Instant) (stop : Option Instant) (count : Int) :
    NoEnd (Window.check start stop count) := by
  unfold NoEnd FailsOnly Window.check Window.endOf
  grind

theorem Pattern.noEnd_nextFrom (p : Pattern) (zones : ZoneTable) (settings : Settings)
    (start : DateTime) (withSeconds : Bool) :
    NoEnd (p.nextFrom zones settings start withSeconds) := by
  have hhorizon : settings.horizon ≠ .error .exhausted := by
    unfold Settings.horizon Value.days
    grind
  have hdates (start : Instant) (stop : Option Instant) :
      NoEnd (p.matchedDates zones settings start stop 1 (some withSeconds) none) :=
    (Window.noEnd_check _ _ _).bind fun w =>
      NoEnd.of_failsOnly (w.failsOnly_enumerate _ _ _ _ _)
  exact (NoEnd.of_failsOnly (failsOnly_liftFault hhorizon)).bind fun span =>
    (NoEnd.of_failsOnly (failsOnly_withinCalendar _)).bind fun stop =>
      (hdates _ _).bind fun found => NoEnd.ok _

namespace Call

variable {α β : Type} {host : Host} {s : Session}

theorem failsOnly_bind {P : Error → Prop} {c : Call α} {f : α → Call β}
    (hc : FailsOnly P (outcome c host s).1) (hf : ∀ a s, FailsOnly P (outcome (f a) host s).1) :
    FailsOnly P (outcome (c >>= f) host s).1 := by
  rw [outcome_bind]
  cases h : outcome c host s with
  | mk result behind =>
    rw [h] at hc
    cases result with
    | ok a => exact hf a behind
    | error e => exact FailsOnly.error_iff.mpr (FailsOnly.error_iff.mp hc)

theorem failsOnly_ofResult {P : Error → Prop} {r : Except Error α} (h : FailsOnly P r)
    (s : Session) : FailsOnly P (outcome (ofResult r) host s).1 := by
  rwa [outcome_ofResult]

theorem failsOnly_settings : FailsOnly Error.OfSearch (outcome settings host s).1 := by
  cases hs : s.settings with
  | some inForce =>
    rw [outcome_settings_of_some hs]
    exact .ok _
  | none =>
    have hload := Settings.failsOnly_load host.files none s.environment
    rw [outcome_settings_of_none hs]
    cases h : Settings.load host.files none s.environment with
    | ok loaded => exact .ok _
    | error e =>
      rw [h] at hload
      exact hload

theorem noEnd_bind {c : Call α} {f : α → Call β} (hc : NoEnd (outcome c host s).1)
    (hf : ∀ a s, NoEnd (outcome (f a) host s).1) : NoEnd (outcome (c >>= f) host s).1 :=
  failsOnly_bind hc hf

/-- A search that fails does not end a cursor. -/
theorem noEnd_next (host : Host) (s : Session) (p : Pattern) (after : DateTime)
    (matchSeconds : Option Bool) :
    NoEnd (outcome (next p after matchSeconds) host s).1 := by
  refine noEnd_bind (failsOnly_ofResult (NoEnd.of_failsOnly (failsOnly_withinCalendar _)) s)
    fun start s => ?_
  refine noEnd_bind (.of_failsOnly failsOnly_settings) fun inForce s => ?_
  refine noEnd_bind (NoEnd.ok host) fun h s => ?_
  refine noEnd_bind (failsOnly_ofResult (p.noEnd_nextFrom _ _ _ _) s) fun found s => ?_
  rw [outcome_bind, outcome_warn]
  exact NoEnd.ok _

end Call

end CronSchedule
