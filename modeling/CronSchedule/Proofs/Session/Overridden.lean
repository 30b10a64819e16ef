import CronSchedule.Proofs.Session.InForce
import CronSchedule.Proofs.Settings.Reread

/-!
# What overrides change

A call that configures with overrides writes all the current settings down as entries, puts the
overrides among them and reads the whole as settings again.  So the settings that no override
names are read once more as well, and it is not plain that they stay as they are: settings put
together by hand may not.

What is load-bearing is where settings come from.  In a session that gets none but those that are
read from entries, this holds of the settings in force at any time, and settings that have been
read are read again as what they are.

* `Settings.IsRead` — settings that are read from entries, and `Session.HasRead` — sessions with
  no others in force;
* `Call.gets_of_overridden` — what becomes of each setting under overrides;
* `Call.exists_overridden_of_configure` — what a call that configures is based on;
* `Session.hasRead_reached` — the settings in force at any time of a session;
* `Session.configure_reached` — so a call that configures changes the named settings only.
-/

namespace CronSchedule

open Call (outcome)

variable {host : Host} {s : Session} {overrides : Entries String Value} {x base new : Settings}

/-! ### Settings that are read -/

namespace Settings

/-- Settings that are read from entries, such as those of a file, of variables or of a map. -/
def IsRead (x : Settings) : Prop := ∃ es, ofEntries es = .ok x

theorem isRead_of_load {files : FileSource} {path : Option String} {environment : Environment}
    (h : load files path environment = .ok x) : x.IsRead := by
  unfold load at h
  cases hpath : filePath? path environment with
  | some path =>
    rw [hpath] at h
    obtain ⟨fromFile, -, hread⟩ := bind_eq_ok_iff.mp h
    exact ⟨_, hread⟩
  | none =>
    rw [hpath] at h
    exact ⟨_, h⟩

theorem IsRead.coerce_get (h : x.IsRead) (t : Setting) : t.coerce (x.get t) = .ok (x.get t) := by
  obtain ⟨es, hes⟩ := h
  exact coerce_get_of_ofEntries hes t

end Settings

theorem Session.isRead_of_loaded? (h : s.loaded? host = some x) : x.IsRead := by
  unfold Session.loaded? at h
  cases hload : Settings.load host.files none s.environment with
  | ok loaded =>
    rw [hload] at h
    obtain rfl := Option.some.inj h
    exact Settings.isRead_of_load hload
  | error e =>
    rw [hload] at h
    cases h

/-- Without files and variables everything has its default. -/
theorem Session.loaded?_empty : ({} : Session).loaded? {} = some {} :=
  congrArg Except.toOption (show Settings.load {} none [] = .ok {} from Settings.ofEntries_nil)

namespace Call

/-! ### Overrides -/

theorem isRead_overridden (hbase : base.IsRead) (h : overridden base overrides = .ok new) :
    new.IsRead := by
  unfold overridden at h
  split at h
  · obtain rfl := Except.ok.inj h
    exact hbase
  · exact ⟨_, h⟩

/-- A setting that is named gets what its last override says, and any other keeps its value. -/
theorem gets_of_overridden (hbase : base.IsRead) (h : overridden base overrides = .ok new)
    (t : Setting) :
    t.Gets (Entries.get? (Entries.ofList overrides) t.name) (base.get t) (new.get t) := by
  unfold overridden at h
  split at h
  · next hempty =>
    obtain rfl := List.isEmpty_iff.mp hempty
    obtain rfl := Except.ok.inj h
    rfl
  · have hdistinct := Entries.distinct_merge base.distinct_entries overrides
    have hread := Settings.gets_of_ofEntries_underNames hdistinct h t
    rw [Entries.get?_merge, base.get?_entries] at hread
    cases hget : Entries.get? (Entries.ofList overrides) t.name with
    | some v =>
      rw [hget, Option.some_or] at hread
      exact hread
    | none =>
      rw [hget, Option.none_or] at hread
      exact Except.ok.inj (hread.symm.trans (hbase.coerce_get t))

/-- What a call that configures is based on: the settings that are given, or else those in force,
or else those that are loaded. -/
def basis (host : Host) (s : Session) (given : Option Settings) : Except Error Settings :=
  match given.or s.settings with
  | some previous => .ok previous
  | none => Settings.load host.files none s.environment

theorem outcome_configure_fst {given : Option Settings}
    (hname : Entries.get? overrides baseName = none) :
    (outcome (configure given overrides) host s).1 =
      basis host s given >>= fun previous => overridden previous overrides := by
  rw [configure_eq hname, outcome_bind]
  unfold basis
  cases given with
  | some given =>
    simp only [Option.elim_some, outcome_pure, outcome_putInForce]
    rfl
  | none =>
    cases hs : s.settings with
    | some inForce =>
      simp only [Option.elim_none, outcome_settings_of_some hs, outcome_putInForce]
      rfl
    | none =>
      rw [Option.elim_none, outcome_settings_of_none hs]
      cases Settings.load host.files none s.environment with
      | ok loaded =>
        simp only [outcome_putInForce]
        rfl
      | error e => rfl

theorem basis_eq_ok_iff {given : Option Settings} :
    basis host s given = .ok x ↔ given.or (s.settings.or (s.loaded? host)) = some x := by
  rw [← Option.or_assoc]
  unfold basis Session.loaded?
  cases given.or s.settings with
  | some previous => simp
  | none => cases Settings.load host.files none s.environment <;> simp [Except.toOption]

end Call

/-! ### Sessions -/

/-- Only a request to configure puts settings in force by itself. -/
theorem Request.exists_of_configured? {r : Request} {result : Except Error Answer}
    (h : r.configured? result = some new) :
    ∃ given overrides, r = .configure given overrides ∧ result = .ok (.settings new) := by
  unfold Request.configured? at h
  split at h
  · next given overrides inForce =>
    obtain rfl := Option.some.inj h
    exact ⟨given, overrides, rfl, rfl⟩
  · cases h

/-- What is configured is in force behind the request. -/
theorem Event.settings_behind_of_configured {e : Event host} {given : Option Settings}
    (hr : e.request = .configure given overrides)
    (h : e.response.result = .ok (.settings new)) : e.behind.settings = some new := by
  have hconfigured : e.configured? = some new := by
    unfold Event.configured?
    rw [hr, h]
    rfl
  rw [e.settings_behind, hconfigured, hr]
  rfl

namespace Session

/-- No other settings are in force than those that are read. -/
def HasRead (s : Session) : Prop := ∀ x, s.settings = some x → x.IsRead

theorem result_respond_configure (s : Session) (given : Option Settings)
    (overrides : Entries String Value) :
    (s.respond host (.configure given overrides)).1.result =
      (outcome (Call.configure given overrides) host { s with warnings := [] }).1.map
        .settings := by
  show (outcome (Request.call (.configure given overrides)) host _).1 = _
  rw [Request.call, Call.outcome_map]

/-- Settings are configured where none of the overrides has the name of the basis, there is a basis
and the overrides can be written over it. -/
theorem result_respond_configure_eq_ok_iff {given : Option Settings} :
    (s.respond host (.configure given overrides)).1.result = .ok (.settings new) ↔
      Entries.get? overrides Call.baseName = none ∧
        ∃ previous, given.or (s.settings.or (s.loaded? host)) = some previous ∧
          Call.overridden previous overrides = .ok new := by
  let start : Session := { s with warnings := [] }
  have hresult : (s.respond host (.configure given overrides)).1.result = .ok (.settings new) ↔
      (outcome (Call.configure given overrides) host start).1 = .ok new := by
    rw [result_respond_configure]
    cases (outcome (Call.configure given overrides) host start).1 <;> simp [Except.map]
  rw [hresult]
  cases hname : Entries.get? overrides Call.baseName with
  | some v => simp [Call.configure, hname, Call.outcome_bind]
  | none =>
    rw [Call.outcome_configure_fst hname, bind_eq_ok_iff]
    simp only [Call.basis_eq_ok_iff, true_and]
    rfl

/-- Where no others are in force or given, no others are what a request is based on. -/
theorem HasRead.isRead_previous (hs : s.HasRead) {given : Option Settings}
    (hgiven : ∀ x, given = some x → x.IsRead)
    (h : given.or (s.settings.or (s.loaded? host)) = some x) : x.IsRead := by
  rcases Option.or_eq_some_iff.mp h with hx | ⟨-, h⟩
  · exact hgiven x hx
  · rcases Option.or_eq_some_iff.mp h with hx | ⟨-, hx⟩
    · exact hs x hx
    · exact isRead_of_loaded? hx

/-- A request that gives no other settings than those that are read leaves none in force. -/
theorem HasRead.respond (hs : s.HasRead) {r : Request}
    (hr : ∀ given overrides, r = .configure (some given) overrides → given.IsRead) :
    (s.respond host r).2.HasRead := by
  intro x hx
  let e : Event host := ⟨s, r⟩
  have hbehind : e.behind.settings = some x := hx
  rw [e.settings_behind] at hbehind
  split at hbehind
  · cases hbehind
  rcases Option.or_eq_some_iff.mp hbehind with hconfigured | ⟨-, hkept⟩
  · obtain ⟨given, overrides, rfl, hresult⟩ := Request.exists_of_configured? hconfigured
    obtain ⟨-, previous, hprevious, hoverridden⟩ := result_respond_configure_eq_ok_iff.mp hresult
    refine Call.isRead_overridden (hs.isRead_previous ?_ hprevious) hoverridden
    rintro x rfl
    exact hr x overrides rfl
  · rcases Option.or_eq_some_iff.mp hkept with hx | ⟨-, hloaded⟩
    · exact hs x hx
    · unfold Event.loaded? at hloaded
      split at hloaded
      · exact isRead_of_loaded? hloaded
      · cases hloaded

/-- No other settings are ever in force in a session that starts without any others and is given no
others. -/
theorem hasRead_reached (hs : s.HasRead) {requests : List Request}
    (hrequests : ∀ given overrides, .configure (some given) overrides ∈ requests → given.IsRead) :
    (s.reached host requests).HasRead := by
  induction requests generalizing s with
  | nil => exact hs
  | cons r rest ih =>
    rw [reached_cons]
    refine ih (hs.respond fun given overrides hr => ?_) fun given overrides hmem =>
      hrequests given overrides (List.mem_cons_of_mem r hmem)
    exact hrequests given overrides (hr ▸ List.mem_cons_self ..)

/-- In a session without settings other than those that are read, a call that configures and
succeeds puts settings in force in which every setting that an override names has what the last
such override says, and every other has the value it had before. -/
theorem configure_reached (host : Host) (hs : s.HasRead) {requests : List Request}
    (hrequests : ∀ given overrides, .configure (some given) overrides ∈ requests → given.IsRead)
    {given : Option Settings} (hgiven : ∀ x, given = some x → x.IsRead)
    (h : ((s.reached host requests).respond host (.configure given overrides)).1.result =
      .ok (.settings new)) :
    let last := s.reached host requests
    (last.respond host (.configure given overrides)).2.settings = some new ∧
      ∃ previous, given.or (last.settings.or (last.loaded? host)) = some previous ∧
        ∀ t : Setting,
          t.Gets (Entries.get? (Entries.ofList overrides) t.name) (previous.get t) (new.get t) ∧
            ∀ v w, t.coerce v = .ok w → t.coerce w = .ok w := by
  intro last
  let e : Event host := ⟨last, .configure given overrides⟩
  obtain ⟨-, previous, hprevious, hoverridden⟩ := result_respond_configure_eq_ok_iff.mp h
  have hread := (hasRead_reached hs hrequests).isRead_previous hgiven hprevious
  refine ⟨e.settings_behind_of_configured rfl h, previous, hprevious, fun t => ⟨?_, fun v w => ?_⟩⟩
  · exact Call.gets_of_overridden hread hoverridden t
  · exact Setting.coerce_of_coerce

/-- A zone is configured, and then the comparison of seconds, each by a text: the zone that was read
from its text keeps its value. -/
theorem configure_reached_zone_seconds :
    let zone : List (String × Value) := [("default_timezone", .text " Europe/Berlin ")]
    let seconds : List (String × Value) := [("match_seconds", .text "On")]
    let inBerlin : Settings := { defaultTimezone := .text "Europe/Berlin" }
    let new : Settings := { defaultTimezone := .text "Europe/Berlin", matchSeconds := .bool true }
    let last : Session := ({} : Session).reached {} [.configure none zone]
    last.settings = some inBerlin ∧
      (last.respond {} (.configure none seconds)).1.result = .ok (.settings new) ∧
      (last.respond {} (.configure none seconds)).2.settings = some new ∧
      ∃ previous, last.settings.or (last.loaded? {}) = some previous ∧
        ∀ t : Setting, t ≠ .matchSeconds → new.get t = previous.get t := by
  intro zone seconds inBerlin new last
  have hfirst : (({} : Session).respond {} (.configure none zone)).1.result =
      .ok (.settings inBerlin) :=
    result_respond_configure_eq_ok_iff.mpr
      ⟨rfl, {}, loaded?_empty, Settings.ofEntries_eq_ok_iff.mpr rfl⟩
  have hlast : last.settings = some inBerlin :=
    (⟨{}, .configure none zone⟩ : Event {}).settings_behind_of_configured rfl hfirst
  have hsecond : (last.respond {} (.configure none seconds)).1.result = .ok (.settings new) := by
    refine result_respond_configure_eq_ok_iff.mpr
      ⟨rfl, inBerlin, ?_, Settings.ofEntries_eq_ok_iff.mpr rfl⟩
    rw [hlast]
    rfl
  have hread : ({} : Session).HasRead := fun x hx => by cases hx
  have hgiven : ∀ given overrides,
      .configure (some given) overrides ∈ [Request.configure none zone] → given.IsRead := by
    simp
  obtain ⟨hbehind, previous, hprevious, hget⟩ :=
    configure_reached {} hread hgiven (fun x hx => by cases hx) hsecond
  refine ⟨hlast, hsecond, hbehind, previous, hprevious, fun t ht => ?_⟩
  have hkept := (hget t).1
  have hunnamed : Entries.get? (Entries.ofList seconds) t.name = none := by
    cases t <;> first | exact absurd rfl ht | rfl
  rwa [hunnamed] at hkept

end Session

end CronSchedule
