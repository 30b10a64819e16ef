import CronSchedule.Proofs.Session.Lookup
import CronSchedule.Session.Request

/-!
# What a setting influences

The same requests are made in two sessions that differ in the settings in force.  A request reads
some of the settings and, while settings stay in force, changes none: so two sessions whose
settings agree wherever a request reads them give the same response, warnings included, and
differ behind it in the settings in force alone.

Which settings a request reads can be told from its arguments.  A zone that is given, or a date
and time in place of a number of seconds, leaves the default zone unread; a choice about seconds
that is given, or made by the pattern, leaves that setting unread.

* `Call.Alike` — two calls under two settings do the same, with its laws for calls in sequence;
* `Request.reads` — which settings a request reads;
* `Request.alike` — of every request, `Session.run_inForce` — of every run;
* `Session.run_influence` — the four settings, each with the requests that it leaves alone.
-/

namespace CronSchedule

/-- The session with the settings in force. -/
def Session.inForce (s : Session) (settings : Settings) : Session :=
  { s with settings := some settings }

/-- Settings that are the same but for some of their parts. -/
def Settings.AgreeBut (a b : Settings) (except : List Setting) : Prop :=
  ∀ setting, setting ∉ except → a.get setting = b.get setting

namespace Call

variable {host : Host} {a b : Settings} {α β : Type}

/-- Under the first settings the one call does what the other does under the second, and both
leave the settings in force. -/
def Alike (host : Host) (a b : Settings) (c d : Call α) : Prop :=
  ∀ s : Session, ∃ (result : Except Error α) (behind : Session),
    outcome c host (s.inForce a) = (result, behind.inForce a) ∧
      outcome d host (s.inForce b) = (result, behind.inForce b)

/-! ### Calls in sequence -/

theorem alike_ofResult (r : Except Error α) : Alike host a b (ofResult r) (ofResult r) :=
  fun s => ⟨r, s, outcome_ofResult r host _, outcome_ofResult r host _⟩

theorem alike_pure (x : α) : Alike host a b (pure x) (pure x) := alike_ofResult (.ok x)

theorem alike_throw (e : Error) : Alike host a b (throw e : Call α) (throw e) :=
  alike_ofResult (.error e)

theorem alike_read : Alike host a b (read : Call Host) read := fun s => ⟨.ok host, s, rfl, rfl⟩

theorem alike_warn (w : Option CapWarning) : Alike host a b (warn w) (warn w) := fun s =>
  ⟨.ok (), { s with warnings := s.warnings ++ w.toList }, outcome_warn w host _,
    outcome_warn w host _⟩

theorem alike_keepCursor (name : String) (c : Cursor) :
    Alike host a b (keepCursor name c) (keepCursor name c) := fun s =>
  ⟨.ok (), { s with cursors := Entries.put s.cursors name c }, rfl, rfl⟩

theorem alike_cursor (name : String) : Alike host a b (cursor name) (cursor name) := fun s =>
  ⟨_, s, outcome_cursor name host (s.inForce a), outcome_cursor name host (s.inForce b)⟩

theorem Alike.bind {c d : Call α} {f g : α → Call β} (h : Alike host a b c d)
    (hf : ∀ x, Alike host a b (f x) (g x)) : Alike host a b (c >>= f) (d >>= g) := by
  intro s
  obtain ⟨result, behind, hc, hd⟩ := h s
  rw [outcome_bind, outcome_bind, hc, hd]
  cases result with
  | error e => exact ⟨.error e, behind, rfl, rfl⟩
  | ok x => exact hf x behind

theorem Alike.map {c d : Call α} (f : α → β) (h : Alike host a b c d) :
    Alike host a b (f <$> c) (f <$> d) := by
  rw [map_eq_pure_bind, map_eq_pure_bind]
  exact h.bind fun x => alike_pure (f x)

/-- What follows a look at the settings may use of them what is the same in both. -/
theorem Alike.settings_bind {f g : Settings → Call β} (h : Alike host a b (f a) (g b)) :
    Alike host a b (settings >>= f) (settings >>= g) := by
  intro s
  have ha : (s.inForce a).settings = some a := rfl
  have hb : (s.inForce b).settings = some b := rfl
  rw [outcome_bind, outcome_bind, outcome_settings_of_some ha, outcome_settings_of_some hb]
  exact h s

/-! ### Clocks -/

theorem alike_zone {ref : Option ZoneRef}
    (h : ref.isNone = true → a.defaultTimezone = b.defaultTimezone) :
    Alike host a b (zone ref) (zone ref) := by
  cases ref with
  | some ref => exact alike_read.bind fun h => (alike_ofResult _).bind fun z => alike_pure _
  | none =>
    refine .settings_bind (alike_read.bind fun host => ?_)
    rw [h rfl]
    exact alike_ofResult _

theorem alike_clock {ref : Option ZoneRef}
    (h : ref.isNone = true → a.defaultTimezone = b.defaultTimezone) :
    Alike host a b (clock ref) (clock ref) := by
  refine (alike_zone h).bind fun choice => ?_
  cases choice with
  | localClock => exact alike_pure _
  | zone z => exact alike_pure _
  | noZone v => exact alike_throw _

theorem alike_dateTimeIn (d : DateTime) (ref : Option ZoneRef) :
    Alike host a b (dateTimeIn d ref) (dateTimeIn d ref) := by
  cases ref with
  | none => exact alike_pure d
  | some ref =>
    refine alike_read.bind fun h => (alike_ofResult _).bind fun z => ?_
    split
    · exact alike_pure d
    · exact alike_ofResult _

/-- The default zone is read for a number of seconds without a zone alone. -/
theorem alike_wallClock {instant : Instant} {ref : Option ZoneRef}
    (h : (instant.isTimestamp && ref.isNone) = true → a.defaultTimezone = b.defaultTimezone) :
    Alike host a b (wallClock instant ref) (wallClock instant ref) := by
  cases instant with
  | dateTime d => exact alike_dateTimeIn d ref
  | timestamp seconds => exact (alike_clock h).bind fun z => alike_ofResult _
  | fractional seconds => exact (alike_clock h).bind fun z => alike_ofResult _
  | other kind => exact alike_throw _

/-! ### Matching and enumerating -/

theorem alike_accepts (p : Pattern) {instant : Instant} {ref : Option ZoneRef}
    {matchSeconds : Option Bool}
    (hzone : (instant.isTimestamp && ref.isNone) = true → a.defaultTimezone = b.defaultTimezone)
    (hseconds : matchSeconds.isNone = true → a.matchSeconds = b.matchSeconds) :
    Alike host a b (accepts p instant ref matchSeconds) (accepts p instant ref matchSeconds) := by
  have hcompares :
      Alike host a b (comparesSeconds matchSeconds) (comparesSeconds matchSeconds) := by
    cases matchSeconds with
    | some withSeconds => exact alike_pure withSeconds
    | none =>
      refine .settings_bind ?_
      rw [Settings.comparesSeconds, Settings.comparesSeconds, hseconds rfl]
      exact alike_pure _
  exact hcompares.bind fun withSeconds => (alike_wallClock hzone).bind fun d => alike_ofResult _

/-- An enumeration reads the limit on ticks, and whether seconds are compared unless that is
given. -/
theorem enumerate_congr (w : Window) (zones : ZoneTable) (p : Pattern)
    {matchSeconds : Option Bool} (ref : Option ZoneRef)
    (hseconds : matchSeconds.isNone = true → a.matchSeconds = b.matchSeconds)
    (hticks : a.maxScanTicks = b.maxScanTicks) :
    w.enumerate zones a p matchSeconds ref = w.enumerate zones b p matchSeconds ref := by
  have hcompares : matchSeconds.getD a.comparesSeconds = matchSeconds.getD b.comparesSeconds := by
    cases matchSeconds with
    | some withSeconds => rfl
    | none => exact congrArg Value.isTruthy (hseconds rfl)
  have hlimit : a.tickLimit = b.tickLimit := congrArg Value.ceiling? hticks
  unfold Window.enumerate
  rw [hcompares, hlimit]

theorem alike_dates (p : Pattern) (start : Instant) (stop : Option Instant) (count : Int)
    {matchSeconds : Option Bool} (ref : Option ZoneRef)
    (hseconds : matchSeconds.isNone = true → a.matchSeconds = b.matchSeconds)
    (hticks : a.maxScanTicks = b.maxScanTicks) :
    Alike host a b (dates p start stop count matchSeconds ref)
      (dates p start stop count matchSeconds ref) := by
  refine (alike_ofResult _).bind fun w => .settings_bind (alike_read.bind fun h => ?_)
  rw [enumerate_congr w h.zones p ref hseconds hticks]
  exact (alike_ofResult _).bind fun found => (alike_warn _).bind fun _ => alike_pure _

/-- A search reads the horizon and the limit on ticks. -/
theorem alike_next (p : Pattern) (after : DateTime) (matchSeconds : Option Bool)
    (hticks : a.maxScanTicks = b.maxScanTicks)
    (hdays : a.searchHorizonDays = b.searchHorizonDays) :
    Alike host a b (next p after matchSeconds) (next p after matchSeconds) := by
  have hfrom (zones : ZoneTable) (start : DateTime) (withSeconds : Bool) :
      p.nextFrom zones a start withSeconds = p.nextFrom zones b start withSeconds := by
    have henumerate (w : Window) : w.enumerate zones a p (some withSeconds) none =
        w.enumerate zones b p (some withSeconds) none :=
      enumerate_congr w zones p none nofun hticks
    simp only [Pattern.nextFrom, Pattern.matchedDates, Settings.horizon, hdays, henumerate]
  refine (alike_ofResult _).bind fun start => .settings_bind (alike_read.bind fun h => ?_)
  rw [hfrom]
  exact (alike_ofResult _).bind fun found => (alike_warn _).bind fun _ => alike_pure _

/-! ### Cursors -/

theorem alike_openCursor (name : String) (p : Pattern) (after : DateTime) (limit : Option Int)
    (matchSeconds : Option Bool) :
    Alike host a b (openCursor name p after limit matchSeconds)
      (openCursor name p after limit matchSeconds) :=
  (alike_ofResult _).bind fun c => (alike_keepCursor name c).bind fun _ => alike_pure _

theorem alike_remaining (name : String) :
    Alike host a b (remaining name) (remaining name) :=
  (alike_cursor name).bind fun _ => alike_pure _

section Searching

variable (hticks : a.maxScanTicks = b.maxScanTicks)
  (hdays : a.searchHorizonDays = b.searchHorizonDays)
include hticks hdays

theorem alike_step (c : Cursor) : Alike host a b (step c) (step c) := by
  unfold step
  split
  · exact alike_pure _
  · exact (alike_next _ _ _ hticks hdays).bind fun date => alike_pure _

theorem alike_advance (name : String) : Alike host a b (advance name) (advance name) := by
  refine (alike_cursor name).bind fun c => (alike_step hticks hdays c).bind fun x =>
    (alike_keepCursor name x.2).bind fun _ => ?_
  cases x.1 with
  | some d => exact alike_pure d
  | none => exact alike_throw _

theorem alike_drainFor (name : String) (steps : Nat) : ∀ taken : List DateTime,
    Alike host a b (drainFor name steps taken) (drainFor name steps taken) := by
  induction steps with
  | zero => exact fun taken => alike_pure _
  | succ steps ih =>
    intro taken
    refine (alike_cursor name).bind fun c => (alike_step hticks hdays c).bind fun x =>
      (alike_keepCursor name x.2).bind fun _ => ?_
    cases x.1 with
    | some d => exact ih _
    | none => exact alike_pure _

theorem alike_drain (name : String) : Alike host a b (drain name) (drain name) :=
  (alike_cursor name).bind fun _ => alike_drainFor hticks hdays name _ []

end Searching

end Call

/-! ### Requests -/

namespace Request

/-- Whether a request is about settings themselves. -/
def handlesSettings : Request → Bool
  | settings | configure _ _ | resetSettings => true
  | _ => false

/-- Whether a request, unless it is about settings themselves, reads a setting. -/
def reads : Request → Setting → Bool
  | zone ref, .defaultTimezone => ref.isNone
  | wallClock instant ref, .defaultTimezone => instant.isTimestamp && ref.isNone
  | accepts _ instant ref _, .defaultTimezone => instant.isTimestamp && ref.isNone
  | accepts _ _ _ matchSeconds, .matchSeconds => matchSeconds.isNone
  | acceptsOwn _ instant, .defaultTimezone => instant.isTimestamp
  | dates _ _ _ _ matchSeconds _, .matchSeconds => matchSeconds.isNone
  | firstOfYear _ _ matchSeconds, .matchSeconds => matchSeconds.isNone
  | dates _ _ _ _ _ _, .maxScanTicks | firstOfYear _ _ _, .maxScanTicks => true
  | next _ _ _, .maxScanTicks | advance _, .maxScanTicks | drain _, .maxScanTicks => true
  | next _ _ _, .searchHorizonDays | advance _, .searchHorizonDays
  | drain _, .searchHorizonDays => true
  | _, _ => false

/-- Whether a request asks if a pattern accepts an instant. -/
def isMatch : Request → Bool
  | accepts _ _ _ _ | acceptsOwn _ _ => true
  | _ => false

/-- Whether a request asks for the matches of a window. -/
def isEnumeration : Request → Bool
  | dates _ _ _ _ _ _ | firstOfYear _ _ _ => true
  | _ => false

/-- Whether a request asks for the next match, once or through a cursor. -/
def isSearch : Request → Bool
  | next _ _ _ | openCursor _ _ _ _ _ | advance _ | drain _ | remaining _ => true
  | _ => false

/-- Whether a request passes a number of seconds and no zone to read it in. -/
def hasBareTimestamp : Request → Bool
  | accepts _ instant ref _ => instant.isTimestamp && ref.isNone
  | acceptsOwn _ instant => instant.isTimestamp
  | _ => false

/-- The request reads none of these settings. -/
def LeavesAlone (r : Request) (unread : List Setting) : Prop :=
  r.handlesSettings = false ∧ ∀ setting ∈ unread, r.reads setting = false

namespace LeavesAlone

variable {r : Request}

theorem defaultTimezone (h : (r.isMatch || r.isEnumeration || r.isSearch) = true)
    (hclock : r.hasBareTimestamp = false) : r.LeavesAlone [.defaultTimezone] := by
  refine ⟨?_, List.forall_mem_singleton.mpr ?_⟩ <;> cases r <;>
    first | rfl | exact hclock | cases h

theorem of_isMatch (h : r.isMatch = true) : r.LeavesAlone [.maxScanTicks, .searchHorizonDays] := by
  refine ⟨?_, List.forall_mem_cons.mpr ⟨?_, List.forall_mem_singleton.mpr ?_⟩⟩ <;> cases r <;>
    first | rfl | cases h

theorem of_isEnumeration (h : r.isEnumeration = true) : r.LeavesAlone [.searchHorizonDays] := by
  refine ⟨?_, List.forall_mem_singleton.mpr ?_⟩ <;> cases r <;> first | rfl | cases h

theorem of_isSearch (h : r.isSearch = true) : r.LeavesAlone [.matchSeconds] := by
  refine ⟨?_, List.forall_mem_singleton.mpr ?_⟩ <;> cases r <;> first | rfl | cases h

end LeavesAlone

/-- Under settings that agree wherever a request reads them the request does the same. -/
theorem alike (host : Host) {a b : Settings} {r : Request} (hr : r.handlesSettings = false)
    (h : ∀ setting, r.reads setting = true → a.get setting = b.get setting) :
    Call.Alike host a b r.call r.call := by
  have hzone := h .defaultTimezone
  have hseconds := h .matchSeconds
  have hticks := h .maxScanTicks
  have hdays := h .searchHorizonDays
  cases r with
  | settings => cases hr
  | configure base overrides => cases hr
  | resetSettings => cases hr
  | setEnvironment environment =>
    exact fun s => ⟨.ok .nothing, { s with environment }, rfl, rfl⟩
  | zone ref => exact (Call.alike_zone hzone).map _
  | wallClock instant ref => exact (Call.alike_wallClock hzone).bind fun d => Call.alike_pure _
  | accepts p instant ref matchSeconds => exact (Call.alike_accepts p hzone hseconds).map _
  | acceptsOwn p instant =>
    have hunzoned : (instant.isTimestamp && (none : Option ZoneRef).isNone) = true →
        a.defaultTimezone = b.defaultTimezone := by
      rw [Option.isNone_none, Bool.and_true]
      exact hzone
    exact (Call.alike_accepts p hunzoned fun hnone => by cases hnone).map _
  | dates p start stop count matchSeconds ref =>
    exact (Call.alike_dates p start stop count ref hseconds (hticks rfl)).map _
  | firstOfYear p start matchSeconds =>
    exact ((Call.alike_dates p start none 1 none hseconds (hticks rfl)).bind fun _ =>
      Call.alike_pure _).map _
  | next p after matchSeconds =>
    exact (Call.alike_next p after matchSeconds (hticks rfl) (hdays rfl)).map _
  | openCursor name p after limit matchSeconds =>
    exact (Call.alike_openCursor name p after limit matchSeconds).map _
  | advance name =>
    exact (Call.alike_advance (hticks rfl) (hdays rfl) name).bind fun d => Call.alike_pure _
  | drain name => exact (Call.alike_drain (hticks rfl) (hdays rfl) name).map _
  | remaining name => exact (Call.alike_remaining name).map _

end Request

/-! ### Runs -/

namespace Session

variable {host : Host} {a b : Settings} {requests : List Request}

/-- Under settings that agree wherever a request reads them it has the same response, and the
sessions behind it differ in the settings in force alone. -/
theorem respond_inForce (host : Host) (s : Session) {r : Request} (hr : r.handlesSettings = false)
    (h : ∀ setting, r.reads setting = true → a.get setting = b.get setting) :
    ∃ response behind, (s.inForce a).respond host r = (response, inForce behind a) ∧
      (s.inForce b).respond host r = (response, inForce behind b) := by
  obtain ⟨result, behind, ha, hb⟩ := Request.alike host hr h { s with warnings := [] }
  have hrespond (x : Settings) (hx : Call.outcome r.call host { s.inForce x with warnings := [] } =
      (result, behind.inForce x)) : (s.inForce x).respond host r =
        (⟨result, behind.warnings⟩, inForce { behind with warnings := [] } x) := by
    simp only [respond, hx]
    rfl
  exact ⟨_, _, hrespond a ha, hrespond b hb⟩

/-- So have several requests. -/
theorem run_inForce (host : Host) (s : Session)
    (h : ∀ r ∈ requests, r.handlesSettings = false ∧
      ∀ setting, r.reads setting = true → a.get setting = b.get setting) :
    ∃ responses behind, (s.inForce a).run host requests = (responses, inForce behind a) ∧
      (s.inForce b).run host requests = (responses, inForce behind b) := by
  induction requests generalizing s with
  | nil => exact ⟨[], s, rfl, rfl⟩
  | cons r rest ih =>
    obtain ⟨⟨hr, hreads⟩, hrest⟩ := List.forall_mem_cons.mp h
    obtain ⟨response, behind, ha, hb⟩ := respond_inForce host s hr hreads
    obtain ⟨responses, last, hresta, hrestb⟩ := ih behind hrest
    exact ⟨response :: responses, last, by simp only [run, ha, hresta],
      by simp only [run, hb, hrestb]⟩

/-- Settings that differ in those parts at most that no request reads give the same responses. -/
theorem run_eq_of_agreeBut {except : List Setting} (s : Session) (hab : a.AgreeBut b except)
    (h : ∀ r ∈ requests, r.LeavesAlone except) :
    ((s.inForce a).run host requests).1 = ((s.inForce b).run host requests).1 := by
  have hreads : ∀ r ∈ requests, r.handlesSettings = false ∧
      ∀ setting, r.reads setting = true → a.get setting = b.get setting := by
    intro r hr
    obtain ⟨hhandles, hunread⟩ := h r hr
    refine ⟨hhandles, fun setting hread => hab setting fun hexcept => ?_⟩
    rw [hunread setting hexcept] at hread
    cases hread
  obtain ⟨responses, behind, ha, hb⟩ := run_inForce host s hreads
  rw [ha, hb]

/-- The default zone is of no consequence for matching, enumerating and searching unless a number
of seconds comes without a zone; the limit on ticks and the horizon are of none for matching, the
horizon is of none for enumerating, and whether seconds are compared is of none for searching.
Results, errors and warnings are the same, request by request. -/
theorem run_influence (host : Host) (s : Session) (a b : Settings) (requests : List Request) :
    (a.AgreeBut b [.defaultTimezone] →
      (∀ r ∈ requests,
        (r.isMatch || r.isEnumeration || r.isSearch) = true ∧ r.hasBareTimestamp = false) →
      ((s.inForce a).run host requests).1 = ((s.inForce b).run host requests).1) ∧
    (a.AgreeBut b [.maxScanTicks, .searchHorizonDays] →
      (∀ r ∈ requests, r.isMatch = true) →
      ((s.inForce a).run host requests).1 = ((s.inForce b).run host requests).1) ∧
    (a.AgreeBut b [.searchHorizonDays] →
      (∀ r ∈ requests, r.isEnumeration = true) →
      ((s.inForce a).run host requests).1 = ((s.inForce b).run host requests).1) ∧
    (a.AgreeBut b [.matchSeconds] →
      (∀ r ∈ requests, r.isSearch = true) →
      ((s.inForce a).run host requests).1 = ((s.inForce b).run host requests).1) :=
  ⟨fun hab h => s.run_eq_of_agreeBut hab fun r hr => .defaultTimezone (h r hr).1 (h r hr).2,
    fun hab h => s.run_eq_of_agreeBut hab fun r hr => .of_isMatch (h r hr),
    fun hab h => s.run_eq_of_agreeBut hab fun r hr => .of_isEnumeration (h r hr),
    fun hab h => s.run_eq_of_agreeBut hab fun r hr => .of_isSearch (h r hr)⟩

/-- Every day at noon, matched, enumerated and searched for under a default zone that exists
nowhere, is as it is under none; and each is as it is under settings that are of no consequence
for it. -/
theorem run_influence_noon :
    let noon : Pattern := {
      expression := "0 12 * * *"
      alternatives := [{
        layout := .standard, minute := .values (.ofList [0]), hour := .values (.ofList [12]) }] }
    let day : DateTime := .naive ⟨63844761600000000, by decide, by decide⟩
    let matching : List Request := [.accepts noon (.dateTime day) none none,
      .accepts noon (.timestamp 0) (some (.offset 3600)) none, .acceptsOwn noon (.dateTime day)]
    let enumerating : List Request := [.dates noon (.dateTime day) none 3 none none]
    let searching : List Request :=
      [.next noon day none, .openCursor "noons" noon day (some 2) none, .drain "noons"]
    let nowhere : Settings := { defaultTimezone := .text "Nowhere/Land" }
    let narrow : Settings := {
      maxScanTicks := .int 1, ticks_pos := .inr rfl, searchHorizonDays := .int 1 }
    let near : Settings := { searchHorizonDays := .int 1 }
    let exact : Settings := { matchSeconds := .bool true }
    ((inForce {} {}).run {} (matching ++ enumerating ++ searching)).1 =
        ((inForce {} nowhere).run {} (matching ++ enumerating ++ searching)).1 ∧
      ((inForce {} {}).run {} matching).1 = ((inForce {} narrow).run {} matching).1 ∧
      ((inForce {} {}).run {} enumerating).1 = ((inForce {} near).run {} enumerating).1 ∧
      ((inForce {} {}).run {} searching).1 = ((inForce {} exact).run {} searching).1 := by
  intro noon day matching enumerating searching nowhere narrow near exact
  refine ⟨(run_influence {} {} {} nowhere _).1 ?_ ?_,
    (run_influence {} {} {} narrow _).2.1 ?_ ?_, (run_influence {} {} {} near _).2.2.1 ?_ ?_,
    (run_influence {} {} {} exact _).2.2.2 ?_ ?_⟩
  -- the settings agree elsewhere, and the requests are of the kinds they are said to be
  case refine_1 | refine_3 | refine_5 | refine_7 =>
    intro setting hsetting
    cases setting <;> first | rfl | simp at hsetting
  all_goals
    simp [matching, enumerating, searching, Request.isMatch, Request.isEnumeration,
      Request.isSearch, Request.hasBareTimestamp, Instant.isTimestamp]

end Session

end CronSchedule
