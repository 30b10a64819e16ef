import CronSchedule.Proofs.Enumerate.NextNaive
import CronSchedule.Session.Cursor

/-!
# One cursor or one enumeration

A cursor makes one bounded search after the other, each from the result of the one before.
On the only clock there is no seam between them: a result is a whole second, or minute, so
the next search starts at the tick behind it, and the results are those of one enumeration
from the first tick to behind the last result.

What is load-bearing is that every search ends by the last midnight; what a search that
finds something has passed over, the enumeration passes over as well.

* `Session.Yields` — calls to advance a cursor, and the dates that they give;
* `Session.Keeps` — a session with settings in force and a cursor under a name;
* `Session.Yields.keeps` — the cursor behind its results;
* `Session.Yields.take_filter_eq` — the results are the first matches among all ticks;
* `Session.Yields.agrees` — so the cursor gives what one enumeration gives, and ends at its
  limit or where a search finds nothing, in no other way.
-/

namespace CronSchedule

/-! ### Runs -/

/-- Advancing the cursor under the name gives the dates, one call each. -/
inductive Session.Yields (host : Host) (name : String) : Session → List DateTime → Session → Prop
  | nil (s : Session) : Yields host name s [] s
  | cons {s behind reached : Session} {d : DateTime} {ds : List DateTime}
      (first : Call.outcome (Call.advance name) host s = (.ok d, behind))
      (rest : Yields host name behind ds reached) : Yields host name s (d :: ds) reached

/-- Opening a cursor with a limit that is not negative keeps it, and does nothing else. -/
theorem Call.eq_of_openCursor {host : Host} {s opened : Session} {name : String} {p : Pattern}
    {after : DateTime} {limit : Option Int} {matchSeconds : Option Bool} {remaining : Option Nat}
    (hopen : outcome (openCursor name p after limit matchSeconds) host s =
      (.ok remaining, opened)) :
    (∀ n ∈ limit, 0 ≤ n) ∧
      opened = { s with
        cursors := Entries.put s.cursors name
          ⟨p, after, limit.map Int.toNat, matchSeconds, false⟩ } := by
  simp only [openCursor, keepCursor, outcome_bind, outcome_ofResult] at hopen
  cases limit with
  | none =>
    cases hopen
    exact ⟨fun n hn => (by cases hn), rfl⟩
  | some n =>
    by_cases hneg : n < 0
    · simp only [Cursor.start, if_pos hneg] at hopen
      cases hopen
    · simp only [Cursor.start, if_neg hneg] at hopen
      cases hopen
      refine ⟨fun m hm => ?_, rfl⟩
      cases hm
      exact Int.not_lt.mp hneg

/-- Settings are in force, and a cursor is kept under the name. -/
structure Session.Keeps (s : Session) (inForce : Settings) (name : String) (c : Cursor) :
    Prop where
  settings : s.settings = some inForce
  cursor : Entries.get? s.cursors name = some c

/-- The cursor behind several results. -/
def Cursor.behind (c : Cursor) (ds : List DateTime) : Cursor :=
  ds.foldl (fun c d => c.advance (some d)) c

namespace Cursor

variable {c : Cursor} {ds : List DateTime}

@[simp] theorem pattern_behind : (c.behind ds).pattern = c.pattern := by
  induction ds generalizing c with
  | nil => rfl
  | cons d ds ih => exact ih

@[simp] theorem matchSeconds_behind : (c.behind ds).matchSeconds = c.matchSeconds := by
  induction ds generalizing c with
  | nil => rfl
  | cons d ds ih => exact ih

@[simp] theorem exhausted_behind : (c.behind ds).exhausted = c.exhausted := by
  induction ds generalizing c with
  | nil => rfl
  | cons d ds ih => exact ih

/-- The next search starts behind the last result. -/
theorem position_behind :
    (c.behind ds).position = (c.position :: ds).getLast (List.cons_ne_nil _ _) := by
  induction ds generalizing c with
  | nil => rfl
  | cons d ds ih => exact ih

theorem remaining_behind : (c.behind ds).remaining = c.remaining.map (· - ds.length) := by
  induction ds generalizing c with
  | nil => simp [behind]
  | cons d ds ih =>
    refine ih.trans ?_
    simp only [advance, Option.map_map, List.length_cons]
    refine congrArg (Option.map · c.remaining) (funext fun n => ?_)
    show n - 1 - ds.length = n - (ds.length + 1)
    omega

end Cursor

namespace Session.Keeps

variable {host : Host} {s : Session} {inForce : Settings} {name : String} {c : Cursor}

/-- Keeping another cursor under the name leaves the settings in force. -/
theorem put (h : s.Keeps inForce name c) (warnings : List CapWarning) (c' : Cursor) :
    Keeps { s with warnings := warnings, cursors := Entries.put s.cursors name c' }
      inForce name c' := by
  refine ⟨h.settings, ?_⟩
  rw [Entries.get?_put, beq_self_eq_true, if_pos rfl]

/-- A cursor that is done ends the run. -/
theorem advance_of_isDone (host : Host) (h : s.Keeps inForce name c) (hdone : c.isDone = true) :
    (Call.outcome (Call.advance name) host s).1 = .error (.fault .exhausted) := by
  simp [Call.advance, Call.cursor, Call.keepCursor, Call.outcome_bind, h.cursor,
    Call.outcome_step_of_isDone hdone]

/-- A search that returns gives its date, or ends the run when it has found none. -/
theorem advance_of_next (h : s.Keeps inForce name c) (hdone : c.isDone = false)
    {found : NextMatch}
    (hnext : c.pattern.next host.zones inForce c.position c.matchSeconds = .ok found) :
    Call.outcome (Call.advance name) host s =
      (match found.date with
        | some d => .ok d
        | none => .error (.fault .exhausted),
      { s with
        warnings := s.warnings ++ found.warning.toList
        cursors := Entries.put s.cursors name (c.advance found.date) }) := by
  simp only [Call.advance, Call.cursor, Call.keepCursor, Call.outcome_bind, Call.outcome_get,
    h.cursor, Call.outcome_pure, Call.outcome_step hdone, Call.outcome_next h.settings, hnext,
    Call.outcome_modify]
  cases found.date <;> rfl

theorem advance_of_error (h : s.Keeps inForce name c) (hdone : c.isDone = false) {e : Error}
    (hnext : c.pattern.next host.zones inForce c.position c.matchSeconds = .error e) :
    Call.outcome (Call.advance name) host s = (.error e, s) := by
  simp only [Call.advance, Call.cursor, Call.outcome_bind, Call.outcome_get, h.cursor,
    Call.outcome_pure, Call.outcome_step hdone, Call.outcome_next h.settings, hnext]

/-- A result is that of the search behind the cursor's position. -/
theorem of_advance (h : s.Keeps inForce name c) {d : DateTime} {behind : Session}
    (hadvance : Call.outcome (Call.advance name) host s = (.ok d, behind)) :
    c.isDone = false ∧
      (∃ warning, c.pattern.next host.zones inForce c.position c.matchSeconds =
        .ok ⟨some d, warning⟩) ∧
      behind.Keeps inForce name (c.advance (some d)) := by
  cases hdone : c.isDone with
  | true =>
    have hend := h.advance_of_isDone host hdone
    rw [hadvance] at hend
    cases hend
  | false =>
    cases hnext : c.pattern.next host.zones inForce c.position c.matchSeconds with
    | error e =>
      rw [h.advance_of_error hdone hnext] at hadvance
      cases hadvance
    | ok found =>
      rw [h.advance_of_next hdone hnext] at hadvance
      obtain ⟨date, warning⟩ := found
      cases date with
      | none => cases hadvance
      | some e =>
        cases hadvance
        exact ⟨rfl, ⟨warning, rfl⟩, h.put _ _⟩

/-- A cursor that is opened is kept, and its limit is not negative. -/
theorem of_openCursor {opened : Session} {p : Pattern} {after : DateTime} {limit : Option Int}
    {matchSeconds : Option Bool} {remaining : Option Nat} (hs : s.settings = some inForce)
    (hopen : Call.outcome (Call.openCursor name p after limit matchSeconds) host s =
      (.ok remaining, opened)) :
    (∀ n ∈ limit, 0 ≤ n) ∧
      opened.Keeps inForce name ⟨p, after, limit.map Int.toNat, matchSeconds, false⟩ := by
  obtain ⟨hnonneg, rfl⟩ := Call.eq_of_openCursor hopen
  refine ⟨hnonneg, hs, ?_⟩
  rw [Entries.get?_put, beq_self_eq_true, if_pos rfl]

end Session.Keeps

/-! ### The windows of a run -/

/-- The search behind each of the dates opens a window, unless no more is wanted there. -/
def Settings.OpensWindows (settings : Settings) (withSeconds : Bool) (limit : Option Nat)
    (dates : List DateTime) : Prop :=
  ∀ (i : Nat) (d : DateTime), dates[i]? = some d → limit ≠ some i →
    ∃ start stop, SearchWindow settings withSeconds d.wall start stop

namespace Settings.OpensWindows

variable {settings : Settings} {withSeconds : Bool} {limit : Option Nat} {d : DateTime}
  {ds : List DateTime}

theorem head (h : settings.OpensWindows withSeconds limit (d :: ds)) (hmore : limit ≠ some 0) :
    ∃ start stop, SearchWindow settings withSeconds d.wall start stop :=
  h 0 d rfl hmore

/-- Behind the first date one less is wanted. -/
theorem tail (h : settings.OpensWindows withSeconds limit (d :: ds)) :
    settings.OpensWindows withSeconds (limit.map (· - 1)) ds := by
  intro i e he hlimit
  refine h (i + 1) e he fun hlast => hlimit ?_
  rw [hlast]
  rfl

/-- Behind the last date there is a window unless the limit is reached. -/
theorem last (h : settings.OpensWindows withSeconds limit (d :: ds))
    (hmore : limit ≠ some ds.length) :
    ∃ start stop, SearchWindow settings withSeconds
      ((d :: ds).getLast (List.cons_ne_nil _ _)).wall start stop := by
  refine h ds.length _ ?_ hmore
  rw [List.getLast_eq_getElem]
  exact List.getElem?_eq_getElem _

end Settings.OpensWindows

/-! ### The results of a run -/

/-- Without zones one result is the first match in the window of its search. -/
theorem Session.Keeps.exists_find?_of_advance {host : Host} {s behind : Session}
    {inForce : Settings} {name : String} {c : Cursor} (hkeeps : s.Keeps inForce name c)
    (hcap : inForce.tickLimit = none) (hzone : c.position.zone = none) {withSeconds : Bool}
    (hseconds : c.pattern.searchesSeconds c.matchSeconds = withSeconds) {ds : List DateTime}
    (hwindows : inForce.OpensWindows withSeconds c.remaining (c.position :: ds)) {d : DateTime}
    (hadvance : Call.outcome (Call.advance name) host s = (.ok d, behind)) :
    ∃ (start stop t : WallTime), SearchWindow inForce withSeconds c.position.wall start stop ∧
      (start.ticksUntil stop (tickStep withSeconds)).find? (c.pattern.admits withSeconds) =
        some t ∧
      d = .naive t ∧ behind.Keeps inForce name (c.advance (some d)) := by
  obtain ⟨hdone, ⟨warning, hnext⟩, hbehind⟩ := hkeeps.of_advance hadvance
  have hmore : c.remaining ≠ some 0 := fun hnone => by simp [Cursor.isDone, hnone] at hdone
  obtain ⟨start, stop, hwindow⟩ := hwindows.head hmore
  rw [Pattern.next_naive hzone hwindow hcap hseconds] at hnext
  obtain ⟨t, hfind, rfl⟩ := Option.map_eq_some_iff.mp (congrArg NextMatch.date
    (Except.ok.inj hnext))
  exact ⟨start, stop, t, hwindow, hfind, rfl, hbehind⟩

/-- A cursor that is not done ends exactly where its search finds nothing, and gives a date
everywhere else. -/
theorem Session.Keeps.exhausted_iff (host : Host) {s : Session} {inForce : Settings}
    {name : String} {c : Cursor} (hkeeps : s.Keeps inForce name c)
    (hcap : inForce.tickLimit = none) (hzone : c.position.zone = none) {withSeconds : Bool}
    (hseconds : c.pattern.searchesSeconds c.matchSeconds = withSeconds)
    (hdone : c.isDone = false) {start stop : WallTime}
    (hwindow : SearchWindow inForce withSeconds c.position.wall start stop) :
    ((Call.outcome (Call.advance name) host s).1 = .error (.fault .exhausted) ↔
      ∀ w : WallTime, start.micros ≤ w.micros → w.micros < stop.micros →
        c.pattern.matchesWall w withSeconds = .ok false) ∧
    ((Call.outcome (Call.advance name) host s).1 = .error (.fault .exhausted) ∨
      ∃ d, (Call.outcome (Call.advance name) host s).1 = .ok d) := by
  rw [hkeeps.advance_of_next hdone (Pattern.next_naive hzone hwindow hcap hseconds host.zones),
    ← hwindow.find?_eq_none_iff]
  cases (start.ticksUntil stop (tickStep withSeconds)).find? (c.pattern.admits withSeconds) with
  | none => exact ⟨⟨fun _ => rfl, fun _ => rfl⟩, .inl rfl⟩
  | some t => exact ⟨⟨fun h => (by cases h), fun h => (by cases h)⟩, .inr ⟨_, rfl⟩⟩

namespace Session.Yields

variable {host : Host} {s reached : Session} {inForce : Settings} {name : String} {c : Cursor}
  {ds : List DateTime}

/-- Behind its results the cursor is kept. -/
theorem keeps (h : Yields host name s ds reached) (hkeeps : s.Keeps inForce name c) :
    reached.Keeps inForce name (c.behind ds) := by
  induction h generalizing c with
  | nil s => exact hkeeps
  | cons first rest ih =>
    obtain ⟨-, -, hbehind⟩ := hkeeps.of_advance first
    exact ih hbehind

/-- A cursor with a limit gives no more dates than that. -/
theorem length_le (h : Yields host name s ds reached) (hkeeps : s.Keeps inForce name c) {n : Nat}
    (hn : c.remaining = some n) : ds.length ≤ n := by
  induction h generalizing c n with
  | nil s => exact Nat.zero_le n
  | cons first rest ih =>
    obtain ⟨hdone, -, hbehind⟩ := hkeeps.of_advance first
    have hrest := ih (n := n - 1) hbehind (by simp [Cursor.advance, hn])
    have hpos : n ≠ 0 := by
      rintro rfl
      simp [Cursor.isDone, hn] at hdone
    rw [List.length_cons]
    omega

/-- Without zones the results are the first matches among all ticks from the first one behind
the cursor's position on. -/
theorem take_filter_eq (h : Yields host name s ds reached) (hkeeps : s.Keeps inForce name c)
    (hcap : inForce.tickLimit = none) (hzone : c.position.zone = none) {withSeconds : Bool}
    (hseconds : c.pattern.searchesSeconds c.matchSeconds = withSeconds)
    (hwindows : inForce.OpensWindows withSeconds c.remaining (c.position :: ds))
    {start stop : WallTime}
    (hstart : start.micros = c.position.wall.micros -
      c.position.wall.micros % tickStep withSeconds + tickStep withSeconds)
    (hstop : ∀ d ∈ ds, d.wall.micros < stop.micros) :
    (((start.ticksUntil stop (tickStep withSeconds)).filter
      (c.pattern.admits withSeconds)).take ds.length).map .naive = ds := by
  induction h generalizing c start with
  | nil s => rfl
  | @cons s behind reached d ds first rest ih =>
    obtain ⟨start', stop', t, hwindow, hfind, rfl, hbehind⟩ :=
      hkeeps.exists_find?_of_advance hcap hzone hseconds hwindows first
    obtain rfl : start' = start := WallTime.ext (hwindow.start_eq.trans hstart.symm)
    have hpos := (tickStep_bounds withSeconds).1
    obtain ⟨hmem, -, -⟩ := WallTime.find?_ticksUntil_eq_some hpos hfind
    obtain ⟨hlt, k, hk⟩ := (WallTime.mem_ticksUntil hpos).mp hmem
    obtain ⟨next, hstep⟩ : ∃ next, t.add? (tickStep withSeconds) = some next := by
      have hminute := (tickStep_bounds withSeconds).2
      have hroom : lastMidnight + microsPerMinute < calendarEnd := by decide
      have hend := hwindow.stop_le
      have hnonneg := t.nonneg
      exact ⟨⟨_, by omega, by omega⟩, WallTime.add?_eq_some_iff.mpr rfl⟩
    -- the result is a whole second, or minute, and the next search starts at the tick behind it
    have hwhole : t.micros % tickStep withSeconds = 0 := by
      rw [hk, Int.add_mul_emod_self_left, hwindow.start_whole]
    have hseam : next.micros = t.micros - t.micros % tickStep withSeconds +
        tickStep withSeconds := by
      rw [hwhole, Int.sub_zero, WallTime.add?_eq_some_iff.mp hstep]
    have hrest := ih hbehind rfl hseconds hwindows.tail hseam
      fun e he => hstop e (List.mem_cons_of_mem _ he)
    rw [WallTime.filter_ticksUntil_of_find? hpos hfind (hstop _ List.mem_cons_self) hstep,
      List.length_cons, List.take_succ_cons, List.map_cons]
    exact congrArg (_ :: ·) hrest

/-- Without zones the cursor stays without one. -/
theorem zone_eq_none (h : Yields host name s ds reached) (hkeeps : s.Keeps inForce name c)
    (hcap : inForce.tickLimit = none) (hzone : c.position.zone = none) {withSeconds : Bool}
    (hseconds : c.pattern.searchesSeconds c.matchSeconds = withSeconds)
    (hwindows : inForce.OpensWindows withSeconds c.remaining (c.position :: ds)) :
    (c.behind ds).position.zone = none := by
  induction h generalizing c with
  | nil s => exact hzone
  | cons first rest ih =>
    obtain ⟨-, -, t, -, -, rfl, hbehind⟩ :=
      hkeeps.exists_find?_of_advance hcap hzone hseconds hwindows first
    exact ih hbehind rfl hseconds hwindows.tail

/-- A cursor is done behind so many results exactly when its limit says so. -/
theorem isDone_iff (h : Yields host name s ds reached) {p : Pattern} {after : DateTime}
    {limit : Option Int} {matchSeconds : Option Bool} (hnonneg : ∀ n ∈ limit, 0 ≤ n)
    (hkeeps : s.Keeps inForce name ⟨p, after, limit.map Int.toNat, matchSeconds, false⟩) :
    (Cursor.behind ⟨p, after, limit.map Int.toNat, matchSeconds, false⟩ ds).isDone = true ↔
      limit = some (ds.length : Int) := by
  rw [Cursor.isDone, Cursor.exhausted_behind, Cursor.remaining_behind, Bool.false_or, beq_iff_eq]
  cases limit with
  | none => simp
  | some n =>
    have hle := h.length_le hkeeps (n := n.toNat) rfl
    have hn := hnonneg n rfl
    simp only [Option.map_some, Option.some.injEq]
    omega

/-- Without zones the results are those of one enumeration that ends behind them. -/
theorem matchedDates_eq (h : Yields host name s ds reached) (hkeeps : s.Keeps inForce name c)
    (hcap : inForce.tickLimit = none) (hzone : c.position.zone = none) {withSeconds : Bool}
    (hseconds : c.pattern.searchesSeconds c.matchSeconds = withSeconds)
    (hwindows : inForce.OpensWindows withSeconds c.remaining (c.position :: ds))
    {start stop : WallTime}
    (hstart : start.micros = c.position.wall.micros -
      c.position.wall.micros % tickStep withSeconds + tickStep withSeconds)
    (hstop : ∀ d ∈ ds, d.wall.micros < stop.micros) (hend : stop.micros ≤ lastMidnight)
    (hne : ds ≠ []) (zones : ZoneTable) :
    c.pattern.matchedDates zones inForce (.dateTime (.naive start))
        (some (.dateTime (.naive stop))) ds.length (some withSeconds) none =
      .ok ⟨ds, none⟩ := by
  have hfirst := h.take_filter_eq hkeeps hcap hzone hseconds hwindows hstart hstop
  have hlt : start.micros < stop.micros := by
    refine Int.not_le.mp fun hle => hne ?_
    rw [← hfirst, WallTime.ticksUntil_of_le (tickStep_bounds withSeconds).1 hle,
      List.filter_nil, List.take_nil, List.map_nil]
  have hcount : (1 : Int) ≤ ds.length := Int.ofNat_le.mpr (List.length_pos_iff.mpr hne)
  have hmatched := c.pattern.matchedDates_of_naive zones hcap (DateTime.zone_naive start)
    (DateTime.zone_naive stop) hlt hend hcount (some withSeconds) none
  refine hmatched.trans (congrArg Except.ok ?_)
  exact congrArg (Enumeration.mk · none) hfirst

/-- The dates that a cursor without zones gives are those of one enumeration, from the first
whole second, or minute, behind the instant at which it was opened to any reading behind them;
and the run ends where the limit is reached or no reading of the next search's window is a
match, and goes on everywhere else. -/
theorem agrees {s opened reached : Session} {p : Pattern} {after : DateTime} {limit : Option Int}
    {matchSeconds : Option Bool} {remaining : Option Nat} {withSeconds : Bool}
    (hs : s.settings = some inForce) (hcap : inForce.tickLimit = none) (hzone : after.zone = none)
    (hseconds : p.searchesSeconds matchSeconds = withSeconds)
    (hopen : Call.outcome (Call.openCursor name p after limit matchSeconds) host s =
      (.ok remaining, opened))
    (h : Yields host name opened ds reached)
    (hwindows : inForce.OpensWindows withSeconds (limit.map Int.toNat) (after :: ds)) :
    (∀ start stop : WallTime,
      start.micros = after.wall.micros - after.wall.micros % tickStep withSeconds +
        tickStep withSeconds →
      (∀ d ∈ ds, d.wall.micros < stop.micros) → stop.micros ≤ lastMidnight → ds ≠ [] →
      Call.outcome (Call.dates p (.dateTime (.naive start)) (some (.dateTime (.naive stop)))
        ds.length (some withSeconds) none) host s = (.ok ds, s)) ∧
    ((Call.outcome (Call.advance name) host reached).1 = .error (.fault .exhausted) ↔
      limit = some (ds.length : Int) ∨
        ∃ start stop, SearchWindow inForce withSeconds
            ((after :: ds).getLast (List.cons_ne_nil _ _)).wall start stop ∧
          ∀ w : WallTime, start.micros ≤ w.micros → w.micros < stop.micros →
            p.matchesWall w withSeconds = .ok false) ∧
    ((Call.outcome (Call.advance name) host reached).1 = .error (.fault .exhausted) ∨
      ∃ d, (Call.outcome (Call.advance name) host reached).1 = .ok d) := by
  obtain ⟨hnonneg, hkeeps⟩ := Keeps.of_openCursor hs hopen
  have hbehind := h.keeps hkeeps
  refine ⟨fun start stop hstart hstop hend hne => ?_, ?_⟩
  · rw [Call.outcome_dates hs, h.matchedDates_eq hkeeps hcap hzone hseconds hwindows hstart hstop
      hend hne]
    simp
  · have hdone := h.isDone_iff hnonneg hkeeps
    by_cases hlimit : limit = some (ds.length : Int)
    · have hend := hbehind.advance_of_isDone host (hdone.mpr hlimit)
      exact ⟨⟨fun _ => .inl hlimit, fun _ => hend⟩, .inl hend⟩
    · have hmore : limit.map Int.toNat ≠ some ds.length := by
        intro hsome
        obtain ⟨n, rfl, hn⟩ := Option.map_eq_some_iff.mp hsome
        have := hnonneg n rfl
        exact hlimit (congrArg some (by omega))
      obtain ⟨start, stop, hwindow⟩ := hwindows.last hmore
      obtain ⟨hiff, hcases⟩ := hbehind.exhausted_iff host hcap
        (h.zone_eq_none hkeeps hcap hzone hseconds hwindows) (by simpa using hseconds)
        (Bool.eq_false_iff.mpr (mt hdone.mp hlimit)) (by rwa [Cursor.position_behind])
      rw [Cursor.pattern_behind] at hiff
      refine ⟨hiff.trans ⟨fun hrefused => .inr ⟨start, stop, hwindow, hrefused⟩, ?_⟩, hcases⟩
      rintro (hreached | ⟨start', stop', hwindow', hrefused⟩)
      · exact absurd hreached hlimit
      · obtain ⟨rfl, rfl⟩ := hwindow.eq hwindow'
        exact hrefused

/-- The last minute of 28 February and the first of 1 March. -/
def aroundLeapDay : Pattern where
  expression := "59 23 28 2 * | 0 0 1 3 *"
  alternatives := [{
    layout := .standard
    minute := .values (.ofList [59])
    hour := .values (.ofList [23])
    dayOfMonth := .values (.ofList [28])
    month := .values (.ofList [2]) }, {
    layout := .standard
    minute := .values (.ofList [0])
    hour := .values (.ofList [0])
    dayOfMonth := .values (.ofList [1])
    month := .values (.ofList [3]) }]

/-- From half a minute past 23:57 on 28 February 2024 a cursor for two dates gives one before and one
behind the leap day, as an enumeration from 23:58 to a minute behind the second does, and then
ends. -/
theorem agrees_aroundLeapDay :
    let after : DateTime := .naive ⟨63844761450000000, by decide, by decide⟩
    let ds : List DateTime := [.naive ⟨63844761540000000, by decide, by decide⟩,
      .naive ⟨63844848000000000, by decide, by decide⟩]
    ∃ opened reached,
      Call.outcome (Call.openCursor "leap" aroundLeapDay after (some 2) none) {}
        { settings := some {} } = (.ok (some 2), opened) ∧
      Yields {} "leap" opened ds reached ∧
      Call.outcome (Call.dates aroundLeapDay
        (.dateTime (.naive ⟨63844761480000000, by decide, by decide⟩))
        (some (.dateTime (.naive ⟨63844848060000000, by decide, by decide⟩))) 2 (some false) none)
        {} { settings := some {} } = (.ok ds, { settings := some {} }) ∧
      (Call.outcome (Call.advance "leap") {} reached).1 = .error (.fault .exhausted) := by
  intro after ds
  have hopen := Call.outcome_eq_of_toOption {} (s := { settings := some {} })
    (c := Call.openCursor "leap" aroundLeapDay after (some 2) none) (a := some 2) (by decide)
  have hfirst := Call.outcome_eq_of_toOption {} (c := Call.advance "leap")
    (s := (Call.outcome (Call.openCursor "leap" aroundLeapDay after (some 2) none) {}
      { settings := some {} }).2)
    (a := .naive ⟨63844761540000000, by decide, by decide⟩) (by decide +kernel)
  have hsecond := Call.outcome_eq_of_toOption {} (c := Call.advance "leap")
    (s := (Call.outcome (Call.advance "leap") {}
      (Call.outcome (Call.openCursor "leap" aroundLeapDay after (some 2) none) {}
        { settings := some {} }).2).2)
    (a := .naive ⟨63844848000000000, by decide, by decide⟩) (by decide +kernel)
  have hrun : Yields {} "leap" _ ds _ := .cons hfirst (.cons hsecond (.nil _))
  have hwindows : ({} : Settings).OpensWindows false (some 2) (after :: ds) := by
    intro i d hi hmore
    have hdays : ({} : Settings).searchHorizonDays = .int 1464 := rfl
    refine Settings.exists_searchWindow hdays ?_ false
    match i, hi with
    | 0, hi => cases hi; decide
    | 1, hi => cases hi; decide
    | 2, _ => exact absurd rfl hmore
  obtain ⟨hdates, hend, -⟩ := agrees rfl rfl rfl rfl hopen hrun hwindows
  refine ⟨_, _, hopen, hrun, hdates _ _ ?_ ?_ ?_ ?_, hend.mpr (.inl rfl)⟩
  · decide
  · decide
  · decide
  · decide

end Session.Yields

end CronSchedule
