import CronSchedule.Proofs.Enumerate.Granularity
import CronSchedule.Proofs.Session.Capped
import CronSchedule.Proofs.Session.Lifecycle
import CronSchedule.Proofs.Session.Setback

/-!
# What is found is accepted

A search compares seconds when the pattern names them, matching when it is asked to or when the
settings say so.  That the two agree on whatever a search returns rests on how alternatives are
compiled: one that names no second tests none.  So a pattern without seconds accepts a reading
with its second as it does without, and whatever is accepted with the second is accepted without
it.

No zone enters.  A search tests what the clock of its own start shows, and this is what it
returns, written on that clock; so it comes back as it was tested, even where the clock shows one
reading twice.

* `Pattern.admits_of_admits_own` — what is accepted as the pattern names it is accepted both ways;
* `Window.admits_of_enumerate`, `Pattern.admits_of_next` — what is listed, or found, is accepted
  as it was looked for;
* `Pattern.AlwaysAccepts` — a date is accepted however the pattern is asked about it;
* `Session.Seeks` — the cursor under a name is one of the pattern, `Event.seeks_behind` — and it
  stays one;
* `Event.yields` — the dates that a request takes from a cursor;
* `Pattern.alwaysAccepts_of_found` — whatever searches and cursors give is always accepted.
-/

namespace CronSchedule

open Call (outcome)

/-! ### Both granularities -/

namespace Pattern

variable {expression : String} {p : Pattern}

/-- An alternative that names no second tests none. -/
theorem second_eq_any_of_compile (hcompile : compile expression = .ok p) {a : Alternative}
    (ha : a ∈ p.alternatives) (hlayout : a.layout.hasSeconds = false) : a.second = .any :=
  slot_eq_any_of_compile (f := .second) hcompile ha (by simpa [Layout.hasSeconds] using hlayout)

/-- What a pattern accepts with the seconds that it names, it accepts with seconds and without. -/
theorem admits_of_admits_own (hcompile : compile expression = .ok p) {w : WallTime}
    (h : p.admits p.hasSeconds w = true) (withSeconds : Bool) : p.admits withSeconds w = true := by
  obtain ⟨a, ha, haccepts⟩ := (accepts_eq_true_iff (w.daysInMonth?_reading p.hasSeconds)).mp
    (admits_eq_true_iff.mp h)
  refine admits_eq_true_iff.mpr ((accepts_eq_true_iff (w.daysInMonth?_reading withSeconds)).mpr
    ⟨a, ha, ?_⟩)
  cases hseconds : p.hasSeconds with
  | true =>
    rw [hseconds] at haccepts
    cases withSeconds with
    | true => exact haccepts
    | false => exact ((a.accepts_second_iff w).mp haccepts).2
  | false =>
    rw [hseconds] at haccepts
    cases withSeconds with
    | true =>
      have hlayout : a.layout.hasSeconds = false :=
        Bool.eq_false_iff.mpr (List.any_eq_false.mp hseconds a ha)
      refine (a.accepts_second_iff w).mpr ⟨?_, haccepts⟩
      rw [second_eq_any_of_compile hcompile ha hlayout, Matcher.accepts_any]
    | false => exact haccepts

end Pattern

/-! ### What searches return -/

/-- Without a zone of its own an enumeration lists what the pattern accepts, as the clock of the
start shows it. -/
theorem Window.admits_of_enumerate {w : Window} {zones : ZoneTable} {settings : Settings}
    {p : Pattern} {matchSeconds : Option Bool} {found : Enumeration} (hcount : 0 < w.count)
    (h : w.enumerate zones settings p matchSeconds none = .ok found) {d : DateTime}
    (hd : d ∈ found.dates) :
    p.admits (matchSeconds.getD settings.comparesSeconds) d.wall = true := by
  obtain ⟨scan, first, shown, result, hloops, hrun, hdates, -⟩ := exists_loops_of_enumerate h
  obtain ⟨tick, htick, hshown⟩ := List.mem_map.mp (map_eq_of_mapM hdates ▸ List.mem_map_of_mem hd)
  obtain ⟨more, hticks, -, hsub⟩ := Scan.run_sublist _ _ _ _ hrun hcount
  obtain rfl : result.ticks = more := hticks
  have hhit : scan.hits tick = true := (List.mem_filter.mp (hsub.subset htick)).2
  -- the date that is written is the one that was tested
  cases hloops with
  | naive hzone =>
    have hread : Scan.read ⟨p, none, matchSeconds.getD settings.comparesSeconds, w.stop.wall⟩ tick =
        some d := hshown
    rwa [Scan.hits_eq_of_read hread] at hhit
  | aware hzone hclock hfirst hlast =>
    cases hclock
    rwa [Scan.hits_eq_of_read ((Scan.read_of_clock rfl tick).trans hshown)] at hhit

/-- A search returns what the pattern accepts, seconds compared as in the search. -/
theorem Pattern.admits_of_next {p : Pattern} {zones : ZoneTable} {settings : Settings}
    {after d : DateTime} {matchSeconds : Option Bool} {found : NextMatch}
    (h : p.next zones settings after matchSeconds = .ok found) (hd : found.date = some d) :
    p.admits (p.searchesSeconds matchSeconds) d.wall = true := by
  obtain ⟨start, span, stop, w, listed, -, -, -, hcheck, hlisted, hfound⟩ :=
    exists_window_of_next h
  rw [hd] at hfound
  exact Window.admits_of_enumerate (Window.count_pos_of_check hcheck) hlisted
    (List.mem_of_mem_head? hfound.symm)

/-- Whatever a session holds, a date is accepted by the pattern: as the pattern names it, when
seconds are asked for or not, and as the settings say that are there. -/
structure Pattern.AlwaysAccepts (p : Pattern) (d : DateTime) : Prop where
  own : ∀ host s, outcome (Call.acceptsOwn p (.dateTime d)) host s = (.ok true, s)
  asked : ∀ host s withSeconds,
    outcome (Call.accepts p (.dateTime d) none (some withSeconds)) host s = (.ok true, s)
  configured : ∀ host s inForce behind, outcome Call.settings host s = (.ok inForce, behind) →
    outcome (Call.accepts p (.dateTime d) none none) host s = (.ok true, behind)

namespace Pattern

variable {expression : String} {p : Pattern} {d : DateTime}

/-- A date is always accepted when it is accepted both ways. -/
theorem AlwaysAccepts.of_admits (h : ∀ withSeconds, p.admits withSeconds d.wall = true) :
    p.AlwaysAccepts d where
  own host s := by rw [Call.acceptsOwn, Call.outcome_accepts_dateTime, h]
  asked host s withSeconds := by rw [Call.outcome_accepts_dateTime, h]
  configured host s inForce behind hsettings := by
    have hshown : outcome (Call.dateTimeIn d none) host behind = (.ok d, behind) := rfl
    have hanswer := Call.outcome_accepts_of_shown (p := p)
      (Call.settings_eq_some_of_outcome hsettings) hshown (some inForce.comparesSeconds)
    have hcompares : outcome (Call.comparesSeconds none) host s =
        (.ok inForce.comparesSeconds, behind) := by
      simp only [Call.comparesSeconds, Call.outcome_bind, hsettings, Call.outcome_pure]
    rw [Call.accepts, Call.outcome_bind, hcompares]
    exact hanswer.trans (by rw [h])

/-- A call that searches with the seconds of the pattern returns what is always accepted. -/
theorem alwaysAccepts_of_next (hcompile : compile expression = .ok p) {host : Host}
    {s behind : Session} {after : DateTime}
    (h : outcome (Call.next p after none) host s = (.ok (some d), behind)) :
    p.AlwaysAccepts d := by
  obtain ⟨inForce, found, -, hnext, hfound⟩ := Call.exists_next_of_outcome h
  exact .of_admits (admits_of_admits_own hcompile (admits_of_next hnext hfound.symm))

end Pattern

/-! ### What cursors give -/

/-- The session keeps a cursor of the pattern under the name, which leaves seconds to the
pattern. -/
def Session.Seeks (name : String) (p : Pattern) (s : Session) : Prop :=
  ∃ c, Entries.get? s.cursors name = some c ∧ c.pattern = p ∧ c.matchSeconds = none

namespace Call

variable {expression name : String} {p : Pattern} {host : Host} {s behind : Session}

theorem seeks_of_openCursor {after : DateTime} {limit : Option Int} {count : Option Nat}
    (h : outcome (openCursor name p after limit none) host s = (.ok count, behind)) :
    behind.Seeks name p := by
  obtain ⟨c, _, hstart, h⟩ := exists_of_outcome_bind h
  obtain ⟨hstart, rfl⟩ := eq_ok_of_outcome_ofResult hstart
  obtain ⟨_, _, hkept, h⟩ := exists_of_outcome_bind h
  cases h
  cases hkept
  have hfresh : c.pattern = p ∧ c.matchSeconds = none := by
    unfold Cursor.start at hstart
    split at hstart
    · cases hstart
      exact ⟨rfl, rfl⟩
    · split at hstart
      · cases hstart
      · cases hstart
        exact ⟨rfl, rfl⟩
  exact ⟨c, by rw [Entries.get?_put, beq_self_eq_true, if_pos rfl], hfresh⟩

/-- Advancing keeps the pattern of a cursor, and how seconds are compared. -/
theorem seeks_advance (h : s.Seeks name p) : (outcome (advance name) host s).2.Seeks name p := by
  obtain ⟨c, hc, hpattern, hseconds⟩ := h
  obtain ⟨c', warnings, hadvanced, hbehind⟩ := advance_behind host hc
  rw [hbehind]
  refine ⟨c', by rw [Entries.get?_put, beq_self_eq_true, if_pos rfl], ?_⟩
  generalize (outcome (advance name) host s).1 = result at hadvanced
  cases hadvanced with
  | done _ | found _ d | nothing _ | failed _ _ => exact ⟨hpattern, hseconds⟩

/-- A date that a cursor gives is one that a search has returned. -/
theorem exists_next_of_advance {c : Cursor} (hc : Entries.get? s.cursors name = some c)
    {d : DateTime} (h : outcome (advance name) host s = (.ok d, behind)) :
    ∃ between, outcome (next c.pattern c.position c.matchSeconds) host s =
      (.ok (some d), between) := by
  have hcursor : outcome (cursor name) host s = (.ok c, s) := by
    rw [outcome_cursor, hc, Option.elim_some]
  obtain ⟨_, _, hfirst, h⟩ := exists_of_outcome_bind h
  cases hcursor.symm.trans hfirst
  obtain ⟨⟨date, c'⟩, between, hstep, h⟩ := exists_of_outcome_bind h
  obtain ⟨_, _, -, h⟩ := exists_of_outcome_bind h
  cases date with
  | none => cases h
  | some e =>
    cases h
    cases hdone : c.isDone with
    | true =>
      rw [outcome_step_of_isDone hdone] at hstep
      cases hstep
    | false =>
      rw [step, if_neg (by simp [hdone])] at hstep
      obtain ⟨date, _, hnext, hstep⟩ := exists_of_outcome_bind hstep
      cases hstep
      exact ⟨_, hnext⟩

theorem alwaysAccepts_of_advance (hcompile : Pattern.compile expression = .ok p)
    (hs : s.Seeks name p) {d : DateTime}
    (h : outcome (advance name) host s = (.ok d, behind)) : p.AlwaysAccepts d := by
  obtain ⟨c, hc, rfl, hseconds⟩ := hs
  obtain ⟨between, hnext⟩ := exists_next_of_advance hc h
  rw [hseconds] at hnext
  exact Pattern.alwaysAccepts_of_next hcompile hnext

/-- Taking all matches keeps the pattern of the cursor as well, and what it adds to those taken
before is always accepted: by induction on the steps, each of which advances the cursor. -/
theorem drainFor_behind (hcompile : Pattern.compile expression = .ok p) (steps : Nat) :
    ∀ {s : Session} {taken : List DateTime}, s.Seeks name p → (∀ d ∈ taken, p.AlwaysAccepts d) →
      (outcome (drainFor name steps taken) host s).2.Seeks name p ∧
        ∀ ds ∈ (outcome (drainFor name steps taken) host s).1.toOption,
          ∀ d ∈ ds, p.AlwaysAccepts d := by
  have hreturned {taken : List DateTime} (htaken : ∀ d ∈ taken, p.AlwaysAccepts d) :
      ∀ ds ∈ some taken.reverse, ∀ d ∈ ds, p.AlwaysAccepts d := by
    intro ds hds d hd
    cases hds
    exact htaken d (List.mem_reverse.mp hd)
  induction steps with
  | zero => exact fun hs htaken => ⟨hs, hreturned htaken⟩
  | succ steps ih =>
    intro s taken hs htaken
    have hbehind : (outcome (advance name) host s).2.Seeks name p := seeks_advance hs
    rw [outcome_drainFor_succ]
    cases hadvance : outcome (advance name) host s with
    | mk result between =>
      rw [hadvance] at hbehind
      cases result with
      | ok d =>
        exact ih hbehind (List.forall_mem_cons.mpr
          ⟨alwaysAccepts_of_advance hcompile hs hadvance, htaken⟩)
      | error e =>
        split
        · next heq => cases heq
        · next heq =>
          cases heq
          exact ⟨hbehind, hreturned htaken⟩
        · next heq =>
          cases heq
          exact ⟨hbehind, fun ds hds => by cases hds⟩

theorem drain_behind (host : Host) (hcompile : Pattern.compile expression = .ok p)
    (hs : s.Seeks name p) :
    (outcome (drain name) host s).2.Seeks name p ∧
      ∀ ds ∈ (outcome (drain name) host s).1.toOption, ∀ d ∈ ds, p.AlwaysAccepts d := by
  obtain ⟨c, hc, -⟩ := id hs
  rw [drain, outcome_bind, outcome_cursor, hc, Option.elim_some]
  exact drainFor_behind hcompile _ hs fun d hd => by cases hd

end Call

/-! ### Runs of requests -/

/-- The request opens a cursor under the name. -/
def Request.Opens (name : String) : Request → Prop
  | openCursor opened _ _ _ _ => opened = name
  | _ => False

/-- A request that neither opens nor drains the cursor spares it. -/
theorem Request.spares_of_not_opens {name : String} {r : Request} (hopens : ¬ r.Opens name)
    (hdrain : r ≠ .drain name) : r.Spares name := by
  intro hname
  cases r with
  | openCursor _ _ _ _ _ => exact absurd (Option.some.inj hname) hopens
  | advance _ => exact .inl (congrArg _ (Option.some.inj hname))
  | drain _ => exact absurd (congrArg _ (Option.some.inj hname)) hdrain
  | remaining _ => exact .inr (congrArg _ (Option.some.inj hname))
  | _ => cases hname

namespace Event

variable {expression name : String} {p : Pattern} {host : Host} {e : Event host}

/-- The dates that the request takes from the cursor under the name, by one step or by all. -/
def yields (name : String) (e : Event host) : List DateTime :=
  match e.request, e.response.result with
  | .advance taken, .ok (.date date) => if taken = name then date.toList else []
  | .drain taken, .ok (.dates dates) => if taken = name then dates else []
  | _, _ => []

theorem yields_of_advance (before : Session) :
    (⟨before, .advance name⟩ : Event host).yields name =
      (outcome (Call.advance name) host { before with warnings := [] }).1.toOption.toList := by
  have hresult : (⟨before, .advance name⟩ : Event host).response.result =
      (outcome (Call.advance name) host { before with warnings := [] }).1.map
        fun d => .date (some d) := by
    show (outcome (Request.call (.advance name)) host _).1 = _
    rw [Request.call, ← map_eq_pure_bind, Call.outcome_map]
  unfold yields
  rw [hresult]
  cases (outcome (Call.advance name) host { before with warnings := [] }).1 with
  | ok d => exact if_pos rfl
  | error e => rfl

theorem yields_of_drain (before : Session) :
    (⟨before, .drain name⟩ : Event host).yields name =
      (outcome (Call.drain name) host { before with warnings := [] }).1.toOption.getD [] := by
  have hresult : (⟨before, .drain name⟩ : Event host).response.result =
      (outcome (Call.drain name) host { before with warnings := [] }).1.map .dates := by
    show (outcome (Request.call (.drain name)) host _).1 = _
    rw [Request.call, Call.outcome_map]
  unfold yields
  rw [hresult]
  cases (outcome (Call.drain name) host { before with warnings := [] }).1 with
  | ok ds => exact if_pos rfl
  | error e => rfl

/-- Only the two requests that take dates from the cursor yield any. -/
theorem yields_of_ne (hadvance : e.request ≠ .advance name) (hdrain : e.request ≠ .drain name) :
    e.yields name = [] := by
  unfold yields
  split
  · next taken date hrequest _ =>
    rw [if_neg]
    rintro rfl
    exact hadvance hrequest
  · next taken dates hrequest _ =>
    rw [if_neg]
    rintro rfl
    exact hdrain hrequest
  · rfl

/-- Whatever is asked of a session but to open another cursor under the name, the cursor under it
remains one of the pattern, and what it gives is always accepted. -/
theorem seeks_behind (hcompile : Pattern.compile expression = .ok p)
    (hs : e.before.Seeks name p) (hopens : ¬ e.request.Opens name) :
    e.behind.Seeks name p ∧ ∀ d ∈ e.yields name, p.AlwaysAccepts d := by
  have hs' : Session.Seeks name p { e.before with warnings := [] } := hs
  by_cases hadvance : e.request = .advance name
  · obtain ⟨before, request⟩ := e
    obtain rfl : request = .advance name := hadvance
    refine ⟨?_, fun d hd => ?_⟩
    · show Session.Seeks name p (outcome (Request.call (.advance name)) host _).2
      rw [Request.call, ← map_eq_pure_bind, Call.outcome_map]
      exact Call.seeks_advance hs'
    · rw [yields_of_advance, Option.mem_toList] at hd
      exact Call.alwaysAccepts_of_advance hcompile hs' (Call.outcome_eq_of_toOption host hd)
  by_cases hdrain : e.request = .drain name
  · obtain ⟨before, request⟩ := e
    obtain rfl : request = .drain name := hdrain
    obtain ⟨hbehind, haccepted⟩ := Call.drain_behind host hcompile hs'
    refine ⟨?_, fun d hd => ?_⟩
    · show Session.Seeks name p (outcome (Request.call (.drain name)) host _).2
      rwa [Request.call, Call.outcome_map]
    · rw [yields_of_drain] at hd
      cases hds : (outcome (Call.drain name) host { before with warnings := [] }).1.toOption with
      | none => simp [hds] at hd
      | some ds => exact haccepted ds hds d (by simpa [hds] using hd)
  · obtain ⟨c, hc, hseeks⟩ := hs
    have hbehind := cursor_behind_of_ne (Request.spares_of_not_opens hopens hdrain) hadvance
    refine ⟨⟨c, hbehind.trans hc, hseeks⟩, ?_⟩
    rw [yields_of_ne hadvance hdrain]
    exact fun d hd => by cases hd

end Event

/-- In a run that opens no other cursor under the name, every date taken from the cursor is always
accepted: the cursor is one of the pattern before every request. -/
theorem Session.alwaysAccepts_of_yields {expression name : String} {p : Pattern} {host : Host}
    (hcompile : Pattern.compile expression = .ok p) {requests : List Request} :
    ∀ {s : Session}, s.Seeks name p → (∀ r ∈ requests, ¬ r.Opens name) →
      ∀ d ∈ (s.history host requests).flatMap (Event.yields name), p.AlwaysAccepts d := by
  induction requests with
  | nil => exact fun _ _ d hd => by cases hd
  | cons r rest ih =>
    intro s hs hopens d hd
    obtain ⟨hfirst, hrest⟩ := List.forall_mem_cons.mp hopens
    obtain ⟨hbehind, haccepted⟩ :=
      Event.seeks_behind (e := (⟨s, r⟩ : Event host)) hcompile hs hfirst
    rw [history, List.flatMap_cons, List.mem_append] at hd
    rcases hd with hd | hd
    · exact haccepted d hd
    · exact ih hbehind hrest d hd

/-- Whatever a search behind any instant returns, and whatever a cursor from there on gives in any
run of requests, is accepted by the pattern whenever it is asked about. -/
theorem Pattern.alwaysAccepts_of_found {expression : String} {p : Pattern}
    (hcompile : compile expression = .ok p) (host : Host) (s : Session) (after : DateTime) :
    (∀ d behind, outcome (Call.next p after none) host s = (.ok (some d), behind) →
      p.AlwaysAccepts d) ∧
    ∀ name limit count opened requests,
      outcome (Call.openCursor name p after limit none) host s = (.ok count, opened) →
      (∀ r ∈ requests, ¬ r.Opens name) →
        ∀ d ∈ (opened.history host requests).flatMap (Event.yields name), p.AlwaysAccepts d :=
  ⟨fun _ _ h => alwaysAccepts_of_next hcompile h, fun _ _ _ _ _ hopen hopens =>
    Session.alwaysAccepts_of_yields hcompile (Call.seeks_of_openCursor hopen) hopens⟩

/-- A pattern of a minute and of single seconds, shortly before noon in London: the search finds
the full minute, and of four dates the cursor gives two before and two behind the settings are
replaced. -/
theorem Pattern.alwaysAccepts_of_found_aroundNoon :
    let after : DateTime := ⟨⟨63865627197500000, by decide, by decide⟩, some .london, false⟩
    let noon : DateTime := ⟨⟨63865627200000000, by decide, by decide⟩, some .london, false⟩
    let requests : List Request := [.advance "noon", .advance "noon",
      .configure none [("match_seconds", .bool true), ("default_timezone", .text "Mars/Olympus")],
      .drain "noon"]
    let opened : Session :=
      { settings := some {}, cursors := [("noon", ⟨aroundNoon, after, some 4, none, false⟩)] }
    let taken := (opened.history {} requests).flatMap (Event.yields "noon")
    compile "15,45 30 12 * * * | 0 12 * * *" = .ok aroundNoon ∧
      (∃ behind, outcome (Call.next aroundNoon after none) {} { settings := some {} } =
        (.ok (some noon), behind)) ∧
      outcome (Call.openCursor "noon" aroundNoon after (some 4) none) {}
        { settings := some {} } = (.ok (some 4), opened) ∧
      taken.length = 4 ∧ noon ∈ taken ∧
      aroundNoon.AlwaysAccepts noon ∧ ∀ d ∈ taken, aroundNoon.AlwaysAccepts d := by
  intro after noon requests opened taken
  have hcompile : compile "15,45 30 12 * * * | 0 12 * * *" = .ok aroundNoon := rfl
  have hnext := Call.outcome_eq_of_toOption {} (s := { settings := some {} })
    (c := Call.next aroundNoon after none) (a := some noon) (by decide +kernel)
  have hopen : outcome (Call.openCursor "noon" aroundNoon after (some 4) none) {}
    { settings := some {} } = (.ok (some 4), opened) := rfl
  have htaken : taken.length = 4 ∧ noon ∈ taken := by decide +kernel
  have hopens : ∀ r ∈ requests, ¬ r.Opens "noon" := by
    simp [requests, Request.Opens]
  obtain ⟨hsearch, hcursor⟩ :=
    alwaysAccepts_of_found hcompile {} { settings := some {} } after
  exact ⟨hcompile, ⟨_, hnext⟩, hopen, htaken.1, htaken.2, hsearch noon _ hnext,
    hcursor "noon" (some 4) (some 4) opened requests hopen hopens⟩

end CronSchedule
