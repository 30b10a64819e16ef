import CronSchedule.Proofs.Session.History
import CronSchedule.Proofs.Session.Seamless

/-!
# The life of a cursor

A cursor is opened, gives dates and ends.  It reads the settings in force at every step, and
between two steps anything may be asked of the session: settings are replaced, forgotten or
cannot be loaded, the environment changes, other cursors move.

What carries the count through all of this is that the cursor under a name is at any time the
one that was opened, behind the dates it has given; only the mark that it has ended is added.

* `Event.gives?`, `Event.Ends` — what a call to advance the cursor comes to;
* `Event.ends_of_isDone` — a cursor that is done ends every call;
* `Event.behind_of_failed`, `Session.run_congr` — behind a call that fails in another way,
  sessions go on as before it;
* `Session.given`, `Session.cursor_reached` — the cursor behind any run;
* `Cursor.Lifecycle`, `Cursor.lifecycle_of_openCursor` — all of this about an opened cursor.
-/

namespace CronSchedule

open Call (outcome)

variable {host : Host} {name : String}

/-! ### Events of a cursor -/

namespace Event

/-- The date that a call to advance the cursor gives. -/
def gives? (name : String) (e : Event host) : Option DateTime :=
  match e.request, e.response.result with
  | .advance advanced, .ok (.date date) => if advanced = name then date else none
  | _, _ => none

/-- The call to advance the cursor says that it has ended. -/
def Ends (name : String) (e : Event host) : Prop :=
  e.request = .advance name ∧ e.response.result = .error (.fault .exhausted)

end Event

/-- The request does not replace or drain the cursor under the name. -/
def Request.Spares (name : String) (r : Request) : Prop :=
  r.cursorName? = some name → r = .advance name ∨ r = .remaining name

/-! ### One step -/

namespace Event

variable {e : Event host} {c : Cursor}

/-- A call to advance the cursor ends in one of the four ways. -/
theorem advanced_of_request (hc : Entries.get? e.before.cursors name = some c)
    (hr : e.request = .advance name) :
    ∃ result c', e.response.result = result.map (fun d => .date (some d)) ∧
      c.Advanced result c' ∧ Entries.get? e.behind.cursors name = some c' ∧
      e.behind.cursors = Entries.put e.before.cursors name c' := by
  obtain ⟨before, request⟩ := e
  obtain rfl : request = .advance name := hr
  obtain ⟨c', warnings, hadvanced, hbehind⟩ :=
    Call.advance_behind (s := { before with warnings := [] }) host hc
  have hcall : Request.call (.advance name) = (fun d => .date (some d)) <$> Call.advance name := by
    rw [map_eq_pure_bind]
    rfl
  have hcursors : (⟨before, .advance name⟩ : Event host).behind.cursors =
      Entries.put before.cursors name c' := by
    show (outcome (Request.call (.advance name)) host _).2.cursors = _
    rw [hcall, Call.outcome_map, hbehind]
  refine ⟨_, c', ?_, hadvanced, ?_, hcursors⟩
  · show (outcome (Request.call (.advance name)) host _).1 = _
    rw [hcall, Call.outcome_map]
  · rw [hcursors, Entries.get?_put, beq_self_eq_true, if_pos rfl]

/-- Any other request that spares the cursor leaves it as it is. -/
theorem cursor_behind_of_ne (hspares : e.request.Spares name) (hr : e.request ≠ .advance name) :
    Entries.get? e.behind.cursors name = Entries.get? e.before.cursors name := by
  by_cases hname : e.request.cursorName? = some name
  · obtain ⟨before, request⟩ := e
    obtain rfl : request = .remaining name := (hspares hname).resolve_left hr
    show Entries.get? (outcome (Request.call (.remaining name)) host _).2.cursors name = _
    rw [Request.call, Call.outcome_map, Call.outcome_remaining]
  · exact e.leaves.cursors name hname

theorem gives?_of_ne (hr : e.request ≠ .advance name) : e.gives? name = none := by
  unfold gives?
  split
  · next advanced date hadvanced hresult =>
    rw [if_neg]
    rintro rfl
    exact hr hadvanced
  · rfl

theorem gives?_of_result {result : Except Error DateTime} (hr : e.request = .advance name)
    (hresult : e.response.result = result.map fun d => .date (some d)) :
    e.gives? name = result.toOption := by
  unfold gives?
  rw [hr, hresult]
  cases result with
  | ok d => exact if_pos rfl
  | error e => rfl

/-- Behind a call that says so the cursor is done. -/
theorem Ends.isDone_behind (h : e.Ends name) (hc : Entries.get? e.before.cursors name = some c) :
    ∃ c', Entries.get? e.behind.cursors name = some c' ∧ c'.isDone = true := by
  obtain ⟨result, c', hresult, hadvanced, hbehind, -⟩ := advanced_of_request hc h.1
  refine ⟨c', hbehind, ?_⟩
  rw [h.2] at hresult
  cases hadvanced with
  | done hdone => exact hdone
  | found _ d => cases hresult
  | nothing _ => rfl
  | failed _ he =>
    cases hresult
    exact absurd rfl he

/-- A cursor that is done stays as it is, and every call to advance it says that it has
ended. -/
theorem ends_of_isDone (hc : Entries.get? e.before.cursors name = some c) (hdone : c.isDone = true)
    (hspares : e.request.Spares name) :
    Entries.get? e.behind.cursors name = some c ∧
      (e.request = .advance name → e.Ends name) := by
  by_cases hr : e.request = .advance name
  · obtain ⟨result, c', hresult, hadvanced, hbehind, -⟩ := advanced_of_request hc hr
    cases hadvanced with
    | done _ => exact ⟨hbehind, fun _ => ⟨hr, hresult⟩⟩
    | found hmore _ => rw [hdone] at hmore; cases hmore
    | nothing hmore => rw [hdone] at hmore; cases hmore
    | failed hmore _ => rw [hdone] at hmore; cases hmore
  · exact ⟨(cursor_behind_of_ne hspares hr).trans hc, fun h => absurd h hr⟩

/-- A call to advance that fails, and does not say that the cursor has ended, has changed
nothing but the settings that it may have loaded. -/
theorem behind_of_failed {error : Error} (hc : Entries.get? e.before.cursors name = some c)
    (hr : e.request = .advance name) (hresult : e.response.result = .error error)
    (herror : error ≠ .fault .exhausted) :
    e.behind.cursors = e.before.cursors ∧ e.behind.environment = e.before.environment := by
  refine ⟨?_, by rw [e.leaves.environment, hr]; rfl⟩
  obtain ⟨result, c', hresult', hadvanced, -, hcursors⟩ := advanced_of_request hc hr
  rw [hresult] at hresult'
  cases hadvanced with
  | done _ => cases hresult'; exact absurd rfl herror
  | found _ d => cases hresult'
  | nothing _ => cases hresult'; exact absurd rfl herror
  | failed _ _ => rw [hcursors, Entries.put_of_get? hc]

end Event

/-! ### Runs -/

/-- Responses do not depend on warnings that have not been collected. -/
theorem Session.run_congr {s t : Session} (hsettings : s.settings = t.settings)
    (henvironment : s.environment = t.environment) (hcursors : s.cursors = t.cursors)
    (requests : List Request) : (s.run host requests).1 = (t.run host requests).1 := by
  obtain ⟨settings, environment, cursors, _⟩ := s
  obtain ⟨_, _, _, _⟩ := t
  obtain rfl : settings = _ := hsettings
  obtain rfl : environment = _ := henvironment
  obtain rfl : cursors = _ := hcursors
  cases requests <;> rfl

namespace Cursor

theorem behind_exhausted (c : Cursor) (b : Bool) (ds : List DateTime) :
    ({ c with exhausted := b } : Cursor).behind ds = { c.behind ds with exhausted := b } := by
  induction ds generalizing c with
  | nil => rfl
  | cons d ds ih => exact ih (c.advance (some d))

end Cursor

namespace Session

variable {s : Session} {c : Cursor} {requests : List Request}

/-- The dates that calls to advance the cursor give in a run. -/
def given (host : Host) (name : String) (s : Session) (requests : List Request) :
    List DateTime :=
  (s.history host requests).filterMap (Event.gives? name)

/-- At any time the cursor is the one that was opened, behind the dates it has given; and it has
given no more than it may. -/
theorem cursor_reached (host : Host) (hspares : ∀ r ∈ requests, r.Spares name)
    (hc : Entries.get? s.cursors name = some c) :
    (∃ b, Entries.get? (s.reached host requests).cursors name =
      some { c.behind (s.given host name requests) with exhausted := b }) ∧
      ∀ n, c.remaining = some n → (s.given host name requests).length ≤ n := by
  induction requests generalizing s c with
  | nil => exact ⟨⟨c.exhausted, hc⟩, fun n _ => n.zero_le⟩
  | cons r rest ih =>
    let e : Event host := ⟨s, r⟩
    obtain ⟨hspare, hrest⟩ := List.forall_mem_cons.mp hspares
    have hgiven : s.given host name (r :: rest) =
        (e.gives? name).toList ++ e.behind.given host name rest := by
      show List.filterMap _ (e :: e.behind.history host rest) = _
      cases h : e.gives? name with
      | none => exact List.filterMap_cons_none h
      | some d => exact List.filterMap_cons_some h
    rw [reached_cons, hgiven]
    by_cases hr : r = .advance name
    · obtain ⟨result, c', hresult, hadvanced, hbehind, -⟩ := e.advanced_of_request hc hr
      obtain ⟨⟨b, hreached⟩, hbound⟩ := ih hrest hbehind
      rw [e.gives?_of_result hr hresult]
      cases hadvanced with
      | done _ => exact ⟨⟨b, hreached⟩, hbound⟩
      | failed _ _ => exact ⟨⟨b, hreached⟩, hbound⟩
      | nothing _ =>
        refine ⟨⟨b, hreached.trans ?_⟩, hbound⟩
        rw [Cursor.advance, Cursor.behind_exhausted]
        rfl
      | found hmore d =>
        refine ⟨⟨b, hreached⟩, fun n hn => ?_⟩
        have hne : n ≠ 0 := by
          rintro rfl
          rw [Cursor.isDone, hn] at hmore
          simp at hmore
        have := hbound (n - 1) (by rw [Cursor.advance, hn]; rfl)
        show (e.behind.given host name rest).length + 1 ≤ n
        omega
    · have hbehind := (e.cursor_behind_of_ne hspare hr).trans hc
      rw [e.gives?_of_ne hr]
      exact ih hrest hbehind

theorem history_ends_of_isDone (hspares : ∀ r ∈ requests, r.Spares name)
    (hc : Entries.get? s.cursors name = some c) (hdone : c.isDone = true) :
    ∀ e ∈ s.history host requests, e.request = .advance name → e.Ends name := by
  induction requests generalizing s with
  | nil => exact fun e he => by cases he
  | cons r rest ih =>
    obtain ⟨hspare, hrest⟩ := List.forall_mem_cons.mp hspares
    obtain ⟨hbehind, hends⟩ := Event.ends_of_isDone (e := ⟨s, r⟩) hc hdone hspare
    exact List.forall_mem_cons.mpr ⟨hends, ih hrest hbehind⟩

/-- Behind a call that says that the cursor has ended, every call to advance it says so. -/
theorem history_ends (hspares : ∀ r ∈ requests, r.Spares name)
    (hc : Entries.get? s.cursors name = some c) :
    (s.history host requests).Pairwise fun e later =>
      e.Ends name → later.request = .advance name → later.Ends name := by
  induction requests generalizing s c with
  | nil => exact .nil
  | cons r rest ih =>
    obtain ⟨hspare, hrest⟩ := List.forall_mem_cons.mp hspares
    let e : Event host := ⟨s, r⟩
    refine .cons (fun later hlater hends => ?_) ?_
    · obtain ⟨c', hbehind, hdone⟩ := Event.Ends.isDone_behind (e := e) hends hc
      exact history_ends_of_isDone hrest hbehind hdone later hlater
    · obtain ⟨⟨b, hbehind⟩, -⟩ := cursor_reached host (List.forall_mem_singleton.mpr hspare) hc
      exact ih hrest hbehind

/-- Before every event of a run there is a cursor under the name. -/
theorem exists_cursor_before (hspares : ∀ r ∈ requests, r.Spares name)
    (hc : Entries.get? s.cursors name = some c) :
    ∀ e ∈ s.history host requests, ∃ c', Entries.get? e.before.cursors name = some c' := by
  induction requests generalizing s c with
  | nil => exact fun e he => by cases he
  | cons r rest ih =>
    obtain ⟨hspare, hrest⟩ := List.forall_mem_cons.mp hspares
    obtain ⟨⟨b, hbehind⟩, -⟩ := cursor_reached host (List.forall_mem_singleton.mpr hspare) hc
    exact List.forall_mem_cons.mpr ⟨⟨c, hc⟩, ih hrest hbehind⟩

end Session

/-! ### An opened cursor -/

/-- How a cursor that was opened with a limit fares in a run of requests. -/
structure Cursor.Lifecycle (host : Host) (name : String) (limit : Option Int) (opened : Session)
    (requests : List Request) : Prop where
  /-- what remains is what the limit leaves beside the dates that were given -/
  counts : ∀ n, limit = some n → ∃ m : Nat,
    (outcome (Call.remaining name) host (opened.reached host requests)).1 = .ok (some m) ∧
      (m : Int) = n - (opened.given host name requests).length
  unlimited : limit = none →
    (outcome (Call.remaining name) host (opened.reached host requests)).1 = .ok none
  /-- once it has said so, the cursor has ended for good -/
  ends : (opened.history host requests).Pairwise fun e later =>
    e.Ends name → later.request = .advance name → later.Ends name
  /-- a call that fails in another way leaves every cursor as it is, and whatever settings are
  in force then, the responses to what follows are as if it had not been made -/
  fails : ∀ e ∈ opened.history host requests, ∀ error, e.request = .advance name →
    e.response.result = .error error → error ≠ .fault .exhausted →
      e.behind.cursors = e.before.cursors ∧
        ∀ (settings : Option Settings) (more : List Request),
          (({ e.behind with settings } : Session).run host more).1 =
            (({ e.before with settings } : Session).run host more).1
  /-- a request on one cursor, or on none, leaves every other cursor as it is -/
  apart : ∀ e ∈ opened.history host requests, ∀ other, e.request.cursorName? ≠ some other →
    Entries.get? e.behind.cursors other = Entries.get? e.before.cursors other

/-- Every cursor fares so, whatever is asked of the session between the calls to advance it. -/
theorem Cursor.lifecycle_of_openCursor {s opened : Session} {p : Pattern} {after : DateTime}
    {limit : Option Int} {matchSeconds : Option Bool} {count : Option Nat}
    {requests : List Request}
    (hopen : outcome (Call.openCursor name p after limit matchSeconds) host s =
      (.ok count, opened))
    (hspares : ∀ r ∈ requests, r.Spares name) :
    Cursor.Lifecycle host name limit opened requests := by
  obtain ⟨hnonneg, hopened⟩ := Call.eq_of_openCursor hopen
  let c : Cursor := ⟨p, after, limit.map Int.toNat, matchSeconds, false⟩
  have hc : Entries.get? opened.cursors name = some c := by
    rw [hopened, Entries.get?_put, beq_self_eq_true, if_pos rfl]
  obtain ⟨⟨b, hreached⟩, hbound⟩ := Session.cursor_reached host hspares hc
  have hremaining : (outcome (Call.remaining name) host (opened.reached host requests)).1 =
      .ok (limit.map fun n => n.toNat - (opened.given host name requests).length) := by
    rw [Call.outcome_remaining, hreached]
    show Except.ok (c.behind _).remaining = _
    rw [Cursor.remaining_behind, Option.map_map]
    rfl
  constructor
  case counts =>
    rintro n rfl
    have hle := hbound n.toNat rfl
    have hn := hnonneg n rfl
    refine ⟨_, hremaining, ?_⟩
    show ((n.toNat - (opened.given host name requests).length : Nat) : Int) = _
    omega
  case unlimited =>
    rintro rfl
    exact hremaining
  case ends => exact Session.history_ends hspares hc
  case fails =>
    intro e he error hr hresult herror
    obtain ⟨c', hc'⟩ := Session.exists_cursor_before hspares hc e he
    obtain ⟨hcursors, henvironment⟩ := e.behind_of_failed hc' hr hresult herror
    exact ⟨hcursors, fun settings => Session.run_congr (s := { e.behind with settings })
      (t := { e.before with settings }) rfl henvironment hcursors⟩
  case apart => exact fun e _ other hother => e.leaves.cursors other hother

/-- A cursor for two dates fares so where settings cannot be loaded between the two. -/
theorem Cursor.lifecycle_of_openCursor_aroundLeapDay :
    let after : DateTime := .naive ⟨63844761450000000, by decide, by decide⟩
    let p := Session.Yields.aroundLeapDay
    let requests : List Request := [.advance "leap", .resetSettings,
      .setEnvironment [("CRONMATCH_MAX_SCAN_TICKS", "none of them")], .advance "leap",
      .configure (some {}) [], .advance "leap", .resetSettings, .advance "leap"]
    ∃ opened,
      outcome (Call.openCursor "leap" p after (some 2) none) {} {} = (.ok (some 2), opened) ∧
      Cursor.Lifecycle {} "leap" (some 2) opened requests := by
  intro after p requests
  have hopen : outcome (Call.openCursor "leap" p after (some 2) none) {} {} =
      (.ok (some 2), { cursors := [("leap", ⟨p, after, some 2, none, false⟩)] }) := rfl
  refine ⟨_, hopen, Cursor.lifecycle_of_openCursor hopen ?_⟩
  simp [requests, Request.Spares, Request.cursorName?]

end CronSchedule
