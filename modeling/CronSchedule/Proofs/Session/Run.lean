import CronSchedule.Proofs.Enumerate.Next
import CronSchedule.Session.Cursor
import Mathlib.Data.List.Chain

/-!
# Runs of a cursor

The results of a cursor are those of its steps, each of which searches behind the result
before.  A run goes right when each result is the next match behind the one before it, as
instants.

A search starts from a reading, and a reading does not say which of two instants is meant:
so a run goes right on a clock that is never set back and that keeps its dates.

* `Cursor.results` — the results of the first steps of a cursor;
* `Pattern.Follows` — one result is the next match behind another;
* `TimeZone.IteratesPlainly` — every run on the clock of a zone goes right;
* `TimeZone.iteratesPlainly_of_neverBack` — so it does on a clock that is never set back and
  keeps its dates.
-/

namespace CronSchedule

/-! ### Results -/

/-- The results of the first steps of a cursor, up to one that has none. -/
def Cursor.results (host : Host) : Cursor → Session → Nat → List DateTime
  | _, _, 0 => []
  | c, s, n + 1 =>
    match Call.outcome (Call.step c) host s with
    | (.ok (some d, behind), session) => d :: behind.results host session n
    | _ => []

namespace Cursor

variable {host : Host} {inForce : Settings} {s : Session} {c : Cursor} {n : Nat}

theorem results_of_next (hs : s.settings = some inForce) (hdone : c.isDone = false)
    {d : DateTime} (hnext : c.pattern.next host.zones inForce c.position c.matchSeconds =
      .ok ⟨some d, none⟩) (n : Nat) :
    c.results host s (n + 1) = d :: (c.advance (some d)).results host s n := by
  simp [results, Call.outcome_step hdone, Call.outcome_next hs, hnext]

/-- The first of several results is that of a search behind the cursor's position, and the
others are those of the cursor behind it. -/
theorem results_eq_cons (hs : s.settings = some inForce) {d : DateTime} {ds : List DateTime}
    (h : c.results host s (n + 1) = d :: ds) :
    ∃ warning session,
      c.pattern.next host.zones inForce c.position c.matchSeconds = .ok ⟨some d, warning⟩ ∧
        session.settings = some inForce ∧
        ds = (c.advance (some d)).results host session n := by
  cases hdone : c.isDone with
  | true =>
    rw [results, Call.outcome_step_of_isDone hdone] at h
    cases h
  | false =>
    rw [results, Call.outcome_step hdone, Call.outcome_next hs] at h
    cases hnext : c.pattern.next host.zones inForce c.position c.matchSeconds with
    | error e =>
      rw [hnext] at h
      cases h
    | ok found =>
      obtain ⟨date, warning⟩ := found
      rw [hnext] at h
      cases date with
      | none => cases h
      | some e =>
        obtain ⟨rfl, hds⟩ := List.cons.inj h
        exact ⟨warning, { s with warnings := s.warnings ++ warning.toList }, rfl, hs, hds.symm⟩

end Cursor

/-! ### The next match as instants -/

/-- The second date is the next match behind the first: it is later, and none of the whole
seconds, or whole minutes, between the two is a match. -/
def Pattern.Follows (p : Pattern) (z : TimeZone) (withSeconds : Bool) (d e : DateTime) : Prop :=
  ∃ t u : WallTime, d.toUtc? = some t ∧ e.toUtc? = some u ∧ t.micros < u.micros ∧
    ∀ v : WallTime, v.micros % tickStep withSeconds = 0 → t.micros < v.micros →
      v.micros < u.micros → p.admitsAt z withSeconds v = false

/-- Under settings without a limit on ticks, every run of a cursor on the clock of the zone,
as long as its searches stay in the years 2 to 9998, consists of matches each of which is
the next behind the one before it. -/
def TimeZone.IteratesPlainly (z : TimeZone) : Prop :=
  ∀ (host : Host) (s : Session) (inForce : Settings) (c : Cursor) (n : Nat),
    s.settings = some inForce → inForce.tickLimit = none → c.position.zone = some z →
    (∀ d ∈ c.position :: (c.results host s n).dropLast, inForce.SearchInner d) →
    (c.results host s n).IsChain
      (c.pattern.Follows z (c.pattern.searchesSeconds c.matchSeconds))

/-! ### Clocks on which every run goes right -/

section NeverBack

variable {name : String} {rules : ZoneRules} (hz : rules.Ascending) (hwithinDay : rules.WithinDay)
  (hminutes : rules.WholeMinutes) (hforward : rules.NeverBack) (hkeeps : rules.KeepsDates)
  {inForce : Settings}
include hz hwithinDay hminutes hforward hkeeps

/-- On a clock that is never set back and keeps its dates, the result of the search behind
a whole second, or minute, is the next match. -/
theorem Pattern.follows_of_next (hcap : inForce.tickLimit = none) {p : Pattern} {d e : DateTime}
    {zones : ZoneTable} {matchSeconds : Option Bool} {warning : Option CapWarning} {t : WallTime}
    (hshown : DateTime.ofUtc? (.named name rules) t = some d)
    (hwhole : t.micros % tickStep (p.searchesSeconds matchSeconds) = 0)
    (hinner : inForce.SearchInner d)
    (h : p.next zones inForce d matchSeconds = .ok ⟨some e, warning⟩) :
    p.Follows (.named name rules) (p.searchesSeconds matchSeconds) d e ∧
      ∃ u, DateTime.ofUtc? (.named name rules) u = some e ∧
        u.micros % tickStep (p.searchesSeconds matchSeconds) = 0 := by
  have hround : (TimeZone.named name rules).rules.RoundTrips := hforward.roundTrips hz hminutes
  have hzone : d.zone = some (.named name rules) :=
    congrArg DateTime.zone (DateTime.ofUtc?_eq_some hshown).2
  obtain ⟨search, u, hu, -, huwhole, hle, hfirst⟩ :=
    Pattern.exists_first_of_next hwithinDay hminutes hkeeps hcap hzone hinner h
  have hstart := search.first_eq_of_neverBack hz hforward hminutes hshown hwhole
  have hstep := (tickStep_bounds (p.searchesSeconds matchSeconds)).1
  refine ⟨⟨t, u, DateTime.toUtc?_of_ofUtc? hround hshown, DateTime.toUtc?_of_ofUtc? hround hu,
    by omega, fun v hv hbehind hbefore => hfirst v hv ?_ hbefore⟩, u, hu, huwhole⟩
  -- whole steps behind `t` come no earlier than the next
  obtain ⟨i, hi⟩ := Int.dvd_of_emod_eq_zero hv
  obtain ⟨j, hj⟩ := Int.dvd_of_emod_eq_zero hwhole
  rw [hi, hj] at hbehind
  have hlt : j + 1 ≤ i := Int.lt_of_mul_lt_mul_left hbehind (Int.le_of_lt hstep)
  have := Int.mul_le_mul_of_nonneg_left hlt (Int.le_of_lt hstep)
  rw [Int.mul_add, Int.mul_one] at this
  omega

/-- A run from a whole second, or minute, on goes right. -/
theorem Cursor.isChain_results (host : Host) (hcap : inForce.tickLimit = none) (n : Nat) :
    ∀ (c : Cursor) (s : Session) (t : WallTime), s.settings = some inForce →
      DateTime.ofUtc? (.named name rules) t = some c.position →
      t.micros % tickStep (c.pattern.searchesSeconds c.matchSeconds) = 0 →
      (∀ d ∈ c.position :: (c.results host s n).dropLast, inForce.SearchInner d) →
      (c.position :: c.results host s n).IsChain
        (c.pattern.Follows (.named name rules) (c.pattern.searchesSeconds c.matchSeconds)) := by
  induction n with
  | zero =>
    intro c s t _ _ _ _
    exact .singleton _
  | succ n ih =>
    intro c s t hs hshown hwhole hinner
    cases hresults : c.results host s (n + 1) with
    | nil => exact .singleton _
    | cons d ds =>
      rw [hresults] at hinner
      obtain ⟨warning, session, hnext, hsession, rfl⟩ := Cursor.results_eq_cons hs hresults
      obtain ⟨hfollows, u, hu, huwhole⟩ :=
        Pattern.follows_of_next hz hwithinDay hminutes hforward hkeeps hcap hshown hwhole
          (hinner _ List.mem_cons_self) hnext
      have ih := ih (c.advance (some d)) session u hsession hu huwhole
      -- behind the last result there is no search
      cases hrest : (c.advance (some d)).results host session n with
      | nil => exact .cons_cons hfollows (.singleton _)
      | cons e es =>
        rw [hrest] at hinner ih
        exact .cons_cons hfollows (ih fun x hx => hinner x (List.mem_cons_of_mem _ hx))

/-- On a clock that is never set back and keeps its dates every run goes right. -/
theorem TimeZone.iteratesPlainly_of_neverBack : (named name rules).IteratesPlainly := by
  intro host s inForce c n hs hcap hzone hinner
  cases n with
  | zero => exact .nil
  | succ n =>
    cases hresults : c.results host s (n + 1) with
    | nil => exact .nil
    | cons d ds =>
      -- the first result is a whole second, or minute, wherever the cursor started
      rw [hresults] at hinner
      obtain ⟨warning, session, hnext, hsession, rfl⟩ := Cursor.results_eq_cons hs hresults
      obtain ⟨search, t, ht, -, hwhole, -, -⟩ := Pattern.exists_first_of_next hwithinDay hminutes
        hkeeps hcap hzone (hinner _ List.mem_cons_self) hnext
      have hrun := Cursor.isChain_results hz hwithinDay hminutes hforward hkeeps host
        hcap n (c.advance (some d)) session t hsession ht hwhole
      cases hrest : (c.advance (some d)).results host session n with
      | nil => exact .singleton _
      | cons e es =>
        rw [hrest] at hinner hrun
        exact hrun fun x hx => hinner x (List.mem_cons_of_mem _ hx)

end NeverBack

end CronSchedule
