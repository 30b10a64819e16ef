import CronSchedule.Pattern.Match
import CronSchedule.Proofs.Calendar.Reading

/-!
# Every test has an answer

A matcher fails to answer only where it is asked about a month that does not exist.  A
clock never shows one, so at what a clock shows every test answers, and a pattern is a
plain predicate there: `Pattern.admits`.

* `Verdict.any_eq_true_iff` — where every member answers, `any` passes exactly when some
  member does;
* `Matcher.accepts_congr`, `Pattern.acceptsDate_congr` — what a test looks at;
* `Pattern.acceptsDate_of_accepts` — a pattern that accepts a reading accepts its date;
* `Pattern.matchesWall_eq` — matching always succeeds, with the value of `admits`.
-/

namespace CronSchedule

/-! ### Verdicts -/

namespace Verdict

theorem and_eq_true_iff {a : Verdict} {b : Unit → Verdict} :
    and a b = some true ↔ a = some true ∧ b () = some true := by
  rcases a with - | (- | -) <;> simp [and]

theorem or_eq_true_iff {a : Verdict} {b : Unit → Verdict} (ha : a.isSome) :
    or a b = some true ↔ a = some true ∨ b () = some true := by
  obtain ⟨a, rfl⟩ := Option.isSome_iff_exists.mp ha
  cases a <;> simp

theorem isSome_and {a : Verdict} {b : Unit → Verdict} (ha : a.isSome) (hb : (b ()).isSome) :
    (and a b).isSome := by
  obtain ⟨a, rfl⟩ := Option.isSome_iff_exists.mp ha
  cases a <;> simp [hb]

theorem isSome_or {a : Verdict} {b : Unit → Verdict} (ha : a.isSome) (hb : (b ()).isSome) :
    (or a b).isSome := by
  obtain ⟨a, rfl⟩ := Option.isSome_iff_exists.mp ha
  cases a <;> simp [hb]

variable {α : Type}

theorem isSome_any {f : α → Verdict} {xs : List α} (h : ∀ x ∈ xs, (f x).isSome) :
    (any f xs).isSome := by
  induction xs with
  | nil => rfl
  | cons x xs ih =>
    rw [any_cons]
    exact isSome_or (h x List.mem_cons_self) (ih fun y hy => h y (List.mem_cons_of_mem x hy))

/-- Where every member answers, `any` passes exactly when some member does. -/
theorem any_eq_true_iff {f : α → Verdict} {xs : List α} (h : ∀ x ∈ xs, (f x).isSome) :
    any f xs = some true ↔ ∃ x ∈ xs, f x = some true := by
  induction xs with
  | nil => simp
  | cons x xs ih =>
    rw [any_cons, or_eq_true_iff (h x List.mem_cons_self),
      ih fun y hy => h y (List.mem_cons_of_mem x hy)]
    simp

theorem any_congr {f g : α → Verdict} {xs : List α} (h : ∀ x ∈ xs, f x = g x) :
    any f xs = any g xs := by
  induction xs with
  | nil => rfl
  | cons x xs ih =>
    rw [any_cons, any_cons, h x List.mem_cons_self,
      ih fun y hy => h y (List.mem_cons_of_mem x hy)]

/-- A test that has an answer fails when it does not pass. -/
theorem eq_false_of_ne_true {v : Verdict} (h : v.isSome) (hne : v ≠ some true) :
    v = some false := by
  obtain ⟨b, rfl⟩ := Option.isSome_iff_exists.mp h
  simpa using hne

end Verdict

/-! ### Matchers -/

namespace Matcher

mutual

/-- A matcher answers where the month has a length. -/
theorem isSome_accepts {r : Reading} (h : r.daysInMonth?.isSome) (v : Int) :
    ∀ m : Matcher, (accepts r v m).isSome
  | any => by simp
  | values set => by simp [accepts_values]
  | lastDay => by simpa [accepts_lastDay] using h
  | lastWeekday weekday => by
    rw [accepts_lastWeekday]
    split
    · simpa using h
    · rfl
  | anyOf members => by
    rw [accepts]
    exact isSome_acceptsSome h v members

theorem isSome_acceptsSome {r : Reading} (h : r.daysInMonth?.isSome) (v : Int) :
    ∀ ms : List Matcher, (acceptsSome r v ms).isSome
  | [] => by simp [acceptsSome]
  | m :: ms => by
    rw [acceptsSome]
    exact Verdict.isSome_or (isSome_accepts h v m) (isSome_acceptsSome h v ms)

end

mutual

/-- Of the reading a matcher looks at the date alone. -/
theorem accepts_congr {r s : Reading} (h : r.SameDate s) (v : Int) :
    ∀ m : Matcher, accepts r v m = accepts s v m
  | any => by simp
  | values set => by simp [accepts_values]
  | lastDay => by simp only [accepts_lastDay, h.daysInMonth?]
  | lastWeekday weekday => by simp only [accepts_lastWeekday, h.daysInMonth?, h.day]
  | anyOf members => by
    rw [accepts, accepts]
    exact acceptsSome_congr h v members

theorem acceptsSome_congr {r s : Reading} (h : r.SameDate s) (v : Int) :
    ∀ ms : List Matcher, acceptsSome r v ms = acceptsSome s v ms
  | [] => by simp [acceptsSome]
  | m :: ms => by
    rw [acceptsSome, acceptsSome, accepts_congr h v m, acceptsSome_congr h v ms]

end

end Matcher

/-! ### Alternatives -/

namespace Alternative

theorem isSome_acceptsDay (a : Alternative) {r : Reading} (h : r.daysInMonth?.isSome) :
    (a.acceptsDay r).isSome := by
  unfold acceptsDay
  split
  · rfl
  · exact Matcher.isSome_accepts h _ _
  · exact Matcher.isSome_accepts h _ _
  · exact Verdict.isSome_or (Matcher.isSome_accepts h _ _) (Matcher.isSome_accepts h _ _)

theorem isSome_acceptsDate (a : Alternative) {r : Reading} (h : r.daysInMonth?.isSome) :
    (a.acceptsDate r).isSome :=
  Verdict.isSome_and (Matcher.isSome_accepts h _ _)
    (Verdict.isSome_and (Matcher.isSome_accepts h _ _) (a.isSome_acceptsDay h))

theorem isSome_acceptsSecond (a : Alternative) {r : Reading} (h : r.daysInMonth?.isSome) :
    (a.acceptsSecond r).isSome := by
  unfold acceptsSecond
  split
  · rfl
  · exact Matcher.isSome_accepts h _ _

theorem isSome_accepts (a : Alternative) {r : Reading} (h : r.daysInMonth?.isSome) :
    (a.accepts r).isSome :=
  Verdict.isSome_and (a.isSome_acceptsSecond h)
    (Verdict.isSome_and (Matcher.isSome_accepts h _ _)
      (Verdict.isSome_and (Matcher.isSome_accepts h _ _) (a.isSome_acceptsDate h)))

/-- The fields of an alternative that accepts a reading, one by one. -/
theorem accepts_eq_true_iff {a : Alternative} {r : Reading} :
    a.accepts r = some true ↔ a.acceptsSecond r = some true ∧
      a.minute.accepts r r.minute = some true ∧ a.hour.accepts r r.hour = some true ∧
        a.acceptsDate r = some true := by
  rw [accepts, Verdict.and_eq_true_iff, Verdict.and_eq_true_iff, Verdict.and_eq_true_iff]

/-- The fields of the date, one by one. -/
theorem acceptsDate_eq_true_iff {a : Alternative} {r : Reading} :
    a.acceptsDate r = some true ↔ a.month.accepts r r.month = some true ∧
      a.year.accepts r r.year = some true ∧ a.acceptsDay r = some true := by
  rw [acceptsDate, Verdict.and_eq_true_iff, Verdict.and_eq_true_iff]

theorem acceptsDate_congr (a : Alternative) {r s : Reading} (h : r.SameDate s) :
    a.acceptsDate r = a.acceptsDate s := by
  unfold acceptsDate acceptsDay
  simp only [Matcher.accepts_congr h, h.day, h.month, h.weekday, h.year]

end Alternative

/-! ### Patterns -/

namespace Pattern

theorem isSome_accepts (p : Pattern) {r : Reading} (h : r.daysInMonth?.isSome) :
    (p.accepts r).isSome :=
  Verdict.isSome_any fun a _ => a.isSome_accepts h

theorem isSome_acceptsDate (p : Pattern) {r : Reading} (h : r.daysInMonth?.isSome) :
    (p.acceptsDate r).isSome :=
  Verdict.isSome_any fun a _ => a.isSome_acceptsDate h

theorem accepts_eq_true_iff {p : Pattern} {r : Reading} (h : r.daysInMonth?.isSome) :
    p.accepts r = some true ↔ ∃ a ∈ p.alternatives, a.accepts r = some true :=
  Verdict.any_eq_true_iff fun a _ => a.isSome_accepts h

theorem acceptsDate_eq_true_iff {p : Pattern} {r : Reading} (h : r.daysInMonth?.isSome) :
    p.acceptsDate r = some true ↔ ∃ a ∈ p.alternatives, a.acceptsDate r = some true :=
  Verdict.any_eq_true_iff fun a _ => a.isSome_acceptsDate h

/-- Whether a pattern accepts a date is the same all day. -/
theorem acceptsDate_congr (p : Pattern) {r s : Reading} (h : r.SameDate s) :
    p.acceptsDate r = p.acceptsDate s :=
  Verdict.any_congr fun a _ => a.acceptsDate_congr h

/-- A pattern that accepts a reading accepts its date. -/
theorem acceptsDate_of_accepts {p : Pattern} {r : Reading} (h : r.daysInMonth?.isSome)
    (haccepts : p.accepts r = some true) : p.acceptsDate r = some true := by
  obtain ⟨a, ha, haccepts⟩ := (accepts_eq_true_iff h).mp haccepts
  obtain ⟨-, -, -, hdate⟩ := Alternative.accepts_eq_true_iff.mp haccepts
  exact (acceptsDate_eq_true_iff h).mpr ⟨a, ha, hdate⟩

/-- Whether the pattern accepts what the clock shows. -/
def admits (p : Pattern) (withSeconds : Bool) (w : WallTime) : Bool :=
  p.accepts (w.reading withSeconds) == some true

theorem admits_eq_true_iff {p : Pattern} {withSeconds : Bool} {w : WallTime} :
    p.admits withSeconds w = true ↔ p.accepts (w.reading withSeconds) = some true := by
  simp [admits]

theorem accepts_reading (p : Pattern) (withSeconds : Bool) (w : WallTime) :
    p.accepts (w.reading withSeconds) = some (p.admits withSeconds w) := by
  obtain ⟨b, hb⟩ := Option.isSome_iff_exists.mp
    (p.isSome_accepts (w.daysInMonth?_reading withSeconds))
  cases b <;> simp [admits, hb]

/-- Matching what a clock shows always succeeds. -/
theorem matchesWall_eq (p : Pattern) (withSeconds : Bool) (w : WallTime) :
    p.matchesWall w withSeconds = .ok (p.admits withSeconds w) := by
  rw [matchesWall, accepts_reading, Verdict.settle]

/-- Where the date is refused, nothing on that day is accepted. -/
theorem admits_eq_false_of_sameDay {p : Pattern} {b c : Bool} {v w : WallTime}
    (hrefused : p.acceptsDate (v.reading b) = some false) (hday : w.day = v.day) :
    p.admits c w = false := by
  rw [Bool.eq_false_iff, Ne, admits_eq_true_iff]
  intro haccepts
  have hdate := acceptsDate_of_accepts (w.daysInMonth?_reading c) haccepts
  rw [p.acceptsDate_congr (WallTime.sameDate_reading hday c b), hrefused] at hdate
  cases hdate

end Pattern

end CronSchedule
