import CronSchedule.Proofs.Enumerate.Complete
import CronSchedule.Proofs.Grammar.Joined

/-!
# Enumerating joined expressions

A pattern accepts a reading where one of its alternatives does, so two expressions joined with
a bar accept what either accepts.  Enumerating them merges the complete lists of the two: the
list ascends, and a reading that both list is in it once.  A limit on the number of matches
cuts the merged list, and the order of the expressions makes no difference.

* `OrderedUnion` — the ascending list of what one of two lists holds, of which there is one;
* `Pattern.admits_append` — alternatives in a row accept what either row accepts;
* `Pattern.orderedUnion_naiveMatches` — and have the ordered union of the matches;
* `Pattern.matchedDates_joined` — enumerating joined expressions.
-/

namespace CronSchedule

/-! ### Ordered unions -/

/-- The list ascends and holds what one of the two lists holds. -/
structure OrderedUnion (ds es merged : List DateTime) : Prop where
  ascending : Ascending merged
  mem_iff : ∀ d, d ∈ merged ↔ d ∈ ds ∨ d ∈ es

namespace OrderedUnion

variable {ds es merged merged' : List DateTime}

theorem symm (h : OrderedUnion ds es merged) : OrderedUnion es ds merged where
  ascending := h.ascending
  mem_iff d := (h.mem_iff d).trans or_comm

theorem unique (h : OrderedUnion ds es merged) (h' : OrderedUnion ds es merged') :
    merged = merged' :=
  h.ascending.eq_of_mem_iff h'.ascending fun d => (h.mem_iff d).trans (h'.mem_iff d).symm

end OrderedUnion

namespace Pattern

/-! ### Alternatives in a row -/

/-- Alternatives in a row accept what either row accepts. -/
theorem admits_append {p q joined : Pattern}
    (h : joined.alternatives = p.alternatives ++ q.alternatives) (withSeconds : Bool)
    (w : WallTime) :
    joined.admits withSeconds w = true ↔
      p.admits withSeconds w = true ∨ q.admits withSeconds w = true := by
  have hlength := w.daysInMonth?_reading withSeconds
  simp only [admits_eq_true_iff, accepts_eq_true_iff hlength, h, List.mem_append, or_and_right,
    exists_or]

theorem orderedUnion_naiveMatches {p q joined : Pattern}
    (h : joined.alternatives = p.alternatives ++ q.alternatives) (start stop : WallTime)
    (withSeconds : Bool) :
    OrderedUnion (p.naiveMatches start stop withSeconds) (q.naiveMatches start stop withSeconds)
      (joined.naiveMatches start stop withSeconds) where
  ascending := ascending_naiveMatches joined start stop withSeconds
  mem_iff d := by
    simp only [mem_naiveMatches, admits_append h, or_and_right, and_or_left, exists_or]

/-! ### Joined expressions -/

theorem exists_compile_joined {a b : String} {p q : Pattern} (hp : compile a = .ok p)
    (hq : compile b = .ok q) :
    ∃ joined, compile (a ++ "|" ++ b) = .ok joined ∧
      joined.alternatives = p.alternatives ++ q.alternatives := by
  have hread := read_joined_of_ok (compile_eq_ok_iff.mp hp).1 (compile_eq_ok_iff.mp hq).1
  exact ⟨⟨_, _⟩, compile_eq_ok_iff.mpr ⟨hread, rfl⟩, rfl⟩

/-- Enumerating two expressions joined with a bar, in either order, returns the first entries
of the ordered union of the complete lists of both. -/
theorem matchedDates_joined {a b : String} {p q : Pattern} (hp : compile a = .ok p)
    (hq : compile b = .ok q) (zones : ZoneTable) {settings : Settings}
    (hcap : settings.tickLimit = none) {start stop : DateTime} (hstart : start.zone = none)
    (hstop : stop.zone = none) (hlt : start.wall.micros < stop.wall.micros)
    (hend : stop.wall.micros ≤ lastMidnight) {count : Int} (hcount : 1 ≤ count)
    (withSeconds : Bool) (timezone : Option ZoneRef) :
    ∃ (joined turned : Pattern) (ds es merged : List DateTime),
      compile (a ++ "|" ++ b) = .ok joined ∧ compile (b ++ "|" ++ a) = .ok turned ∧
      p.Lists zones settings start stop withSeconds timezone ds ∧
      q.Lists zones settings start stop withSeconds timezone es ∧
      OrderedUnion ds es merged ∧
      joined.matchedDates zones settings (.dateTime start) (some (.dateTime stop)) count
          (some withSeconds) timezone =
        .ok { dates := merged.take count.toNat, warning := none } ∧
      turned.matchedDates zones settings (.dateTime start) (some (.dateTime stop)) count
          (some withSeconds) timezone =
        .ok { dates := merged.take count.toNat, warning := none } := by
  obtain ⟨joined, hjoined, halternatives⟩ := exists_compile_joined hp hq
  obtain ⟨turned, hturned, halternatives'⟩ := exists_compile_joined hq hp
  have hunion := orderedUnion_naiveMatches halternatives start.wall stop.wall withSeconds
  have hunion' := orderedUnion_naiveMatches halternatives' start.wall stop.wall withSeconds
  refine ⟨joined, turned, _, _, _, hjoined, hturned,
    p.lists_of_naive zones hcap hstart hstop hlt hend withSeconds timezone,
    q.lists_of_naive zones hcap hstart hstop hlt hend withSeconds timezone, hunion,
    joined.matchedDates_eq_take zones hcap hstart hstop hlt hend hcount withSeconds timezone, ?_⟩
  rw [hunion.unique hunion'.symm]
  exact turned.matchedDates_eq_take zones hcap hstart hstop hlt hend hcount withSeconds timezone

/-- Half past noon and half past six in the evening on the days of the weekend. -/
def weekendHalfHours : Pattern where
  expression := "30 12,18 * * 0,6"
  alternatives := [{
    layout := .standard
    minute := .values (.ofList [30])
    hour := .values (.ofList [12, 18])
    dayOfWeek := .values (.ofList [0, 6]) }]

end Pattern

/-- Midnight of Thursday, 29 February 2024. -/
def DateTime.leapDay2024 : DateTime := .naive ⟨63844761600000000, by decide, by decide⟩

/-- Midnight of the Monday behind it. -/
def DateTime.mondayAfterLeapDay2024 : DateTime :=
  .naive ⟨63845107200000000, by decide, by decide⟩

open DateTime (leapDay2024 mondayAfterLeapDay2024)

/-- Each expression has its matches on days that the other passes over. -/
theorem Pattern.matchedDates_joined_leapDay2024 :
    ∃ (joined turned : Pattern) (ds es merged : List DateTime),
      compile ("0 12 29 2 *" ++ "|" ++ "30 12,18 * * 0,6") = .ok joined ∧
      compile ("30 12,18 * * 0,6" ++ "|" ++ "0 12 29 2 *") = .ok turned ∧
      leapDayNoon.Lists [] {} leapDay2024 mondayAfterLeapDay2024 false none ds ∧
      weekendHalfHours.Lists [] {} leapDay2024 mondayAfterLeapDay2024 false none es ∧
      OrderedUnion ds es merged ∧
      joined.matchedDates [] {} (.dateTime leapDay2024) (some (.dateTime mondayAfterLeapDay2024)) 3
        (some false) none = .ok { dates := merged.take 3, warning := none } ∧
      turned.matchedDates [] {} (.dateTime leapDay2024) (some (.dateTime mondayAfterLeapDay2024)) 3
        (some false) none = .ok { dates := merged.take 3, warning := none } :=
  matchedDates_joined (a := "0 12 29 2 *") (b := "30 12,18 * * 0,6") rfl rfl [] rfl rfl rfl
    (by decide) (by decide) (by decide) false none

end CronSchedule
