import CronSchedule.Proofs.Enumerate.Naive
import Mathlib.Data.List.Sort

/-!
# Complete lists

A window has no more matches than ticks, so from that count on enumeration returns the same
list for every count: the complete list of the matches.  Without zones it ascends, and an
ascending list is settled by what it holds, so that two enumerations are compared by asking
for single readings.

* `Ascending` — the readings of a list ascend;
* `Pattern.Lists` — the complete list of a window;
* `Pattern.naiveMatches` — the matches among the ticks of a window without zones;
* `Pattern.lists_of_naive` — they are its complete list.
-/

namespace CronSchedule

/-! ### Ascending lists -/

/-- Lists along which a number grows are the same when they hold the same. -/
theorem eq_of_mem_iff_of_growing {α : Type} {number : α → Int} {xs ys : List α}
    (hxs : xs.Pairwise fun x y => number x < number y)
    (hys : ys.Pairwise fun x y => number x < number y) (h : ∀ x, x ∈ xs ↔ x ∈ ys) : xs = ys := by
  have hirrefl : Std.Irrefl fun x y : α => number x < number y :=
    ⟨fun x => Int.lt_irrefl (number x)⟩
  have hantisymm : Std.Antisymm fun x y : α => number x < number y :=
    ⟨fun _ _ hlt hgt => absurd hgt (Int.lt_asymm hlt)⟩
  exact List.Pairwise.eq_of_mem_iff hxs hys h

/-- The readings ascend. -/
def Ascending (ds : List DateTime) : Prop := ds.Pairwise fun d e => d.wall.micros < e.wall.micros

/-- Ascending lists that hold the same are the same. -/
theorem Ascending.eq_of_mem_iff {ds es : List DateTime} (hds : Ascending ds) (hes : Ascending es)
    (h : ∀ d, d ∈ ds ↔ d ∈ es) : ds = es :=
  eq_of_mem_iff_of_growing hds hes h

/-! ### Complete lists -/

namespace Pattern

/-- What enumeration returns for every count that is not below the number of ticks. -/
def Lists (p : Pattern) (zones : ZoneTable) (settings : Settings) (start stop : DateTime)
    (withSeconds : Bool) (timezone : Option ZoneRef) (dates : List DateTime) : Prop :=
  ∀ count : Int, (start.wall.ticksUntil stop.wall (tickStep withSeconds)).length ≤ count →
    p.matchedDates zones settings (.dateTime start) (some (.dateTime stop)) count
      (some withSeconds) timezone = .ok { dates, warning := none }

/-- The matches among the ticks of a window, without a zone. -/
def naiveMatches (p : Pattern) (start stop : WallTime) (withSeconds : Bool) : List DateTime :=
  ((start.ticksUntil stop (tickStep withSeconds)).filter (p.admits withSeconds)).map .naive

variable {settings : Settings} {start stop : WallTime} {withSeconds : Bool}

theorem mem_naiveMatches {p : Pattern} {d : DateTime} :
    d ∈ p.naiveMatches start stop withSeconds ↔
      ∃ t ∈ start.ticksUntil stop (tickStep withSeconds),
        p.admits withSeconds t = true ∧ .naive t = d := by
  simp only [naiveMatches, List.mem_map, List.mem_filter, and_assoc]

theorem ascending_naiveMatches (p : Pattern) (start stop : WallTime) (withSeconds : Bool) :
    Ascending (p.naiveMatches start stop withSeconds) :=
  List.pairwise_map.mpr
    ((WallTime.ticksUntil_ascending (tickStep_bounds withSeconds).1).filter _)

theorem length_naiveMatches_le (p : Pattern) (start stop : WallTime) (withSeconds : Bool) :
    (p.naiveMatches start stop withSeconds).length ≤
      (start.ticksUntil stop (tickStep withSeconds)).length := by
  rw [naiveMatches, List.length_map]
  exact List.length_filter_le _ _

/-- Without zones enumeration returns the first of the matches. -/
theorem matchedDates_eq_take {start stop : DateTime} {count : Int} (p : Pattern) (zones : ZoneTable)
    (hcap : settings.tickLimit = none) (hstart : start.zone = none) (hstop : stop.zone = none)
    (hlt : start.wall.micros < stop.wall.micros) (hend : stop.wall.micros ≤ lastMidnight)
    (hcount : 1 ≤ count) (withSeconds : Bool) (timezone : Option ZoneRef) :
    p.matchedDates zones settings (.dateTime start) (some (.dateTime stop)) count
        (some withSeconds) timezone =
      .ok {
        dates := (p.naiveMatches start.wall stop.wall withSeconds).take count.toNat
        warning := none } := by
  rw [matchedDates_of_naive p zones hcap hstart hstop hlt hend hcount, naiveMatches,
    ← List.map_take]
  rfl

/-- All of them are the complete list. -/
theorem lists_of_naive {start stop : DateTime} (p : Pattern) (zones : ZoneTable)
    (hcap : settings.tickLimit = none) (hstart : start.zone = none) (hstop : stop.zone = none)
    (hlt : start.wall.micros < stop.wall.micros) (hend : stop.wall.micros ≤ lastMidnight)
    (withSeconds : Bool) (timezone : Option ZoneRef) :
    p.Lists zones settings start stop withSeconds timezone
      (p.naiveMatches start.wall stop.wall withSeconds) := by
  intro count hcount
  have hfirst : start.wall ∈ start.wall.ticksUntil stop.wall (tickStep withSeconds) :=
    (WallTime.mem_ticksUntil (tickStep_bounds withSeconds).1).mpr ⟨hlt, 0, by simp⟩
  have hnonempty := List.length_pos_of_mem hfirst
  have hlength := p.length_naiveMatches_le start.wall stop.wall withSeconds
  rw [matchedDates_eq_take p zones hcap hstart hstop hlt hend (by omega),
    List.take_of_length_le (by omega)]

end Pattern

end CronSchedule
