import CronSchedule.Enumerate.Scan
import CronSchedule.Proofs.Pattern.Answer
import Mathlib.Data.List.Forall2

/-!
# Two scans in lockstep

Two scans for one pattern go through their ticks side by side as long as their clocks show the
same and the ticks that follow related ticks are related again.  They then find related ticks,
and a limit cuts both or neither: what a scan does depends on nothing else.

* `Scan.Lockstep` — what each step of two scans has to preserve;
* `Scan.Lockstep.run` — what two whole scans preserve, by induction on their budget.
-/

namespace CronSchedule.Scan

/-- Two scans for one pattern, with ticks related so that both end at related ticks or
neither, the clocks show the same at related ticks before the stop, and the tick behind a skip
or a step is there for both and related. -/
structure Lockstep (s s' : Scan) (Related : WallTime → WallTime → Prop) : Prop where
  pattern_eq : s'.pattern = s.pattern
  withSeconds_eq : s'.withSeconds = s.withSeconds
  stops_iff : ∀ {t t'}, Related t t' → (s'.stop.micros ≤ t'.micros ↔ s.stop.micros ≤ t.micros)
  reads : ∀ {t t'}, Related t t' → t.micros < s.stop.micros →
    ∃ shown shown', s.read t = some shown ∧ s'.read t' = some shown' ∧ shown'.wall = shown.wall
  skips : ∀ {t t' shown}, Related t t' → t.micros < s.stop.micros → s.read t = some shown →
    ∃ next next', s.skipDay? t shown.wall = some next ∧ s'.skipDay? t' shown.wall = some next' ∧
      Related next next'
  steps : ∀ {t t'}, Related t t' → t.micros < s.stop.micros →
    ∃ next next', t.add? s.step = some next ∧ t'.add? s'.step = some next' ∧ Related next next'

/-- Two scans in lockstep find related ticks, and are cut at related ticks or not at all. -/
theorem Lockstep.run {s s' : Scan} {Related : WallTime → WallTime → Prop}
    (h : Lockstep s s' Related) :
    ∀ (budget wanted : Nat) {t t' : WallTime} {found found' : List WallTime}, Related t t' →
      List.Forall₂ Related found found' →
      ∃ result result', s.run budget wanted t found = .ok result ∧
        s'.run budget wanted t' found' = .ok result' ∧
        List.Forall₂ Related result.ticks result'.ticks ∧
        Option.Rel Related result.cut result'.cut := by
  intro budget
  induction budget with
  | zero =>
    intro wanted t t' found found' ht hfound
    rw [Scan.run, Scan.run]
    have hreverse := List.forall₂_reverse_iff.mpr hfound
    by_cases hstop : s.stop.micros ≤ t.micros
    · rw [if_pos hstop, if_pos ((h.stops_iff ht).mpr hstop)]
      exact ⟨_, _, rfl, rfl, hreverse, .none⟩
    · rw [if_neg hstop, if_neg (mt (h.stops_iff ht).mp hstop)]
      exact ⟨_, _, rfl, rfl, hreverse, .some ht⟩
  | succ budget ih =>
    intro wanted t t' found found' ht hfound
    rw [Scan.run, Scan.run]
    by_cases hstop : s.stop.micros ≤ t.micros
    · rw [if_pos hstop, if_pos ((h.stops_iff ht).mpr hstop)]
      exact ⟨_, _, rfl, rfl, List.forall₂_reverse_iff.mpr hfound, .none⟩
    rw [if_neg hstop, if_neg (mt (h.stops_iff ht).mp hstop)]
    have hlt := Int.not_le.mp hstop
    -- both test one reading
    obtain ⟨shown, shown', hread, hread', hwall⟩ := h.reads ht hlt
    have haccepts := s.pattern.accepts_reading s.withSeconds shown.wall
    obtain ⟨dateAccepted, hdate⟩ := Option.isSome_iff_exists.mp
      (s.pattern.isSome_acceptsDate (shown.wall.daysInMonth?_reading s.withSeconds))
    simp only [hread, hread', hwall, h.pattern_eq, h.withSeconds_eq, hdate, haccepts]
    cases dateAccepted with
    | false =>
      obtain ⟨next, next', hskip, hskip', hnext⟩ := h.skips ht hlt hread
      simp only [hskip, hskip']
      exact ih wanted hnext hfound
    | true =>
      obtain ⟨next, next', hstep, hstep', hnext⟩ := h.steps ht hlt
      simp only [hstep, hstep']
      cases s.pattern.admits s.withSeconds shown.wall with
      | false => exact ih wanted hnext hfound
      | true =>
        simp only [Bool.true_and, decide_eq_true_eq, if_true]
        split
        · exact ⟨_, _, rfl, rfl, List.forall₂_reverse_iff.mpr (.cons ht hfound), .none⟩
        · exact ih (wanted - 1) hnext (.cons ht hfound)

end CronSchedule.Scan
