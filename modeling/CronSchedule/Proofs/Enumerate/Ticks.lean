import CronSchedule.Calendar.WallTime

/-!
# The ticks of a window

`start.ticksUntil stop step` lists the readings `start`, `start + step`, `start + 2 step`
and so on that lie before `stop`: what a scan that leaves nothing out would look at.

* `WallTime.mem_ticksUntil`, `WallTime.ticksUntil_ascending` — what the list holds, and in
  which order;
* `WallTime.ticksUntil_of_lt` — the first tick, and the ticks behind it;
* `WallTime.exists_ticksUntil_append` — the ticks from a later one on;
* `WallTime.filter_ticksUntil_of_forall` — a search may pass over ticks that it refuses;
* `WallTime.find?_ticksUntil_eq_some_iff` — what a search finds is the first that passes;
* `WallTime.filter_ticksUntil_of_find?` — behind what it finds a search goes on from the
  next tick.
-/

namespace CronSchedule.WallTime

/-- The readings at whole steps from `start` on that lie before `stop`. -/
def ticksUntil (start stop : WallTime) (step : Int) : List WallTime :=
  (List.range (-((start.micros - stop.micros) / step)).toNat).filterMap fun (k : Nat) =>
    start.add? (step * k)

variable {start stop : WallTime} {step : Int}

theorem mul_succ_steps (step : Int) (k : Nat) : step * ((k + 1 : Nat) : Int) = step + step * k := by
  rw [Int.natCast_succ, Int.mul_add, Int.mul_one, Int.add_comm]

/-- The quotient rounded up counts the steps that stay before the target. -/
theorem lt_neg_ediv_iff (hstep : 0 < step) {a b k : Int} :
    k < -((a - b) / step) ↔ a + step * k < b := by
  have hdiv : (a - b) / step < -k ↔ a - b < -k * step := Int.ediv_lt_iff_lt_mul hstep
  rw [Int.neg_mul, Int.mul_comm k] at hdiv
  omega

/-- Whole steps lead from a multiple of the step to every later one. -/
theorem exists_steps_of_whole (hstep : 0 < step) {t u : WallTime} (ht : t.micros % step = 0)
    (hu : u.micros % step = 0) (hle : t.micros ≤ u.micros) :
    ∃ k : Nat, u.micros = t.micros + step * k := by
  have hdvd : (u.micros - t.micros) % step = 0 := by
    rw [Int.sub_emod, hu, ht, Int.sub_zero, Int.zero_emod]
  obtain ⟨n, hn⟩ := Int.dvd_of_emod_eq_zero hdvd
  have hnonneg : 0 ≤ n := Int.nonneg_of_mul_nonneg_right (by omega) hstep
  exact ⟨n.toNat, by rw [Int.toNat_of_nonneg hnonneg]; omega⟩

/-- The list holds the readings that lie whole steps behind the start and before the stop. -/
theorem mem_ticksUntil (hstep : 0 < step) {t : WallTime} :
    t ∈ start.ticksUntil stop step ↔
      t.micros < stop.micros ∧ ∃ k : Nat, t.micros = start.micros + step * k := by
  simp only [ticksUntil, List.mem_filterMap, List.mem_range, add?_eq_some_iff]
  constructor
  · rintro ⟨k, hk, ht⟩
    exact ⟨ht ▸ (lt_neg_ediv_iff hstep).mp (Int.lt_toNat.mp hk), k, ht⟩
  · rintro ⟨hlt, k, ht⟩
    exact ⟨k, Int.lt_toNat.mpr ((lt_neg_ediv_iff hstep).mpr (ht ▸ hlt)), ht⟩

/-- The list holds no reading before the start, and none from the stop on. -/
theorem bounds_of_mem_ticksUntil (hstep : 0 < step) {t : WallTime}
    (h : t ∈ start.ticksUntil stop step) : start.micros ≤ t.micros ∧ t.micros < stop.micros := by
  obtain ⟨hlt, k, hk⟩ := (mem_ticksUntil hstep).mp h
  have hsteps := Int.mul_nonneg (Int.le_of_lt hstep) (Int.natCast_nonneg k)
  omega

/-- From a multiple of the step on the list holds the multiples of it. -/
theorem mem_ticksUntil_of_whole (hstep : 0 < step) (hstart : start.micros % step = 0)
    {t : WallTime} : t ∈ start.ticksUntil stop step ↔
      t.micros % step = 0 ∧ start.micros ≤ t.micros ∧ t.micros < stop.micros := by
  constructor
  · intro h
    obtain ⟨-, k, hk⟩ := (mem_ticksUntil hstep).mp h
    refine ⟨?_, bounds_of_mem_ticksUntil hstep h⟩
    rw [hk, Int.add_mul_emod_self_left, hstart]
  · rintro ⟨hwhole, hle, hlt⟩
    exact (mem_ticksUntil hstep).mpr ⟨hlt, exists_steps_of_whole hstep hstart hwhole hle⟩

/-- The list ascends. -/
theorem ticksUntil_ascending (hstep : 0 < step) :
    (start.ticksUntil stop step).Pairwise fun t u => t.micros < u.micros := by
  rw [ticksUntil, List.pairwise_filterMap]
  refine List.pairwise_lt_range.imp ?_
  intro i j hij t ht u hu
  rw [add?_eq_some_iff.mp ht, add?_eq_some_iff.mp hu]
  have := Int.mul_lt_mul_of_pos_left (Int.ofNat_lt.mpr hij) hstep
  omega

theorem ticksUntil_of_le (hstep : 0 < step) (h : stop.micros ≤ start.micros) :
    start.ticksUntil stop step = [] := by
  rw [List.eq_nil_iff_forall_not_mem]
  intro t ht
  have := bounds_of_mem_ticksUntil hstep ht
  omega

/-- The first tick is the start, and behind it come the ticks from the next one on. -/
theorem ticksUntil_of_lt (hstep : 0 < step) (h : start.micros < stop.micros) {next : WallTime}
    (hnext : start.add? step = some next) :
    start.ticksUntil stop step = start :: next.ticksUntil stop step := by
  rw [add?_eq_some_iff] at hnext
  have hcount : (-((start.micros - stop.micros) / step)).toNat =
      (-((next.micros - stop.micros) / step)).toNat + 1 := by
    have hshift : next.micros - stop.micros = start.micros - stop.micros + step := by omega
    have hneg : (start.micros - stop.micros) / step < 0 :=
      Int.ediv_neg_of_neg_of_pos (by omega) hstep
    rw [hshift, Int.add_ediv_of_dvd_right (Int.dvd_refl step), Int.ediv_self (Int.ne_of_gt hstep)]
    omega
  have hfirst : start.add? (step * (0 : Nat)) = some start := by
    rw [add?_eq_some_iff]
    simp
  have hrest : ((fun k : Nat => start.add? (step * k)) ∘ Nat.succ) =
      fun k : Nat => next.add? (step * k) := by
    funext k
    change start.add? (step * ((k + 1 : Nat) : Int)) = _
    rw [add?, add?, hnext, mul_succ_steps, Int.add_assoc]
  rw [ticksUntil, hcount, List.range_succ_eq_map, List.filterMap_cons, hfirst,
    List.filterMap_map, hrest, ticksUntil]

/-- Whole steps further on the list is the same but for the ticks passed over. -/
theorem exists_ticksUntil_append (hstep : 0 < step) (stop : WallTime) {later : WallTime} :
    ∀ (k : Nat) {start : WallTime}, later.micros = start.micros + step * k →
      ∃ front, start.ticksUntil stop step = front ++ later.ticksUntil stop step ∧
        ∀ t ∈ front, t.micros < later.micros := by
  intro k
  induction k with
  | zero =>
    intro start hlater
    rw [WallTime.ext (show later.micros = start.micros by simpa using hlater)]
    exact ⟨[], rfl, fun t ht => by cases ht⟩
  | succ k ih =>
    intro start hlater
    rw [mul_succ_steps] at hlater
    have hnonneg := Int.mul_nonneg (Int.le_of_lt hstep) (Int.natCast_nonneg k)
    by_cases hlt : start.micros < stop.micros
    · have hmid : 0 ≤ start.micros + step ∧ start.micros + step < calendarEnd := by
        have := start.nonneg
        have := later.lt_end
        omega
      obtain ⟨next, hnext⟩ : ∃ next, start.add? step = some next :=
        ⟨⟨_, hmid.1, hmid.2⟩, add?_eq_some_iff.mpr rfl⟩
      have hnext' := add?_eq_some_iff.mp hnext
      have hlater' : later.micros = next.micros + step * k := by omega
      obtain ⟨front, hfront, hbefore⟩ := ih hlater'
      refine ⟨start :: front, ?_, ?_⟩
      · rw [ticksUntil_of_lt hstep hlt hnext, hfront, List.cons_append]
      · intro t ht
        rcases List.mem_cons.mp ht with rfl | ht
        · omega
        · exact hbefore t ht
    · rw [ticksUntil_of_le hstep (by omega), ticksUntil_of_le hstep (by omega)]
      exact ⟨[], rfl, fun t ht => by cases ht⟩

/-- A search that refuses every tick before a later one may go on from there. -/
theorem filter_ticksUntil_of_forall (hstep : 0 < step) {hit : WallTime → Bool} {later : WallTime}
    (k : Nat) {start : WallTime} (hlater : later.micros = start.micros + step * k)
    (hrefused : ∀ (j : Nat) (t : WallTime), j < k → t.micros = start.micros + step * j →
      t.micros < stop.micros → hit t = false) :
    (start.ticksUntil stop step).filter hit = (later.ticksUntil stop step).filter hit := by
  obtain ⟨front, hfront, hbefore⟩ := exists_ticksUntil_append hstep stop k hlater
  have hnone : front.filter hit = [] := by
    rw [List.filter_eq_nil_iff]
    intro t ht
    have hmem : t ∈ start.ticksUntil stop step := hfront ▸ List.mem_append_left _ ht
    obtain ⟨hstop, j, hj⟩ := (mem_ticksUntil hstep).mp hmem
    have hless := hbefore t ht
    rw [hlater, hj] at hless
    have hjk : (j : Int) < k := Int.lt_of_mul_lt_mul_left (by omega) (Int.le_of_lt hstep)
    simp [hrefused j t (Int.ofNat_lt.mp hjk) hj hstop]
  rw [hfront, List.filter_append, hnone, List.nil_append]

/-- The tick that a search finds is one of the list that passes, and none before it does. -/
theorem find?_ticksUntil_eq_some (hstep : 0 < step) {hit : WallTime → Bool} {t : WallTime}
    (h : (start.ticksUntil stop step).find? hit = some t) :
    t ∈ start.ticksUntil stop step ∧ hit t = true ∧
      ∀ u ∈ start.ticksUntil stop step, u.micros < t.micros → hit u = false := by
  obtain ⟨hpass, before, behind, hsplit, hrefused⟩ := List.find?_eq_some_iff_append.mp h
  have hascending : (start.ticksUntil stop step).Pairwise fun t u => t.micros < u.micros :=
    ticksUntil_ascending hstep
  rw [hsplit] at hascending ⊢
  refine ⟨by simp, hpass, fun u hu hlt => ?_⟩
  rcases List.mem_append.mp hu with hu | hu
  · simpa using hrefused u hu
  · have hle : t.micros ≤ u.micros := by
      rcases List.mem_cons.mp hu with rfl | hu
      · exact Int.le_refl _
      · exact Int.le_of_lt
          ((List.pairwise_cons.mp (List.pairwise_append.mp hascending).2.1).1 u hu)
    omega

/-- What a search finds is the first of the list that passes. -/
theorem find?_ticksUntil_eq_some_iff (hstep : 0 < step) {hit : WallTime → Bool} {t : WallTime} :
    (start.ticksUntil stop step).find? hit = some t ↔
      t ∈ start.ticksUntil stop step ∧ hit t = true ∧
        ∀ u ∈ start.ticksUntil stop step, u.micros < t.micros → hit u = false := by
  constructor
  · exact find?_ticksUntil_eq_some hstep
  · rintro ⟨hmem, hpass, hfirst⟩
    cases hfind : (start.ticksUntil stop step).find? hit with
    | none => exact absurd hpass (List.find?_eq_none.mp hfind t hmem)
    | some u =>
      obtain ⟨humem, hupass, hufirst⟩ := find?_ticksUntil_eq_some hstep hfind
      -- both pass, so neither comes before the other
      have hle : t.micros ≤ u.micros := Int.not_lt.mp fun hlt => by
        simp [hfirst u humem hlt] at hupass
      have hge : u.micros ≤ t.micros := Int.not_lt.mp fun hlt => by
        simp [hufirst t hmem hlt] at hpass
      rw [WallTime.ext (Int.le_antisymm hge hle)]

/-- Behind the first tick that passes, a search up to a later stop goes on from the next. -/
theorem filter_ticksUntil_of_find? (hstep : 0 < step) {hit : WallTime → Bool}
    {first t next : WallTime} (h : (start.ticksUntil first step).find? hit = some t)
    (hstop : t.micros < stop.micros) (hnext : t.add? step = some next) :
    (start.ticksUntil stop step).filter hit = t :: (next.ticksUntil stop step).filter hit := by
  obtain ⟨hmem, hpass, hfirst⟩ := find?_ticksUntil_eq_some hstep h
  obtain ⟨hlt, k, hk⟩ := (mem_ticksUntil hstep).mp hmem
  have hskip : (start.ticksUntil stop step).filter hit = (t.ticksUntil stop step).filter hit := by
    refine filter_ticksUntil_of_forall hstep k hk fun j u hj hu _ => ?_
    have hless := Int.mul_lt_mul_of_pos_left (Int.ofNat_lt.mpr hj) hstep
    exact hfirst u ((mem_ticksUntil hstep).mpr ⟨by omega, j, hu⟩) (by omega)
  rw [hskip, ticksUntil_of_lt hstep hstop hnext, List.filter_cons_of_pos hpass]

end CronSchedule.WallTime
