import CronSchedule.Proofs.Enumerate.Sound

/-!
# A scan tick by tick

A scan is a loop: it tests the tick that it has come to, and goes on until the stop is reached
or enough matches are found.  A limit on ticks does not take part in the loop, it only says
after how many tested ticks the loop is left.  So a scan with a limit goes the same way as one
without, up to where it is left, and whether it was cut is seen from the place it has reached:
there are a tick before the stop and matches still wanted.

* `Scan.Place`, `Scan.IsOver` — how far a loop has come, and whether it ends there;
* `Scan.test` — what testing one tick does;
* `Scan.Walks` — the places that a loop reaches, with the number of tested ticks;
* `Scan.LeftAt` — where a loop with a limit is left, and after how many ticks;
* `Scan.run_eq_ok_iff` — the result of a scan is read off the place at which it is left;
* `Scan.LeftAt.not_isOver_iff` — the loop is cut when the limit, and nothing else, is reached;
* `Scan.LeftAt.shorten` — under a lower limit the loop is left on the way;
* `Scan.LeftAt.isOver` — when all ticks of the window may be tested the loop ends by itself;
* `Scan.exists_run_of_run_gridSize` — a scan that succeeds without a limit does so under every
  limit.
-/

namespace CronSchedule.Scan

/-! ### Places -/

/-- How far the loop of a scan has come: the tick to be tested next, and the matches so far,
the latest first. -/
structure Place where
  tick : WallTime
  found : List WallTime

/-- The loop ends at the place: the stop is reached, or there are enough matches. -/
def IsOver (s : Scan) (count : Nat) (a : Place) : Prop :=
  s.stop.micros ≤ a.tick.micros ∨ count ≤ a.found.length

instance (s : Scan) (count : Nat) (a : Place) : Decidable (s.IsOver count a) :=
  inferInstanceAs (Decidable (_ ∨ _))

/-- The place behind the tested tick.  The match that completes the count is not left. -/
def test (s : Scan) (count : Nat) (a : Place) : Except Fault Place :=
  match s.read a.tick with
  | none => .error .beyondCalendar
  | some shown =>
    match s.pattern.acceptsDate (shown.wall.reading s.withSeconds) with
    | none => .error .noSuchMonth
    | some false =>
      match s.skipDay? a.tick shown.wall with
      | none => .error .beyondCalendar
      | some next => .ok ⟨next, a.found⟩
    | some true =>
      match s.pattern.accepts (shown.wall.reading s.withSeconds) with
      | none => .error .noSuchMonth
      | some hit =>
        let found := if hit then a.tick :: a.found else a.found
        if count ≤ found.length then .ok ⟨a.tick, found⟩
        else
          match a.tick.add? s.step with
          | none => .error .beyondCalendar
          | some next => .ok ⟨next, found⟩

/-- From one place to another the loop tests so many ticks. -/
inductive Walks (s : Scan) (count : Nat) : Nat → Place → Place → Prop
  | stay (a : Place) : Walks s count 0 a a
  | test {n : Nat} {a b c : Place} : ¬ s.IsOver count a → s.test count a = .ok b →
      Walks s count n b c → Walks s count (n + 1) a c

/-- Under a limit on ticks the loop is left at a place after so many tested ticks: it ends there
or the limit is reached. -/
structure LeftAt (s : Scan) (count limit : Nat) (a : Place) (k : Nat) (b : Place) : Prop where
  walks : s.Walks count k a b
  le : k ≤ limit
  isOver_or_eq : s.IsOver count b ∨ k = limit

variable {s : Scan} {count : Nat} {a b c : Place}

/-! ### One tick -/

/-- A skip leads at least one step ahead. -/
theorem add_step_le_of_skipDay? {tick wall next : WallTime}
    (h : s.skipDay? tick wall = some next) : tick.micros + s.step ≤ next.micros := by
  unfold skipDay? at h
  obtain ⟨midnight, -, h⟩ := Option.bind_eq_some_iff.mp h
  obtain ⟨target, -, h⟩ := Option.bind_eq_some_iff.mp h
  have hone : s.step * 1 ≤ s.step * max (s.stepsTo tick target) 1 :=
    Int.mul_le_mul_of_nonneg_left (Int.le_max_right _ _) (Int.le_of_lt s.step_pos)
  rw [Int.mul_one] at hone
  rw [WallTime.add?_eq_some_iff.mp h]
  omega

/-- A test adds the tick to the matches or adds nothing, and unless the count is complete the
next tick lies at least one step ahead. -/
theorem test_cases (ha : ¬ s.IsOver count a) (h : s.test count a = .ok b) :
    (b.found = a.found ∨ b.found = a.tick :: a.found) ∧
      (count ≤ b.found.length ∨ a.tick.micros + s.step ≤ b.tick.micros) := by
  have hfew : ¬ count ≤ a.found.length := fun hmany => ha (.inr hmany)
  unfold test at h
  split at h
  · cases h
  split at h
  · cases h
  · split at h
    · cases h
    · rename_i hskip
      cases h
      exact ⟨.inl rfl, .inr (add_step_le_of_skipDay? hskip)⟩
  · split at h
    · cases h
    · rename_i hit _
      have hfound : (if hit then a.tick :: a.found else a.found) = a.found ∨
          (if hit then a.tick :: a.found else a.found) = a.tick :: a.found := by
        cases hit
        · exact .inl rfl
        · exact .inr rfl
      generalize (if hit then a.tick :: a.found else a.found) = found at h hfound
      simp only at h
      split at h
      · rename_i hmany
        cases h
        exact ⟨hfound, .inl hmany⟩
      · split at h
        · cases h
        · rename_i hnext
          cases h
          exact ⟨hfound, .inr (Int.le_of_eq (WallTime.add?_eq_some_iff.mp hnext).symm)⟩

/-- A scan that may test a tick goes on from the place behind it. -/
theorem run_succ_eq_test (ha : ¬ s.IsOver count a) (budget : Nat) :
    s.run (budget + 1) (count - a.found.length) a.tick a.found =
      s.test count a >>= fun b =>
        if count ≤ b.found.length then .ok ⟨b.found.reverse, none⟩
        else s.run budget (count - b.found.length) b.tick b.found := by
  have hlt : ¬ s.stop.micros ≤ a.tick.micros := fun hle => ha (.inl hle)
  have hfew : ¬ count ≤ a.found.length := fun hmany => ha (.inr hmany)
  rw [run, if_neg hlt, test]
  cases s.read a.tick with
  | none => rfl
  | some shown =>
    dsimp only
    cases s.pattern.acceptsDate (shown.wall.reading s.withSeconds) with
    | none => rfl
    | some dateAccepted =>
      cases dateAccepted with
      | false =>
        dsimp only
        cases s.skipDay? a.tick shown.wall with
        | none => rfl
        | some next => exact (if_neg hfew).symm
      | true =>
        dsimp only
        cases s.pattern.accepts (shown.wall.reading s.withSeconds) with
        | none => rfl
        | some hit =>
          cases hit with
          | false =>
            simp only [Bool.false_and, Bool.false_eq_true, if_false, if_neg hfew]
            cases a.tick.add? s.step with
            | none => rfl
            | some next => exact (if_neg hfew).symm
          | true =>
            simp only [Bool.true_and, decide_eq_true_eq, if_true, List.length_cons]
            by_cases hlast : count ≤ a.found.length + 1
            · rw [if_pos (by omega), if_pos hlast]
              exact (if_pos hlast).symm
            · rw [if_neg (by omega), if_neg hlast]
              cases a.tick.add? s.step with
              | none => rfl
              | some next =>
                refine Eq.trans ?_ (if_neg hlast).symm
                rw [Nat.sub_sub]
                rfl

/-! ### Walks -/

namespace Walks

/-- From a place at which the loop ends it goes nowhere. -/
theorem eq_of_isOver {n : Nat} (h : s.Walks count n a b) (ha : s.IsOver count a) :
    n = 0 ∧ b = a := by
  cases h with
  | stay => exact ⟨rfl, rfl⟩
  | test hnot => exact absurd ha hnot

/-- Before a place at which the loop does not end it does not end either. -/
theorem not_isOver {n : Nat} (h : s.Walks count n a b) (hb : ¬ s.IsOver count b) :
    ¬ s.IsOver count a := by
  cases h with
  | stay => exact hb
  | test hnot => exact hnot

/-- Matches are only added. -/
theorem suffix {n : Nat} (h : s.Walks count n a b) : a.found <:+ b.found := by
  induction h with
  | stay => exact List.suffix_rfl
  | test hnot htest _ ih =>
    refine List.IsSuffix.trans ?_ ih
    rcases (test_cases hnot htest).1 with hsame | hmore
    · exact hsame ▸ List.suffix_rfl
    · exact hmore ▸ List.suffix_cons _ _

/-- A walk passes through the places of the shorter walks. -/
theorem split {n m : Nat} (h : s.Walks count (n + m) a b) :
    ∃ c, s.Walks count n a c ∧ s.Walks count m c b := by
  induction n generalizing a with
  | zero =>
    rw [Nat.zero_add] at h
    exact ⟨a, .stay a, h⟩
  | succ n ih =>
    rw [Nat.succ_add] at h
    cases h with
    | test hnot htest hrest =>
      obtain ⟨c, hfront, hback⟩ := ih hrest
      exact ⟨c, .test hnot htest hfront, hback⟩

/-- Each tested tick makes the window one tick smaller. -/
theorem add_gridSize_le {n : Nat} (h : s.Walks count n a b) (hb : ¬ s.IsOver count b) :
    n + s.gridSize b.tick ≤ s.gridSize a.tick := by
  induction h with
  | stay => exact Nat.le_of_eq (Nat.zero_add _)
  | test hnot htest hrest ih =>
    have hlt := Int.not_le.mp fun hle => hnot (.inl hle)
    have hnext := (test_cases hnot htest).2.resolve_left fun hmany =>
      hrest.not_isOver hb (.inr hmany)
    have hsmaller := s.gridSize_lt_of_le hlt hnext
    have := ih hb
    omega

end Walks

/-! ### Limits -/

/-- A scan succeeds exactly when its loop is left somewhere, and what it finds are the matches
there; it is cut where the loop does not end. -/
theorem run_eq_ok_iff (limit : Nat) {result : Found} (ha : a.found.length < count) :
    s.run limit (count - a.found.length) a.tick a.found = .ok result ↔
      ∃ k b, s.LeftAt count limit a k b ∧
        result = ⟨b.found.reverse, if s.IsOver count b then none else some b.tick⟩ := by
  induction limit generalizing a with
  | zero =>
    have hrun : s.run 0 (count - a.found.length) a.tick a.found =
        .ok ⟨a.found.reverse, if s.IsOver count a then none else some a.tick⟩ := by
      rw [run]
      by_cases hstop : s.stop.micros ≤ a.tick.micros
      · rw [if_pos hstop, if_pos (.inl hstop)]
      · have hnot : ¬ s.IsOver count a := not_or.mpr ⟨hstop, Nat.not_le.mpr ha⟩
        rw [if_neg hstop, if_neg hnot]
    rw [hrun]
    constructor
    · intro h
      exact ⟨0, a, ⟨.stay a, Nat.le_refl 0, .inr rfl⟩, (Except.ok.inj h).symm⟩
    · rintro ⟨k, b, ⟨hwalks, hle, -⟩, rfl⟩
      obtain rfl := Nat.le_zero.mp hle
      cases hwalks
      rfl
  | succ limit ih =>
    by_cases hstop : s.stop.micros ≤ a.tick.micros
    · have hover : s.IsOver count a := .inl hstop
      rw [run_of_le hstop]
      constructor
      · intro h
        refine ⟨0, a, ⟨.stay a, Nat.zero_le _, .inl hover⟩, ?_⟩
        rw [if_pos hover, ← Except.ok.inj h]
      · rintro ⟨k, b, hleft, rfl⟩
        obtain ⟨-, rfl⟩ := hleft.walks.eq_of_isOver hover
        rw [if_pos hover]
    have hnot : ¬ s.IsOver count a := not_or.mpr ⟨hstop, Nat.not_le.mpr ha⟩
    rw [run_succ_eq_test hnot]
    constructor
    · intro h
      cases htest : s.test count a with
      | error f =>
        rw [htest] at h
        cases h
      | ok c =>
        rw [htest] at h
        change (if count ≤ c.found.length then _ else _) = _ at h
        split at h
        · rename_i hmany
          refine ⟨1, c, ⟨.test hnot htest (.stay c), Nat.succ_le_succ (Nat.zero_le _),
            .inl (.inr hmany)⟩, ?_⟩
          rw [if_pos (.inr hmany), ← Except.ok.inj h]
        · rename_i hfew
          obtain ⟨k, b, hleft, hresult⟩ := (ih (Nat.not_le.mp hfew)).mp h
          exact ⟨k + 1, b, ⟨.test hnot htest hleft.walks, Nat.succ_le_succ hleft.le,
            hleft.isOver_or_eq.imp_right (congrArg (· + 1))⟩, hresult⟩
    · rintro ⟨k, b, hleft, rfl⟩
      cases hleft.walks with
      | stay =>
        -- the loop does not end here, and the limit is not reached
        rcases hleft.isOver_or_eq with hover | heq
        · exact absurd hover hnot
        · cases heq
      | test hnot htest hrest =>
        rename_i n c
        rw [htest]
        change (if count ≤ c.found.length then _ else _) = _
        by_cases hmany : count ≤ c.found.length
        · obtain ⟨-, rfl⟩ := hrest.eq_of_isOver (.inr hmany)
          rw [if_pos hmany, if_pos (.inr hmany)]
        · rw [if_neg hmany]
          exact (ih (Nat.not_le.mp hmany)).mpr ⟨n, b, ⟨hrest, Nat.le_of_succ_le_succ hleft.le,
            hleft.isOver_or_eq.imp_right Nat.succ.inj⟩, rfl⟩

namespace LeftAt

variable {limit k : Nat}

/-- The loop does not end where it is left when the limit is reached with matches wanted and a
tick before the stop. -/
theorem not_isOver_iff (h : s.LeftAt count limit a k b) : ¬ s.IsOver count b ↔
    k = limit ∧ b.found.length < count ∧ b.tick.micros < s.stop.micros := by
  rw [IsOver, not_or, Int.not_le, Nat.not_le]
  constructor
  · rintro ⟨hstop, hfew⟩
    have heq := h.isOver_or_eq.resolve_left
      (not_or.mpr ⟨Int.not_le.mpr hstop, Nat.not_le.mpr hfew⟩)
    exact ⟨heq, hfew, hstop⟩
  · rintro ⟨-, hfew, hstop⟩
    exact ⟨hstop, hfew⟩

/-- When all ticks of the window may be tested the loop ends by itself. -/
theorem isOver (h : s.LeftAt count (s.gridSize a.tick) a k b) : s.IsOver count b := by
  refine Decidable.byContradiction fun hb => ?_
  obtain ⟨hk, -, hstop⟩ := h.not_isOver_iff.mp hb
  obtain ⟨more, hmore⟩ := s.exists_gridSize hstop
  have := h.walks.add_gridSize_le hb
  omega

/-- Under any other limit a loop that ends by itself is left on the way, and where it has not
ended it has met some of the matches only. -/
theorem shorten (h : s.LeftAt count limit a k b) (hb : s.IsOver count b) (n : Nat) :
    ∃ m c, s.LeftAt count n a m c ∧ c.found <:+ b.found ∧ (s.IsOver count c → c = b) := by
  rcases Nat.le_total k n with hle | hle
  · exact ⟨k, b, ⟨h.walks, hle, .inl hb⟩, List.suffix_rfl, fun _ => rfl⟩
  · obtain ⟨rest, rfl⟩ := Nat.exists_eq_add_of_le hle
    obtain ⟨c, hfront, hback⟩ := h.walks.split
    refine ⟨n, c, ⟨hfront, Nat.le_refl n, .inr rfl⟩, hback.suffix, fun hc => ?_⟩
    exact (hback.eq_of_isOver hc).2.symm

end LeftAt

/-- A scan that succeeds when all ticks of the window may be tested succeeds under every limit, and
finds the first of the same matches. -/
theorem exists_run_of_run_gridSize {first : WallTime} {result : Found} (hcount : 0 < count)
    (h : s.run (s.gridSize first) count first [] = .ok result) (limit : Nat) :
    ∃ cut, s.run limit count first [] = .ok cut ∧ cut.ticks <+: result.ticks ∧
      (cut.cut = none → cut.ticks = result.ticks) := by
  obtain ⟨_, whole, hwhole, rfl⟩ :=
    (run_eq_ok_iff (a := ⟨first, []⟩) (s.gridSize first) hcount).mp h
  have hover := LeftAt.isOver (a := ⟨first, []⟩) hwhole
  obtain ⟨k, place, hleft, hsuffix, hend⟩ := hwhole.shorten hover limit
  refine ⟨_, (run_eq_ok_iff limit hcount).mpr ⟨k, place, hleft, rfl⟩,
    List.reverse_prefix.mpr hsuffix, fun hcut => ?_⟩
  have hplace : s.IsOver count place := Decidable.byContradiction fun hnot => by
    simp [hnot] at hcut
  rw [hend hplace]

end CronSchedule.Scan
