import CronSchedule.Field.Compile
import CronSchedule.Proofs.Meaning.Span

/-!
# What the items of a field mean

An item denotes values, on a given date: the values of a range, of a range at a step, or in
the day fields the day that an `L` stands for.

* `Denotes` — the values that an item denotes on a date;
* `Item.Holds` — the values of an item that has been read;
* `Denotes.span_iff`, `Denotes.step_iff`, `Denotes.lastDay_iff`, `Denotes.saturday_iff`,
  `Denotes.lastWeekday_iff` — what each form denotes, and nothing else;
* `Field.denotes_iff_of_readItem` — an item that is read holds what its text denotes.
-/

namespace CronSchedule

open Text

/-! ### Items as texts -/

/-- The number of days of the month that the clock shows. -/
def WallTime.monthLength? (w : WallTime) : Option Int :=
  CronSchedule.monthLength? w.date.year w.date.month

/-- The item denotes a value of the field on the date that the clock shows. -/
inductive Denotes (f : Field) (w : WallTime) : List Char → Int → Prop
  /-- a value of a range -/
  | span {text : List Char} {first last n : Int} : Spans f.domain text first last →
      first ≤ n → n ≤ last → Denotes f w text (f.domain.normalize n)
  /-- a value of a range at whole steps from its start -/
  | step {base steps : List Char} {first last n : Int} {k : Nat} :
      Spans f.domain base first last → Numeral steps k → 0 < k → first ≤ n → n ≤ last →
      (k : Int) ∣ n - first → Denotes f w (base ++ '/' :: steps) (f.domain.normalize n)
  /-- the last day of the month -/
  | lastDay {text : List Char} {length : Int} : f = .dayOfMonth → upper text = ['L'] →
      w.monthLength? = some length → Denotes f w text length
  /-- Saturday -/
  | saturday {text : List Char} : f = .dayOfWeek → upper text = ['L'] → Denotes f w text 6
  /-- the last of the month's days that fall on a weekday -/
  | lastWeekday {text weekday : List Char} {n length : Int} : f = .dayOfWeek →
      upper text = weekday ++ ['L'] ∨ upper text = 'L' :: weekday → Writes f.domain weekday n →
      w.monthLength? = some length → length < w.date.day + 7 →
      Denotes f w text (f.domain.normalize n)

/-! ### Items that have been read -/

/-- The values of an item on the date that the clock shows. -/
def Item.Holds (d : Domain) (w : WallTime) (v : Int) : Item → Prop
  | span first last step => v ∈ (span first last step).values d
  | lastDay => w.monthLength? = some v
  | lastWeekday weekday =>
    v = weekday ∧ ∃ length, w.monthLength? = some length ∧ length < w.date.day + 7

/-- A span holds the values from its start up to its end at whole steps. -/
theorem Item.mem_spanValues {first last step n : Int} (hstep : 0 < step) :
    n ∈ spanValues first last step ↔ first ≤ n ∧ n ≤ last ∧ step ∣ n - first := by
  simp only [spanValues, List.mem_map, List.mem_range]
  constructor
  · rintro ⟨i, hi, rfl⟩
    have hle : (i : Int) ≤ (last - first) / step := by omega
    rw [Int.le_ediv_iff_mul_le hstep, Int.mul_comm] at hle
    have := Int.mul_nonneg (Int.le_of_lt hstep) (Int.natCast_nonneg i)
    exact ⟨by omega, by omega, ⟨i, by omega⟩⟩
  · rintro ⟨hge, hle, i, hi⟩
    have hnonneg : 0 ≤ i := Int.nonneg_of_mul_nonneg_right (by omega) hstep
    have hlast : i ≤ (last - first) / step := by
      rw [Int.le_ediv_iff_mul_le hstep, Int.mul_comm]
      omega
    exact ⟨i.toNat, by omega, by rw [Int.toNat_of_nonneg hnonneg]; omega⟩

theorem Item.holds_span_iff {d : Domain} {w : WallTime} {first last step v : Int}
    (hstep : 0 < step) :
    (Item.span first last step).Holds d w v ↔
      ∃ n, first ≤ n ∧ n ≤ last ∧ step ∣ n - first ∧ d.normalize n = v := by
  simp only [Holds, values, List.mem_map, mem_spanValues hstep]
  constructor
  · rintro ⟨n, ⟨hge, hle, hdvd⟩, hv⟩
    exact ⟨n, hge, hle, hdvd, hv⟩
  · rintro ⟨n, hge, hle, hdvd, hv⟩
    exact ⟨n, ⟨hge, hle, hdvd⟩, hv⟩

/-! ### What an item denotes -/

namespace Denotes

variable {f : Field} {w : WallTime} {text : List Char} {v : Int}

/-- Where no `L` has a meaning an item denotes values of a range, at steps or not. -/
theorem cases_of_not_mem_L (hL : f.domain.hasLast = true → 'L' ∉ upper text)
    (h : Denotes f w text v) :
    (∃ first last n, Spans f.domain text first last ∧ first ≤ n ∧ n ≤ last ∧
      f.domain.normalize n = v) ∨
    ∃ base steps first last n, ∃ k : Nat, base ++ '/' :: steps = text ∧
      Spans f.domain base first last ∧ Numeral steps k ∧ first ≤ n ∧ n ≤ last ∧
        (k : Int) ∣ n - first ∧ f.domain.normalize n = v := by
  cases h with
  | span hspans hge hle => exact .inl ⟨_, _, _, hspans, hge, hle, rfl⟩
  | step hspans hnumeral hpos hge hle hdvd =>
    exact .inr ⟨_, _, _, _, _, _, rfl, hspans, hnumeral, hge, hle, hdvd, rfl⟩
  | lastDay hf hupper _ =>
    subst hf
    exact absurd (hupper ▸ List.mem_singleton_self _) (hL rfl)
  | saturday hf hupper =>
    subst hf
    exact absurd (hupper ▸ List.mem_singleton_self _) (hL rfl)
  | lastWeekday hf hupper _ _ _ =>
    subst hf
    rcases hupper with hupper | hupper
    · exact absurd (hupper ▸ List.mem_append_right _ (List.mem_singleton_self _)) (hL rfl)
    · exact absurd (hupper ▸ List.mem_cons_self) (hL rfl)

/-- An item with an `L` denotes a value by one of the forms with `L`. -/
theorem cases_of_mem_L (hlast : f.domain.hasLast = true) (hL : 'L' ∈ upper text)
    (h : Denotes f w text v) :
    (f = .dayOfMonth ∧ upper text = ['L'] ∧ w.monthLength? = some v) ∨
    (f = .dayOfWeek ∧ upper text = ['L'] ∧ v = 6) ∨
    (f = .dayOfWeek ∧ ∃ weekday n length,
      (upper text = weekday ++ ['L'] ∨ upper text = 'L' :: weekday) ∧
      Writes f.domain weekday n ∧ w.monthLength? = some length ∧ length < w.date.day + 7 ∧
      v = f.domain.normalize n) := by
  cases h with
  | span hspans => exact absurd hL (hspans.not_mem_L hlast)
  | step hspans hnumeral =>
    -- neither the base nor the step has an `L`
    rw [upper_append, upper_cons, List.mem_append, List.mem_append] at hL
    rcases hL with hL | hL | hL
    · exact absurd hL (hspans.not_mem_L hlast)
    · exact absurd hL (by decide)
    · exact absurd hL hnumeral.not_mem_L
  | lastDay hf hupper hlength => exact .inl ⟨hf, hupper, hlength⟩
  | saturday hf hupper => exact .inr (.inl ⟨hf, hupper, rfl⟩)
  | lastWeekday hf hupper hwrites hlength hlt =>
    exact .inr (.inr ⟨hf, _, _, _, hupper, hwrites, hlength, hlt, rfl⟩)

/-- What a range denotes. -/
theorem span_iff {first last : Int} (hL : f.domain.hasLast = true → 'L' ∉ upper text)
    (hspans : Spans f.domain text first last) :
    Denotes f w text v ↔ ∃ n, first ≤ n ∧ n ≤ last ∧ f.domain.normalize n = v := by
  constructor
  · intro hdenotes
    rcases hdenotes.cases_of_not_mem_L hL with
      ⟨x, y, n, hspan, hge, hle, hv⟩ | ⟨base, steps, _, _, _, _, htext, _⟩
    · obtain ⟨rfl, rfl⟩ := hspan.unique hspans
      exact ⟨n, hge, hle, hv⟩
    · exact absurd (htext ▸ List.mem_append_right _ List.mem_cons_self) hspans.not_mem_slash
  · rintro ⟨n, hge, hle, rfl⟩
    exact .span hspans hge hle

/-- What a range at steps denotes. -/
theorem step_iff {base steps : List Char} {first last : Int} {k : Nat}
    (hL : f.domain.hasLast = true → 'L' ∉ upper (base ++ '/' :: steps))
    (hspans : Spans f.domain base first last) (hsteps : Numeral steps k) (hpos : 0 < k) :
    Denotes f w (base ++ '/' :: steps) v ↔
      ∃ n, first ≤ n ∧ n ≤ last ∧ (k : Int) ∣ n - first ∧ f.domain.normalize n = v := by
  constructor
  · intro hdenotes
    rcases hdenotes.cases_of_not_mem_L hL with
      ⟨_, _, _, hspan, _⟩ | ⟨base', steps', x, y, n, j, htext, hspan, hj, hge, hle, hdvd, hv⟩
    · exact absurd (List.mem_append_right _ List.mem_cons_self) hspan.not_mem_slash
    · -- a text is cut in one way before the slash
      obtain ⟨rfl, rfl⟩ := append_sep_inj hspan.not_mem_slash hspans.not_mem_slash htext
      obtain ⟨rfl, rfl⟩ := hspan.unique hspans
      rw [hj.unique hsteps] at hdvd
      exact ⟨n, hge, hle, hdvd, hv⟩
  · rintro ⟨n, hge, hle, hdvd, rfl⟩
    exact .step hspans hsteps hpos hge hle hdvd

/-! ### The forms with `L` -/

/-- One weekday at most stands beside an `L`. -/
theorem besideLast_inj {capitals s t : List Char} (hs : 'L' ∉ s) (ht : 'L' ∉ t)
    (h : capitals = s ++ ['L'] ∨ capitals = 'L' :: s)
    (h' : capitals = t ++ ['L'] ∨ capitals = 'L' :: t) : s = t := by
  -- an `L` on both sides leaves no weekday without one
  have hcross : ∀ {s t : List Char}, 'L' ∉ s → s ++ ['L'] = 'L' :: t → s = t := by
    intro s t hs h
    cases s with
    | nil => exact (List.cons.inj h).2
    | cons c s => exact absurd ((List.cons.inj h).1 ▸ List.mem_cons_self) hs
  rcases h with rfl | rfl <;> rcases h' with h' | h'
  · exact List.append_cancel_right h'
  · exact hcross hs h'
  · exact (hcross ht h'.symm).symm
  · exact (List.cons.inj h').2

/-- What `L` denotes in the day of the month. -/
theorem lastDay_iff (hupper : upper text = ['L']) :
    Denotes .dayOfMonth w text v ↔ w.monthLength? = some v := by
  constructor
  · intro hdenotes
    rcases hdenotes.cases_of_mem_L rfl (hupper ▸ List.mem_singleton_self _) with
      ⟨_, _, hlength⟩ | ⟨hf, _⟩ | ⟨hf, _⟩
    · exact hlength
    · cases hf
    · cases hf
  · exact fun hlength => .lastDay rfl hupper hlength

/-- What `L` denotes in the day of the week. -/
theorem saturday_iff (hupper : upper text = ['L']) : Denotes .dayOfWeek w text v ↔ v = 6 := by
  constructor
  · intro hdenotes
    rcases hdenotes.cases_of_mem_L rfl (hupper ▸ List.mem_singleton_self _) with
      ⟨hf, _⟩ | ⟨_, _, hv⟩ | ⟨_, weekday, n, _, hbeside, hwrites, _⟩
    · cases hf
    · exact hv
    · -- no weekday stands beside a bare `L`
      rw [hupper] at hbeside
      obtain rfl : weekday = [] :=
        besideLast_inj (hwrites.not_mem_capital_L rfl) List.not_mem_nil hbeside (.inl rfl)
      exact absurd rfl hwrites.ne_nil
  · rintro rfl
    exact .saturday rfl hupper

/-- What `L` beside a weekday denotes. -/
theorem lastWeekday_iff {weekday : List Char} {n : Int}
    (hbeside : upper text = weekday ++ ['L'] ∨ upper text = 'L' :: weekday)
    (hwrites : Writes Field.dayOfWeek.domain weekday n) :
    Denotes .dayOfWeek w text v ↔ v = Field.dayOfWeek.domain.normalize n ∧
      ∃ length, w.monthLength? = some length ∧ length < w.date.day + 7 := by
  have hnotL : 'L' ∉ weekday := hwrites.not_mem_capital_L rfl
  have hL : 'L' ∈ upper text := by
    rcases hbeside with h | h
    · exact h ▸ List.mem_append_right _ (List.mem_singleton_self _)
    · exact h ▸ List.mem_cons_self
  constructor
  · intro hdenotes
    rcases hdenotes.cases_of_mem_L rfl hL with
      ⟨hf, _⟩ | ⟨_, hupper, _⟩ | ⟨_, weekday', n', length, hbeside', hwrites', hlength, hlt, hv⟩
    · cases hf
    · rw [hupper] at hbeside
      obtain rfl : weekday = [] := besideLast_inj hnotL List.not_mem_nil hbeside (.inl rfl)
      exact absurd rfl hwrites.ne_nil
    · obtain rfl :=
        besideLast_inj (hwrites'.not_mem_capital_L rfl) hnotL hbeside' hbeside
      exact ⟨hwrites'.unique hwrites ▸ hv, length, hlength, hlt⟩
  · rintro ⟨rfl, length, hlength, hlt⟩
    exact .lastWeekday rfl hbeside hwrites hlength hlt

end Denotes

/-! ### Reading a span -/

namespace Field

variable {f : Field} {w : WallTime} {v : Int}

/-- The step that is read is the number that the text denotes. -/
theorem numeral_of_readStep {text item : List Char} {step : Int}
    (h : readStep text item = .ok step) : ∃ k : Nat, Numeral text k ∧ 0 < k ∧ step = k := by
  unfold readStep at h
  split at h
  rename_i negative digits hsplit
  split at h
  · rename_i hdigits
    cases hnumeral : asciiNumeral? digits with
    | none =>
      rw [hnumeral] at h
      cases h
    | some n =>
      rw [hnumeral] at h
      have hvalue := numeral_of_asciiNumeral? hdigits hnumeral
      cases negative with
      | true =>
        -- a step behind a dash is not positive
        have hle : -(n : Int) ≤ 0 := by omega
        simp only [if_true, if_pos hle] at h
        cases h
      | false =>
        obtain rfl : text = digits := by
          split at hsplit
          · cases (Prod.mk.inj hsplit).1
          · exact (Prod.mk.inj hsplit).2
        simp only [Bool.false_eq_true, if_false] at h
        split at h
        · cases h
        · rename_i hpos
          exact ⟨n, hvalue, by omega, (Except.ok.inj h).symm⟩
  · cases h

/-- A span that is read holds what its text denotes. -/
theorem denotes_iff_of_readSpan {text : List Char} {i : Item}
    (hL : f.domain.hasLast = true → 'L' ∉ upper text) (h : readSpan f.domain text = .ok i) :
    Denotes f w text v ↔ i.Holds f.domain w v := by
  rw [readSpan] at h
  split at h
  · rename_i hslash
    cases hstep : readStep (after '/' text) text with
    | error fault =>
      rw [hstep] at h
      cases h
    | ok step =>
      cases hbase : readBase f.domain (before '/' text) with
      | error fault =>
        rw [hstep, hbase] at h
        cases h
      | ok span =>
        obtain ⟨first, last⟩ := span
        rw [hstep, hbase] at h
        obtain rfl := Except.ok.inj h
        obtain ⟨k, hnumeral, hpos, rfl⟩ := numeral_of_readStep hstep
        rw [← before_append_after hslash] at hL ⊢
        rw [Denotes.step_iff hL (spans_of_readBase hbase) hnumeral hpos,
          Item.holds_span_iff (by omega)]
  · cases hbase : readBase f.domain text with
    | error fault =>
      rw [hbase] at h
      cases h
    | ok span =>
      obtain ⟨first, last⟩ := span
      rw [hbase] at h
      obtain rfl := Except.ok.inj h
      rw [Denotes.span_iff hL (spans_of_readBase hbase), Item.holds_span_iff Int.one_pos]
      simp only [Int.one_dvd, true_and]

/-! ### Reading a form with `L` -/

/-- The text beside an `L` is what is left of the item. -/
theorem eq_of_besideLast {item weekday : List Char} (h : besideLast item = some weekday) :
    item = weekday ++ ['L'] ∨ item = 'L' :: weekday := by
  rw [besideLast] at h
  split at h
  · rename_i hlast
    obtain rfl := Option.some.inj h
    obtain ⟨front, rfl⟩ := List.getLast?_eq_some_iff.mp hlast
    exact .inl (by rw [List.dropLast_concat])
  · rw [Option.ite_none_right_eq_some] at h
    obtain ⟨hhead, h⟩ := h
    obtain rfl := Option.some.inj h
    obtain ⟨rest, rfl⟩ := List.head?_eq_some_iff.mp hhead
    exact .inr rfl

/-- The two day fields have forms with `L`. -/
theorem hasLast_domain_iff : f.domain.hasLast = true ↔ f = .dayOfMonth ∨ f = .dayOfWeek := by
  cases f <;> decide

/-- A form with `L` that is read holds what its text denotes. -/
theorem denotes_iff_of_readLast {text : List Char} {i : Item} (hlast : f.domain.hasLast = true)
    (h : readLast f text = .ok i) : Denotes f w text v ↔ i.Holds f.domain w v := by
  unfold readLast at h
  dsimp only at h
  split at h
  · rename_i hf
    subst hf
    split at h
    · rename_i hupper
      obtain rfl := Except.ok.inj h
      exact Denotes.lastDay_iff hupper
    · cases h
  · rename_i hf
    obtain rfl : f = .dayOfWeek := (hasLast_domain_iff.mp hlast).resolve_left hf
    split at h
    · rename_i hupper
      obtain rfl := Except.ok.inj h
      rw [Denotes.saturday_iff hupper, Item.holds_span_iff Int.one_pos]
      constructor
      · rintro rfl
        exact ⟨6, by decide, by decide, by decide, by decide⟩
      · rintro ⟨n, hge, hle, -, rfl⟩
        obtain rfl : n = lastDayOfWeek := Int.le_antisymm hle hge
        rfl
    · split at h
      · cases h
      · rename_i weekday hbeside
        split at h
        · cases hvalue : readValue Field.dayOfWeek.domain weekday with
          | error fault =>
            rw [hvalue] at h
            cases h
          | ok n =>
            rw [hvalue] at h
            obtain rfl := Except.ok.inj h
            exact Denotes.lastWeekday_iff (eq_of_besideLast hbeside)
              (writes_of_readValue hvalue)
        · cases h

/-! ### Reading an item -/

/-- An item that is read holds what its text denotes. -/
theorem denotes_iff_of_readItem {text item : List Char} {i : Item}
    (h : readItem f text item = .ok i) :
    Denotes f w (strip item) v ↔ i.Holds f.domain w v := by
  unfold readItem at h
  dsimp only at h
  split at h
  · cases h
  · split at h
    · rename_i hform
      rw [Bool.and_eq_true, List.contains_iff_mem] at hform
      exact denotes_iff_of_readLast hform.1 h
    · rename_i hform
      rw [Bool.and_eq_true, List.contains_iff_mem, not_and] at hform
      exact denotes_iff_of_readSpan hform h

end Field

end CronSchedule
