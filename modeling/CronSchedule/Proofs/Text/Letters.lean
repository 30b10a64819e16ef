import CronSchedule.Text.Blank
import CronSchedule.Text.Pieces
import CronSchedule.Text.Upper

/-!
# What trimming and capitals keep

A name or number is read from a text that is trimmed and put in capitals.  Punctuation
passes through both unchanged, and a blank has no letter in its capitals, so the signs and
the letter `L` that a text is searched for are found before and after alike.

* `mem_strip` — trimming keeps what is not blank;
* `mem_upper_strip` — a sign of the text is a sign of its trimmed capitals;
* `mem_upper_strip_of_mem_upper` — so is an `L` of its capitals;
* `append_sep_inj` — a text is cut in one way before the first separator.
-/

namespace CronSchedule.Text

/-! ### Trimming -/

theorem mem_dropWhile {α : Type} {p : α → Bool} {a : α} {s : List α} (h : a ∈ s)
    (ha : p a = false) : a ∈ s.dropWhile p := by
  induction s with
  | nil => cases h
  | cons b s ih =>
    rw [List.dropWhile_cons]
    split
    · rename_i hb
      rcases List.mem_cons.mp h with rfl | h
      · rw [ha] at hb
        cases hb
      · exact ih h
    · exact h

/-- Trimming keeps what is not blank. -/
theorem mem_strip {c : Char} {s : List Char} (h : c ∈ s) (hc : isBlank c = false) :
    c ∈ strip s :=
  List.mem_reverse.mpr (mem_dropWhile (List.mem_reverse.mpr (mem_dropWhile h hc)) hc)

/-! ### Capitals -/

theorem mem_upper {c : Char} {s : List Char} : c ∈ upper s ↔ ∃ b ∈ s, c ∈ upperChar b :=
  List.mem_flatMap

/-- A sign that is its own capital is found in the trimmed capitals of a text. -/
theorem mem_upper_strip {c : Char} {s : List Char} (h : c ∈ s) (hblank : isBlank c = false)
    (hupper : upperChar c = [c]) : c ∈ upper (strip s) :=
  mem_upper.mpr ⟨c, mem_strip h hblank, hupper ▸ List.mem_singleton_self c⟩

/-- The code of a digit lies between 48 and 57. -/
theorem code_of_isDigit {c : Char} (h : c.isDigit = true) : 48 ≤ c.toNat ∧ c.toNat ≤ 57 := by
  simp only [Char.isDigit, Bool.and_eq_true, decide_eq_true_eq, UInt32.le_iff_toNat_le] at h
  exact h

/-- What holds of the ten digits holds of every digit. -/
theorem forall_isDigit {P : Char → Prop} (h : ∀ n ∈ List.range' 48 10, P (Char.ofNat n)) {c : Char}
    (hc : c.isDigit = true) : P c := by
  have hcode := code_of_isDigit hc
  have hdigit := h c.toNat (List.mem_range'_1.mpr ⟨hcode.1, by omega⟩)
  rwa [Char.ofNat_toNat] at hdigit

/-- A digit is its own capital. -/
theorem upperChar_of_isDigit {c : Char} (h : c.isDigit = true) : upperChar c = [c] :=
  forall_isDigit (P := fun c => upperChar c = [c]) (by decide) h

/-- No blank has an `L` in its capitals. -/
theorem not_mem_upperChar_of_isBlank {c : Char} (h : isBlank c = true) : 'L' ∉ upperChar c := by
  have hall : ∀ r ∈ blanks, ∀ n ∈ List.range' r.1 (r.2 + 1 - r.1),
      'L' ∉ upperChar (Char.ofNat n) := by decide
  obtain ⟨r, hr, hle, hge⟩ := CodeRanges.has_eq_true_iff.mp h
  have := hall r hr c.toNat (List.mem_range'_1.mpr ⟨hle, by omega⟩)
  rwa [Char.ofNat_toNat] at this

theorem mem_upper_strip_of_mem_upper {s : List Char} (h : 'L' ∈ upper s) :
    'L' ∈ upper (strip s) := by
  obtain ⟨c, hc, hl⟩ := mem_upper.mp h
  have hblank : isBlank c = false :=
    Bool.eq_false_iff.mpr fun hblank => not_mem_upperChar_of_isBlank hblank hl
  exact mem_upper.mpr ⟨c, mem_strip hc hblank, hl⟩

/-! ### Cutting -/

theorem before_append_sep {sep : Char} {s t : List Char} (h : sep ∉ s) :
    before sep (s ++ sep :: t) = s := by
  induction s with
  | nil => simp [before]
  | cons c s ih =>
    rw [List.mem_cons, not_or] at h
    have ih := ih h.2
    simp only [before] at ih ⊢
    simp [Ne.symm h.1, ih]

theorem after_append_sep {sep : Char} {s t : List Char} (h : sep ∉ s) :
    after sep (s ++ sep :: t) = t := by
  induction s with
  | nil => simp [after]
  | cons c s ih =>
    rw [List.mem_cons, not_or] at h
    have ih := ih h.2
    simp only [after] at ih ⊢
    simp [Ne.symm h.1, ih]

/-- A text is cut in one way before the first separator. -/
theorem append_sep_inj {sep : Char} {s t u v : List Char} (hs : sep ∉ s) (hu : sep ∉ u)
    (h : s ++ sep :: t = u ++ sep :: v) : s = u ∧ t = v := by
  have hbefore := congrArg (before sep) h
  have hafter := congrArg (after sep) h
  rw [before_append_sep hs, before_append_sep hu] at hbefore
  rw [after_append_sep hs, after_append_sep hu] at hafter
  exact ⟨hbefore, hafter⟩

end CronSchedule.Text
