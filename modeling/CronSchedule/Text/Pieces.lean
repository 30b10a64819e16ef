/-!
# Cutting a text at a character

* `pieces sep s` — the parts of `s` between the occurrences of `sep`, in order; one
  part more than there are occurrences, so never none;
* `before sep s` and `after sep s` — the two sides of the first occurrence.

`join_pieces` says that nothing else is lost, and `not_mem_of_mem_pieces` that every
occurrence cuts.
-/

namespace CronSchedule.Text

/-- The parts of the text between occurrences of `sep`. -/
def pieces (sep : Char) : List Char → List (List Char)
  | [] => [[]]
  | c :: s =>
    if c = sep then [] :: pieces sep s
    else match pieces sep s with
      | [] => [[c]]
      | p :: ps => (c :: p) :: ps

@[simp] theorem pieces_nil (sep : Char) : pieces sep [] = [[]] := rfl

theorem pieces_sep (sep : Char) (s : List Char) : pieces sep (sep :: s) = [] :: pieces sep s := by
  simp [pieces]

theorem pieces_ne_nil (sep : Char) (s : List Char) : pieces sep s ≠ [] := by
  cases s with
  | nil => simp
  | cons c s =>
    unfold pieces
    split
    · simp
    · split <;> simp

theorem pieces_cons_of_ne {sep c : Char} (h : c ≠ sep) (s : List Char) :
    ∃ p ps, pieces sep s = p :: ps ∧ pieces sep (c :: s) = (c :: p) :: ps := by
  cases hp : pieces sep s with
  | nil => exact absurd hp (pieces_ne_nil sep s)
  | cons p ps => exact ⟨p, ps, rfl, by simp [pieces, h, hp]⟩

/-- Putting the separator back between the parts gives the text. -/
theorem join_pieces (sep : Char) (s : List Char) :
    List.intercalate [sep] (pieces sep s) = s := by
  induction s with
  | nil => rfl
  | cons c s ih =>
    by_cases h : c = sep
    · subst h
      rw [pieces_sep]
      cases hp : pieces c s with
      | nil => exact absurd hp (pieces_ne_nil c s)
      | cons p ps =>
        rw [hp] at ih
        rw [← ih]
        simp [List.intercalate]
    · obtain ⟨p, ps, hp, hc⟩ := pieces_cons_of_ne h s
      rw [hp] at ih
      rw [hc, ← ih]
      cases ps <;> simp [List.intercalate]

/-- No part holds the separator. -/
theorem not_mem_of_mem_pieces {sep : Char} {s p : List Char} (hp : p ∈ pieces sep s) :
    sep ∉ p := by
  induction s generalizing p with
  | nil => simp_all
  | cons c s ih =>
    by_cases h : c = sep
    · subst h
      rw [pieces_sep, List.mem_cons] at hp
      rcases hp with rfl | hp
      · simp
      · exact ih hp
    · obtain ⟨q, qs, hq, hc⟩ := pieces_cons_of_ne h s
      rw [hc, List.mem_cons] at hp
      rw [hq] at ih
      rcases hp with rfl | hp
      · have := ih (List.mem_cons_self ..)
        simp [this, Ne.symm h]
      · exact ih (List.mem_cons_of_mem _ hp)

/-- The text before the first occurrence of `sep`, the whole text if there is none. -/
def before (sep : Char) (s : List Char) : List Char := s.takeWhile (· != sep)

/-- The text after the first occurrence of `sep`, empty if there is none. -/
def after (sep : Char) (s : List Char) : List Char := (s.dropWhile (· != sep)).drop 1

theorem before_append_after {sep : Char} {s : List Char} (h : sep ∈ s) :
    before sep s ++ sep :: after sep s = s := by
  induction s with
  | nil => simp at h
  | cons c s ih =>
    by_cases hc : c = sep
    · subst hc; simp [before, after]
    · have hm : sep ∈ s := by
        rcases List.mem_cons.mp h with h | h
        · exact absurd h.symm hc
        · exact h
      have := ih hm
      simpa [before, after, hc] using this

theorem not_mem_before (sep : Char) (s : List Char) : sep ∉ before sep s := by
  induction s with
  | nil => simp [before]
  | cons c s ih =>
    by_cases hc : c = sep
    · subst hc; simp [before]
    · simp only [before] at ih ⊢
      simp [hc, ih, Ne.symm hc]

end CronSchedule.Text
