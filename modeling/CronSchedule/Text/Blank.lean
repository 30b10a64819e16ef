import CronSchedule.Text.CodeRange

/-!
# Blank characters, trimming and words

Expressions and settings are read with every blank of Unicode taken as space: the
white space of the standard, and the four separators U+001C to U+001F.

* `isBlank` — the class;
* `strip` — a text without the blanks at its two ends;
* `words` — the maximal runs of characters that are not blank.
-/

namespace CronSchedule.Text

/-- The blank characters: white space and the information separators. -/
def blanks : CodeRanges :=
  [(0x09, 0x0D), (0x1C, 0x20), (0x85, 0x85), (0xA0, 0xA0), (0x1680, 0x1680), (0x2000, 0x200A),
   (0x2028, 0x2029), (0x202F, 0x202F), (0x205F, 0x205F), (0x3000, 0x3000)]

def isBlank (c : Char) : Bool := blanks.has c

/-- Every character that core calls white space is blank. -/
theorem isBlank_of_isWhitespace {c : Char} (h : c.isWhitespace = true) : isBlank c = true := by
  simp [Char.isWhitespace] at h
  rcases h with ((h | h) | h) | h <;> subst h <;> decide

/-! ### Trimming -/

/-- The text without its leading blanks. -/
def stripStart (s : List Char) : List Char := s.dropWhile isBlank

/-- The text without its trailing blanks. -/
def stripEnd (s : List Char) : List Char := (s.reverse.dropWhile isBlank).reverse

/-- The text without the blanks at its two ends. -/
def strip (s : List Char) : List Char := stripEnd (stripStart s)

@[simp] theorem stripStart_nil : stripStart [] = [] := rfl

@[simp] theorem stripEnd_nil : stripEnd [] = [] := rfl

@[simp] theorem strip_nil : strip [] = [] := rfl

theorem stripStart_cons (c : Char) (s : List Char) :
    stripStart (c :: s) = if isBlank c then stripStart s else c :: s := by
  simp only [stripStart, List.dropWhile_cons]

theorem stripEnd_concat (s : List Char) (c : Char) :
    stripEnd (s ++ [c]) = if isBlank c then stripEnd s else s ++ [c] := by
  simp only [stripEnd, List.reverse_append, List.reverse_singleton, List.singleton_append,
    List.dropWhile_cons]
  split <;> simp

/-! ### Words -/

/-- The runs of characters that are not blank, in order. -/
def words : List Char → List (List Char)
  | [] => []
  | c :: s =>
    if isBlank c then words s
    else match s with
      | [] => [[c]]
      | d :: _ =>
        if isBlank d then [c] :: words s
        else match words s with
          | [] => [[c]]
          | w :: ws => (c :: w) :: ws

@[simp] theorem words_nil : words [] = [] := rfl

theorem words_blank {c : Char} (h : isBlank c = true) (s : List Char) :
    words (c :: s) = words s := by
  rw [words.eq_def]
  simp [h]

end CronSchedule.Text
