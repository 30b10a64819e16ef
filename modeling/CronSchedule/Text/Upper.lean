import CronSchedule.Text.Upper.Table

/-!
# Upper and lower case

Names and the letter of the last-day forms are read in upper case, by the full
mapping of Unicode: one character may become several (`ß` is read as `SS`).

Lower case serves only to compare with words of ASCII letters, so `lower` maps the
characters whose lower case is an ASCII letter, the capitals and the Kelvin sign, and
leaves all others alone: none of them could turn a text into such a word.

* `upper` — full upper case;
* `lower` — lower case within ASCII.
-/

namespace CronSchedule.Text

/-- The upper case of one character. -/
def upperChar (c : Char) : List Char :=
  if c.toNat < 0x80 then [c.toUpper]
  else match upperRuns.find? (·.covers c.toNat) with
    | some run => [Char.ofNat (c.toNat + run.shift).toNat]
    | none =>
      match upperExpansions.lookup c.toNat with
      | some codes => codes.map Char.ofNat
      | none => [c]

/-- The upper case of a text. -/
def upper (s : List Char) : List Char := s.flatMap upperChar

@[simp] theorem upper_nil : upper [] = [] := rfl

@[simp] theorem upper_cons (c : Char) (s : List Char) : upper (c :: s) = upperChar c ++ upper s :=
  rfl

theorem upper_append (s t : List Char) : upper (s ++ t) = upper s ++ upper t := by
  simp [upper]

theorem upperChar_ascii {c : Char} (h : c.toNat < 0x80) : upperChar c = [c.toUpper] := by
  simp [upperChar, h]

/-- Within ASCII the upper case is taken character by character. -/
theorem upper_ascii {s : List Char} (h : ∀ c ∈ s, c.toNat < 0x80) :
    upper s = s.map Char.toUpper := by
  induction s with
  | nil => rfl
  | cons c s ih =>
    rw [upper_cons, upperChar_ascii (h c (List.mem_cons_self ..)),
      ih fun d hd => h d (List.mem_cons_of_mem _ hd)]
    rfl

/-- The lower case of one character where that is an ASCII letter. -/
def lowerChar (c : Char) : Char := if c.toNat = 0x212A then 'k' else c.toLower

/-- The lower case of a text within ASCII. -/
def lower (s : List Char) : List Char := s.map lowerChar

@[simp] theorem lower_nil : lower [] = [] := rfl

@[simp] theorem lower_cons (c : Char) (s : List Char) : lower (c :: s) = lowerChar c :: lower s :=
  rfl

end CronSchedule.Text
