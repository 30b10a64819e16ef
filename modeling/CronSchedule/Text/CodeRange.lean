/-!
# Sets of characters as ranges of code points

Character classes beyond ASCII are data of a standard.  This library carries them
as ascending lists of closed ranges of code points, and every class of the `Text`
folder is decided by the one lookup below.  The tables are those of Unicode 14.

* `CodeRanges.has` — membership of a character.
-/

namespace CronSchedule.Text

/-- Closed ranges of code points, first and last member of each. -/
abbrev CodeRanges := List (Nat × Nat)

namespace CodeRanges

/-- Whether some range of the table holds the character. -/
def has (table : CodeRanges) (c : Char) : Bool :=
  table.any fun range => range.1 ≤ c.toNat && c.toNat ≤ range.2

@[simp] theorem has_nil (c : Char) : has [] c = false := rfl

theorem has_eq_true_iff {table : CodeRanges} {c : Char} :
    table.has c = true ↔ ∃ range ∈ table, range.1 ≤ c.toNat ∧ c.toNat ≤ range.2 := by
  simp [has, List.any_eq_true]

end CodeRanges

end CronSchedule.Text
