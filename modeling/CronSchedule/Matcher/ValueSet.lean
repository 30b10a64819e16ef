/-!
# Finite sets of field values

A value set is the ascending list of its members, so that two sets with the same
members are the same list.

* `ValueSet.ofList` — the set of a list's members;
* `ValueSet.contains` — membership, and `mem_ofList` its law.
-/

namespace CronSchedule

/-- A finite set of integers, ascending. -/
structure ValueSet where
  values : List Int
  ascending : values.Pairwise (· < ·)
deriving DecidableEq, Repr

namespace ValueSet

/-- The ascending list with one more member. -/
def insertInto (n : Int) : List Int → List Int
  | [] => [n]
  | m :: ms => if n < m then n :: m :: ms else if n = m then m :: ms else m :: insertInto n ms

theorem mem_insertInto {n k : Int} {ms : List Int} : k ∈ insertInto n ms ↔ k = n ∨ k ∈ ms := by
  induction ms with
  | nil => simp [insertInto]
  | cons m ms ih =>
    unfold insertInto
    split
    · simp
    · split
      · simp_all
      · simp [ih, or_left_comm]

theorem insertInto_ascending {n : Int} {ms : List Int} (h : ms.Pairwise (· < ·)) :
    (insertInto n ms).Pairwise (· < ·) := by
  induction ms with
  | nil => simp [insertInto]
  | cons m ms ih =>
    obtain ⟨hm, hms⟩ := List.pairwise_cons.mp h
    unfold insertInto
    split
    · rename_i hlt
      refine List.pairwise_cons.mpr ⟨?_, h⟩
      intro k hk
      rcases List.mem_cons.mp hk with rfl | hk
      · exact hlt
      · have := hm k hk; omega
    · split
      · exact h
      · refine List.pairwise_cons.mpr ⟨?_, ih hms⟩
        intro k hk
        rcases mem_insertInto.mp hk with rfl | hk
        · omega
        · exact hm k hk

def empty : ValueSet := ⟨[], List.Pairwise.nil⟩

def insert (n : Int) (s : ValueSet) : ValueSet :=
  ⟨insertInto n s.values, insertInto_ascending s.ascending⟩

/-- The set of the members of a list. -/
def ofList (ns : List Int) : ValueSet := ns.foldr insert empty

def contains (s : ValueSet) (n : Int) : Bool := s.values.contains n

theorem contains_eq_true_iff {s : ValueSet} {n : Int} : s.contains n = true ↔ n ∈ s.values := by
  simp [contains]

theorem mem_ofList {ns : List Int} {k : Int} : k ∈ (ofList ns).values ↔ k ∈ ns := by
  induction ns with
  | nil => simp [ofList, empty]
  | cons n ns ih =>
    rw [ofList, List.foldr_cons, insert, mem_insertInto, List.mem_cons]
    exact or_congr Iff.rfl ih

end ValueSet

end CronSchedule
