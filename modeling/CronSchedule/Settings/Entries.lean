/-!
# Keyed entries in order of first arrival

A list of pairs in which no key occurs twice.  Writing to a key that is present
replaces its value in place; a new key goes to the end.

* `Entries.put`, `Entries.merge`, `Entries.ofList` — writing;
* `Entries.get?_put`, `Entries.get?_merge` — what is read after a write, and after several;
* `Entries.Distinct` — no key occurs twice, and writing keeps it so.
-/

namespace CronSchedule

/-- Entries in order of the first arrival of their keys. -/
abbrev Entries (κ ν : Type) := List (κ × ν)

namespace Entries

variable {κ ν : Type} [BEq κ]

/-- The value under a key. -/
def get? (es : Entries κ ν) (k : κ) : Option ν := (es.find? fun e => e.1 == k).map (·.2)

/-- The entries with a value written under a key. -/
def put (es : Entries κ ν) (k : κ) (v : ν) : Entries κ ν :=
  match es with
  | [] => [(k, v)]
  | e :: rest => if e.1 == k then (e.1, v) :: rest else e :: put rest k v

/-- The entries with all of `later` written in order. -/
def merge (es later : Entries κ ν) : Entries κ ν :=
  later.foldl (fun acc e => put acc e.1 e.2) es

/-- The entries a list of pairs leaves behind. -/
def ofList (pairs : List (κ × ν)) : Entries κ ν := merge [] pairs

@[simp] theorem get?_nil (k : κ) : get? ([] : Entries κ ν) k = none := rfl

theorem get?_cons (e : κ × ν) (es : Entries κ ν) (k : κ) :
    get? (e :: es) k = if e.1 == k then some e.2 else get? es k := by
  unfold get?
  rw [List.find?_cons]
  split <;> simp_all

/-- The written value is read back, and every other key keeps its value. -/
theorem get?_put [LawfulBEq κ] (es : Entries κ ν) (k k' : κ) (v : ν) :
    get? (put es k v) k' = if k == k' then some v else get? es k' := by
  induction es with
  | nil => simp [put, get?_cons]
  | cons e es ih =>
    unfold put
    by_cases he : e.1 = k
    · by_cases h : k = k' <;> simp [get?_cons, he, h]
    · by_cases h : k = k'
      · subst h; simp [get?_cons, he, ih]
      · have : (k == k') = false := by simpa using h
        simp [get?_cons, he, ih, this]

/-- What is written last is read back, and a key that is not written keeps its value. -/
theorem get?_merge [LawfulBEq κ] (es later : Entries κ ν) (k : κ) :
    get? (merge es later) k = (get? (ofList later) k).or (get? es k) := by
  induction later generalizing es with
  | nil => rfl
  | cons e later ih =>
    have hfirst (es : Entries κ ν) : merge es (e :: later) = merge (put es e.1 e.2) later := rfl
    rw [ofList, hfirst, hfirst, ih, ih, get?_put, get?_put]
    cases get? (ofList later) k <;> cases e.1 == k <;> rfl

/-! ### Keys -/

/-- No key occurs twice. -/
def Distinct (es : Entries κ ν) : Prop := (es.map (·.1)).Nodup

theorem get?_eq_none_iff [LawfulBEq κ] {es : Entries κ ν} {k : κ} :
    get? es k = none ↔ k ∉ es.map (·.1) := by
  simp only [get?, Option.map_eq_none_iff, List.find?_eq_none, beq_iff_eq, List.mem_map, not_exists,
    not_and]

theorem get?_of_mem [LawfulBEq κ] {es : Entries κ ν} (h : es.Distinct) {e : κ × ν}
    (he : e ∈ es) : get? es e.1 = some e.2 := by
  induction es with
  | nil => cases he
  | cons f es ih =>
    obtain ⟨hnew, hrest⟩ := List.nodup_cons.mp h
    rw [get?_cons]
    rcases List.mem_cons.mp he with rfl | he
    · rw [if_pos (beq_self_eq_true _)]
    · have hne : f.1 ≠ e.1 := fun heq => hnew (List.mem_map.mpr ⟨e, he, heq.symm⟩)
      rw [if_neg (mt beq_iff_eq.mp hne), ih hrest he]

theorem mem_keys_put [LawfulBEq κ] {es : Entries κ ν} {k k' : κ} {v : ν} :
    k' ∈ (put es k v).map (·.1) ↔ k' = k ∨ k' ∈ es.map (·.1) := by
  induction es with
  | nil => simp [put]
  | cons e es ih =>
    unfold put
    by_cases he : e.1 = k
    · simp [he]
    · simp only [beq_iff_eq, he, if_false, List.map_cons, List.mem_cons, ih]
      exact or_left_comm

theorem distinct_put [LawfulBEq κ] {es : Entries κ ν} (h : es.Distinct) (k : κ) (v : ν) :
    Distinct (put es k v) := by
  induction es with
  | nil => simp [put, Distinct]
  | cons e es ih =>
    obtain ⟨hnew, hrest⟩ := List.nodup_cons.mp h
    unfold put
    by_cases he : e.1 = k
    · rw [if_pos (beq_iff_eq.mpr he)]
      exact h
    · rw [if_neg (mt beq_iff_eq.mp he)]
      exact List.nodup_cons.mpr
        ⟨fun hmem => (mem_keys_put.mp hmem).elim he hnew, ih hrest⟩

theorem distinct_merge [LawfulBEq κ] {es : Entries κ ν} (h : es.Distinct) (later : Entries κ ν) :
    Distinct (merge es later) := by
  induction later generalizing es with
  | nil => exact h
  | cons e later ih => exact ih (distinct_put h e.1 e.2)

end Entries

end CronSchedule
