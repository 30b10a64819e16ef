import CronSchedule.Proofs.Meaning.Item
import CronSchedule.Proofs.Pattern.Answer

/-!
# What a field means

A field accepts every value where its whole text is a star or a question mark, and else what
its items denote.  Its matcher accepts the same.

* `Unrestricted`, `FieldAccepts` — what the text of a field accepts;
* `Written.accepts_matcher_iff` — the matcher of a list unites its items;
* `Field.accepts_compile_iff` — the matcher of a field accepts what its text accepts;
* `Field.isAny_compile_iff` — and tests nothing exactly when the text restricts nothing.
-/

namespace CronSchedule

open Text

/-! ### Compiled lists -/

namespace Item

variable {d : Domain} {w : WallTime} {b : Bool} {v : Int} {i : Item}

/-- The matcher of a form with `L` accepts what the form holds. -/
theorem accepts_matcher?_iff {m : Matcher} (h : i.matcher? = some m) :
    m.accepts (w.reading b) v = some true ↔ i.Holds d w v := by
  cases i with
  | span => cases h
  | lastDay =>
    obtain rfl := Option.some.inj h
    rw [Matcher.accepts_lastDay, Option.map_eq_some_iff]
    constructor
    · rintro ⟨length, hlength, heq⟩
      rw [eq_of_beq heq]
      exact hlength
    · intro hlength
      exact ⟨v, hlength, beq_self_eq_true v⟩
  | lastWeekday weekday =>
    obtain rfl := Option.some.inj h
    rw [Matcher.accepts_lastWeekday, Holds]
    by_cases hv : v = weekday
    · rw [if_pos hv, Option.map_eq_some_iff]
      constructor
      · rintro ⟨length, hlength, hlt⟩
        exact ⟨hv, length, hlength, of_decide_eq_true hlt⟩
      · rintro ⟨-, length, hlength, hlt⟩
        exact ⟨length, hlength, decide_eq_true hlt⟩
    · rw [if_neg hv]
      exact ⟨fun h => (by cases h), fun h => absurd h.1 hv⟩

theorem holds_of_mem_values (h : v ∈ i.values d) : i.Holds d w v := by
  cases i with
  | span => exact h
  | lastDay => cases h
  | lastWeekday => cases h

theorem Holds.mem_values (hholds : i.Holds d w v) (h : i.matcher? = none) : v ∈ i.values d := by
  cases i with
  | span => exact hholds
  | lastDay => cases h
  | lastWeekday => cases h

end Item

namespace Written

/-- The matcher of a list asks its members from the left. -/
theorem accepts_matcher_list (d : Domain) (items : List Item) (r : Reading) (v : Int) :
    (matcher d (.list items)).accepts r v =
      Verdict.any (Matcher.accepts r v) (members d items) := by
  unfold matcher
  dsimp only
  split
  · rename_i m hmembers
    rw [hmembers, Verdict.any_cons, Verdict.any_nil]
    rcases m.accepts r v with - | (- | -) <;> rfl
  · exact Matcher.accepts_anyOf r v _

/-- Some member accepts a value exactly when some item holds it. -/
theorem exists_member_iff (d : Domain) (items : List Item) (w : WallTime) (b : Bool) (v : Int) :
    (∃ m ∈ members d items, m.accepts (w.reading b) v = some true) ↔
      ∃ i ∈ items, i.Holds d w v := by
  constructor
  · rintro ⟨m, hm, haccepts⟩
    rcases List.mem_append.mp hm with hm | hm
    · obtain ⟨i, hi, hmatcher⟩ := List.mem_filterMap.mp hm
      exact ⟨i, hi, (Item.accepts_matcher?_iff hmatcher).mp haccepts⟩
    · split at hm
      · cases hm
      · obtain rfl := List.mem_singleton.mp hm
        rw [Matcher.accepts_values, Option.some.injEq, ValueSet.contains_eq_true_iff,
          ValueSet.mem_ofList] at haccepts
        obtain ⟨i, hi, hv⟩ := List.mem_flatMap.mp haccepts
        exact ⟨i, hi, Item.holds_of_mem_values hv⟩
  · rintro ⟨i, hi, hholds⟩
    cases hmatcher : i.matcher? with
    | some m =>
      exact ⟨m, List.mem_append_left _ (List.mem_filterMap.mpr ⟨i, hi, hmatcher⟩),
        (Item.accepts_matcher?_iff hmatcher).mpr hholds⟩
    | none =>
      -- an item without a matcher of its own adds its values to the value set
      have hv : v ∈ items.flatMap (Item.values d) :=
        List.mem_flatMap.mpr ⟨i, hi, hholds.mem_values hmatcher⟩
      refine ⟨.values (.ofList (items.flatMap (Item.values d))), List.mem_append_right _ ?_, ?_⟩
      · rw [if_neg (by rw [List.isEmpty_iff]; exact List.ne_nil_of_mem hv)]
        exact List.mem_singleton_self _
      · rw [Matcher.accepts_values, ValueSet.contains_eq_true_iff.mpr (ValueSet.mem_ofList.mpr hv)]

/-- The matcher of a list unites its items. -/
theorem accepts_matcher_iff (d : Domain) (items : List Item) (w : WallTime) (b : Bool) (v : Int) :
    (matcher d (.list items)).accepts (w.reading b) v = some true ↔
      ∃ i ∈ items, i.Holds d w v := by
  rw [accepts_matcher_list, Verdict.any_eq_true_iff, exists_member_iff]
  exact fun m _ => m.isSome_accepts (w.daysInMonth?_reading b) v

/-- The matcher of a list restricts. -/
theorem isAny_matcher_list (d : Domain) (items : List Item) :
    (matcher d (.list items)).isAny = false := by
  unfold matcher
  dsimp only
  split
  · rename_i m hmembers
    have hm : m ∈ members d items := hmembers ▸ List.mem_singleton_self m
    rcases List.mem_append.mp hm with hm | hm
    · obtain ⟨i, -, hmatcher⟩ := List.mem_filterMap.mp hm
      cases i <;> cases hmatcher <;> rfl
    · split at hm
      · cases hm
      · cases List.mem_singleton.mp hm
        rfl
  · rfl

end Written

/-! ### Compiled fields -/

/-- The text of a field restricts nothing. -/
def Unrestricted (text : List Char) : Prop :=
  strip text = ['*'] ∨ strip text = ['?']

/-- The value of a field that a clock shows. -/
def Field.valueAt (w : WallTime) : Field → Int
  | second => w.second
  | minute => w.minute
  | hour => w.hour
  | dayOfMonth => w.date.day
  | month => w.date.month
  | dayOfWeek => weekdayOf w.day
  | year => w.date.year

/-- The text of a field accepts what the clock shows: it restricts nothing, or an item of
it denotes the value. -/
def FieldAccepts (f : Field) (w : WallTime) (text : List Char) : Prop :=
  Unrestricted text ∨ ∃ item ∈ pieces ',' (strip text), Denotes f w (strip item) (f.valueAt w)

/-- Where each member read has its counterpart among the texts, some member has a property
exactly when some text has. -/
theorem exists_mem_of_mapM {α β ε : Type} {read : α → Except ε β} {P : α → Prop} {Q : β → Prop}
    (hread : ∀ {x y}, read x = .ok y → (P x ↔ Q y)) {xs : List α} {ys : List β}
    (h : xs.mapM read = .ok ys) : (∃ x ∈ xs, P x) ↔ ∃ y ∈ ys, Q y := by
  induction xs generalizing ys with
  | nil =>
    cases h
    simp
  | cons x xs ih =>
    rw [List.mapM_cons] at h
    cases hx : read x with
    | error e =>
      rw [hx] at h
      cases h
    | ok y =>
      cases hxs : xs.mapM read with
      | error e =>
        rw [hx, hxs] at h
        cases h
      | ok ys' =>
        rw [hx, hxs] at h
        cases h
        simp only [List.mem_cons, exists_eq_or_imp, hread hx, ih hxs]

namespace Field

variable {f : Field} {text : List Char}

/-- What a text is compiled to: nothing is tested, or the items of a list that are read. -/
theorem compile_cases {m : Matcher} (h : f.compile text = .ok m) :
    (Unrestricted text ∧ m = .any) ∨ ¬ Unrestricted text ∧ ∃ items,
      (pieces ',' (strip text)).mapM (readItem f (strip text)) = .ok items ∧
        m = Written.matcher f.domain (.list items) := by
  unfold compile read at h
  dsimp only at h
  split at h
  · rename_i hstar
    exact .inl ⟨hstar, (Except.ok.inj h).symm⟩
  · rename_i hstar
    split at h
    · cases h
    · cases hitems : (pieces ',' (strip text)).mapM (readItem f (strip text)) with
      | error fault =>
        rw [hitems] at h
        cases h
      | ok items =>
        rw [hitems] at h
        exact .inr ⟨hstar, items, rfl, (Except.ok.inj h).symm⟩

/-- The matcher of a field accepts what its text means. -/
theorem accepts_compile_iff {m : Matcher} (h : f.compile text = .ok m) (w : WallTime) (b : Bool) :
    m.accepts (w.reading b) (f.valueAt w) = some true ↔ FieldAccepts f w text := by
  rcases compile_cases h with ⟨hstar, rfl⟩ | ⟨hstar, items, hitems, rfl⟩
  · rw [Matcher.accepts_any]
    exact ⟨fun _ => .inl hstar, fun _ => rfl⟩
  · rw [Written.accepts_matcher_iff, ← exists_mem_of_mapM denotes_iff_of_readItem hitems]
    constructor
    · exact .inr
    · exact fun haccepts => haccepts.resolve_left hstar

/-- The matcher of a field tests nothing exactly when its text restricts nothing. -/
theorem isAny_compile_iff {m : Matcher} (h : f.compile text = .ok m) :
    m.isAny = true ↔ Unrestricted text := by
  rcases compile_cases h with ⟨hstar, rfl⟩ | ⟨hstar, items, -, rfl⟩
  · exact ⟨fun _ => hstar, fun _ => rfl⟩
  · rw [Written.isAny_matcher_list]
    exact ⟨fun h => (by cases h), fun h => absurd h hstar⟩

end Field

end CronSchedule
