import CronSchedule.Matcher.Equality
import CronSchedule.Proofs.Pattern.Answer
import Mathlib.Data.List.Nodup
import Mathlib.Data.List.Perm.Subperm
import Mathlib.Data.Quot

/-!
# Equality of matchers

Equality goes into the members of unions and compares them as sets, so its laws are proved by
induction on the nesting of unions.  Equal matchers accept the same and are given the same
number, whatever numbers there are.

The sets may be kept in tables in which a member is looked for by its number first, and the
kinds of matchers may each answer for themselves.  Then equality is asked for numbers, and the
numbers of unions for equality.  What is load-bearing is that both belong together: of equal
members with different numbers a table would keep both, and would miss one when it is asked for
the other.  That does not happen, so tables make no difference.

* `Matcher.induction` — induction on the nesting of unions;
* `Matcher.same_iff_eq`, `Matcher.same_anyOf_iff` — equality of unions and of other matchers;
* `Matcher.same_equivalence`, `Matcher.classOf` — equality is an equivalence, with its classes;
* `Matcher.Represents` — the members of a list, of which equal ones are kept once;
* `Matcher.number_eq_of_same`, `Matcher.accepts_eq_of_same` — equal matchers have the same
  number and accept the same;
* `Matcher.Tables` — equality and numbers as tables find them;
* `Matcher.tables_iff` — they are `same` and `number`;
* `Matcher.same_congruence` — the laws together.
-/

namespace CronSchedule.Matcher

variable {h : Hashing} {k m n : Matcher} {ms ns kept kept' : List Matcher}

/-! ### Unions and other matchers -/

/-- The members of a union. -/
def members? : Matcher → Option (List Matcher)
  | anyOf ms => some ms
  | _ => none

/-- What holds of every matcher that is no union, and of a union if it holds of the members,
holds of all matchers. -/
@[elab_as_elim]
theorem induction {P : Matcher → Prop} (plain : ∀ m, m.members? = none → P m)
    (union : ∀ ms, (∀ m ∈ ms, P m) → P (anyOf ms)) (m : Matcher) : P m := by
  cases m with
  | anyOf ms => exact union ms fun m _ => induction plain union m
  | any => exact plain any rfl
  | values set => exact plain (values set) rfl
  | lastDay => exact plain lastDay rfl
  | lastWeekday weekday => exact plain (lastWeekday weekday) rfl

theorem allAmong_eq_true_iff :
    allAmong ms ns = true ↔ ∀ m ∈ ms, ∃ n ∈ ns, same m n = true := by
  induction ms with
  | nil => simp [allAmong]
  | cons m ms ih => rw [allAmong, Bool.and_eq_true, List.any_eq_true, ih, List.forall_mem_cons]

theorem someSame_eq_true_iff : someSame ms n = true ↔ ∃ m ∈ ms, same m n = true := by
  induction ms with
  | nil => simp [someSame]
  | cons m ms ih => rw [someSame, Bool.or_eq_true, ih, List.exists_mem_cons_iff]

/-- Unions are equal when every member of each is equal to some member of the other. -/
theorem same_anyOf_iff : same (anyOf ms) (anyOf ns) = true ↔
    (∀ m ∈ ms, ∃ n ∈ ns, same m n = true) ∧ ∀ n ∈ ns, ∃ m ∈ ms, same m n = true := by
  rw [same, Bool.and_eq_true, allAmong_eq_true_iff, List.all_eq_true]
  simp only [someSame_eq_true_iff]

/-- A matcher that is no union is equal to itself alone. -/
theorem same_iff_eq (hm : m.members? = none) : same m n = true ↔ m = n := by
  cases m with
  | anyOf ms => cases hm
  | any => cases n <;> simp [same]
  | lastDay => cases n <;> simp [same]
  | lastWeekday v => cases n <;> simp [same]
  | values s =>
    cases n with
    | values t =>
      rw [same, beq_iff_eq, values.injEq]
      constructor
      · intro hvalues
        cases s
        cases t
        cases hvalues
        rfl
      · exact congrArg ValueSet.values
    | any => simp [same]
    | lastDay => simp [same]
    | lastWeekday v => simp [same]
    | anyOf ns => simp [same]

/-- What is equal to a union is a union. -/
theorem exists_anyOf_of_same (hsame : same (anyOf ms) n = true) : ∃ ns, n = anyOf ns := by
  cases n with
  | anyOf ns => exact ⟨ns, rfl⟩
  | any => simp [same] at hsame
  | values set => simp [same] at hsame
  | lastDay => simp [same] at hsame
  | lastWeekday weekday => simp [same] at hsame

/-! ### The equivalence -/

theorem same_refl (m : Matcher) : same m m = true := by
  induction m using Matcher.induction with
  | plain m hm => exact (same_iff_eq hm).mpr rfl
  | union ms ih =>
    apply same_anyOf_iff.mpr
    exact ⟨fun m hm => ⟨m, hm, ih m hm⟩, fun m hm => ⟨m, hm, ih m hm⟩⟩

theorem same_symm (hsame : same m n = true) : same n m = true := by
  induction m using Matcher.induction generalizing n with
  | plain m hm =>
    obtain rfl := (same_iff_eq hm).mp hsame
    exact same_refl m
  | union ms ih =>
    obtain ⟨ns, rfl⟩ := exists_anyOf_of_same hsame
    obtain ⟨hright, hleft⟩ := same_anyOf_iff.mp hsame
    apply same_anyOf_iff.mpr
    constructor
    · intro n hn
      obtain ⟨m, hm, hmn⟩ := hleft n hn
      exact ⟨m, hm, ih m hm hmn⟩
    · intro m hm
      obtain ⟨n, hn, hmn⟩ := hright m hm
      exact ⟨n, hn, ih m hm hmn⟩

theorem same_trans (hkm : same k m = true) (hmn : same m n = true) : same k n = true := by
  induction k using Matcher.induction generalizing m n with
  | plain k hk =>
    obtain rfl := (same_iff_eq hk).mp hkm
    exact hmn
  | union ks ih =>
    obtain ⟨ms, rfl⟩ := exists_anyOf_of_same hkm
    obtain ⟨ns, rfl⟩ := exists_anyOf_of_same hmn
    obtain ⟨hkm, hmk⟩ := same_anyOf_iff.mp hkm
    obtain ⟨hmn, hnm⟩ := same_anyOf_iff.mp hmn
    apply same_anyOf_iff.mpr
    constructor
    · intro k hk
      obtain ⟨m, hm, hkm⟩ := hkm k hk
      obtain ⟨n, hn, hmn⟩ := hmn m hm
      exact ⟨n, hn, ih k hk hkm hmn⟩
    · intro n hn
      obtain ⟨m, hm, hmn⟩ := hnm n hn
      obtain ⟨k, hk, hkm⟩ := hmk m hm
      exact ⟨k, hk, ih k hk hkm hmn⟩

theorem same_equivalence : Equivalence fun m n : Matcher => same m n = true :=
  ⟨same_refl, same_symm, same_trans⟩

def setoid : Setoid Matcher := ⟨fun m n => same m n = true, same_equivalence⟩

/-- The class of the matchers that are equal to this one. -/
def classOf (m : Matcher) : Quotient setoid := Quotient.mk setoid m

theorem classOf_eq_iff : classOf m = classOf n ↔ same m n = true := Quotient.eq

/-- A member of the class. -/
noncomputable def chosen (q : Quotient setoid) : Matcher := q.out

theorem same_chosen (m : Matcher) : same m (chosen (classOf m)) = true :=
  same_symm (Quotient.mk_out (s := setoid) m)

/-- Unions are equal when the classes of their members are the same. -/
theorem same_anyOf_iff_classes :
    same (anyOf ms) (anyOf ns) = true ↔ ∀ q, q ∈ ms.map classOf ↔ q ∈ ns.map classOf := by
  rw [same_anyOf_iff]
  simp only [List.mem_map, ← classOf_eq_iff]
  constructor
  · rintro ⟨hright, hleft⟩ q
    constructor
    · rintro ⟨m, hm, rfl⟩
      obtain ⟨n, hn, hmn⟩ := hright m hm
      exact ⟨n, hn, hmn.symm⟩
    · rintro ⟨n, hn, rfl⟩
      exact hleft n hn
  · intro hclasses
    constructor
    · intro m hm
      obtain ⟨n, hn, hnm⟩ := (hclasses (classOf m)).mp ⟨m, hm, rfl⟩
      exact ⟨n, hn, hnm.symm⟩
    · intro n hn
      exact (hclasses (classOf n)).mpr ⟨n, hn, rfl⟩

/-! ### Sets of members -/

/-- The members of a list, of which equal ones are kept once. -/
structure Represents (kept ms : List Matcher) : Prop where
  mem : ∀ m ∈ kept, m ∈ ms
  classes : ∀ q, q ∈ kept.map classOf ↔ q ∈ ms.map classOf
  once : (kept.map classOf).Nodup

namespace Represents

/-- Of equal unions the same classes are kept. -/
theorem perm (hkept : Represents kept ms) (hkept' : Represents kept' ns)
    (hsame : same (anyOf ms) (anyOf ns) = true) :
    (kept.map classOf).Perm (kept'.map classOf) := by
  apply (List.perm_ext_iff_of_nodup hkept.once hkept'.once).mpr
  intro q
  rw [hkept.classes, hkept'.classes, same_anyOf_iff_classes.mp hsame]

/-- Unions are equal when as many members are kept of one as of the other, and each that is
kept of the one has its equal there. -/
theorem same_anyOf_iff_length (hkept : Represents kept ms) (hkept' : Represents kept' ns) :
    same (anyOf ms) (anyOf ns) = true ↔
      kept.length = kept'.length ∧ ∀ m ∈ kept, ∃ n ∈ kept', same n m = true := by
  constructor
  · intro hsame
    have hperm := hkept.perm hkept' hsame
    refine ⟨by simpa using hperm.length_eq, ?_⟩
    intro m hm
    obtain ⟨n, hn, hnm⟩ := List.mem_map.mp (hperm.mem_iff.mp (List.mem_map_of_mem hm))
    exact ⟨n, hn, classOf_eq_iff.mp hnm⟩
  · rintro ⟨hlength, hfound⟩
    have hsubset : kept.map classOf ⊆ kept'.map classOf := by
      intro q hq
      obtain ⟨m, hm, rfl⟩ := List.mem_map.mp hq
      obtain ⟨n, hn, hnm⟩ := hfound m hm
      exact List.mem_map.mpr ⟨n, hn, classOf_eq_iff.mpr hnm⟩
    have hperm : (kept.map classOf).Perm (kept'.map classOf) := by
      apply (List.subperm_of_subset hkept.once hsubset).perm_of_length_le
      rw [List.length_map, List.length_map]
      exact Nat.le_of_eq hlength.symm
    rw [same_anyOf_iff_classes]
    intro q
    rw [← hkept.classes, ← hkept'.classes, hperm.mem_iff]

theorem nil : Represents [] [] :=
  ⟨fun _ hm => hm, fun _ => Iff.rfl, List.nodup_nil⟩

end Represents

/-! ### Numbers -/

/-- The numbers of members are those of the members that are kept. -/
theorem exists_numbers_eq (h : Hashing) (ms : List Matcher) :
    ∃ kept, Represents kept ms ∧ numbers h ms = kept.map (number h) := by
  induction ms with
  | nil => exact ⟨[], .nil, by rw [numbers, List.map_nil]⟩
  | cons m ms ih =>
    obtain ⟨kept, hkept, hnumbers⟩ := ih
    have hknown : someSame ms m = true ↔ classOf m ∈ kept.map classOf := by
      rw [someSame_eq_true_iff, hkept.classes, List.mem_map]
      simp only [classOf_eq_iff]
    rw [numbers]
    split
    · rename_i hsome
      refine ⟨kept, ⟨fun k hk => List.mem_cons_of_mem _ (hkept.mem k hk), ?_, hkept.once⟩, hnumbers⟩
      intro q
      rw [List.map_cons, List.mem_cons, ← hkept.classes]
      constructor
      · exact .inr
      · rintro (rfl | hq)
        · exact hknown.mp hsome
        · exact hq
    · rename_i hsome
      refine ⟨m :: kept, ⟨?_, ?_, ?_⟩, by rw [List.map_cons, hnumbers]⟩
      · intro k hk
        rcases List.mem_cons.mp hk with rfl | hk
        · exact List.mem_cons_self
        · exact List.mem_cons_of_mem _ (hkept.mem k hk)
      · intro q
        rw [List.map_cons, List.map_cons, List.mem_cons, List.mem_cons, hkept.classes]
      · rw [List.map_cons, List.nodup_cons]
        exact ⟨mt hknown.mpr hsome, hkept.once⟩

/-- Where equal members have the same number, the numbers are those of their classes. -/
theorem map_number_eq (hnumber : ∀ m ∈ kept, number h m = number h (chosen (classOf m))) :
    kept.map (number h) = (kept.map classOf).map fun q => number h (chosen q) := by
  rw [List.map_map]
  exact List.map_congr_left hnumber

/-- Equal matchers have the same number. -/
theorem number_eq_of_same (hsame : same m n = true) : number h m = number h n := by
  induction m using Matcher.induction generalizing n with
  | plain m hm => rw [(same_iff_eq hm).mp hsame]
  | union ms ih =>
    obtain ⟨ns, rfl⟩ := exists_anyOf_of_same hsame
    obtain ⟨kept, hkept, hms⟩ := exists_numbers_eq h ms
    obtain ⟨kept', hkept', hns⟩ := exists_numbers_eq h ns
    rw [number, number, hms, hns]
    apply h.anyOf_perm
    rw [map_number_eq, map_number_eq]
    · exact (hkept.perm hkept' hsame).map _
    · -- a member of the second union has its equal in the first
      intro n hn
      obtain ⟨m, hm, hmn⟩ := (same_anyOf_iff.mp hsame).2 n (hkept'.mem n hn)
      rw [← ih m hm hmn]
      exact ih m hm (same_trans hmn (same_chosen n))
    · intro m hm
      exact ih m (hkept.mem m hm) (same_chosen m)

/-! ### Acceptance -/

/-- Equal matchers accept the same where the month has a length. -/
theorem accepts_eq_of_same {r : Reading} (hmonth : r.daysInMonth?.isSome) (v : Int)
    (hsame : same m n = true) : accepts r v m = accepts r v n := by
  induction m using Matcher.induction generalizing n with
  | plain m hm => rw [(same_iff_eq hm).mp hsame]
  | union ms ih =>
    obtain ⟨ns, rfl⟩ := exists_anyOf_of_same hsame
    obtain ⟨hright, hleft⟩ := same_anyOf_iff.mp hsame
    have hanswer (ms : List Matcher) : accepts r v (anyOf ms) = some true ↔
        ∃ m ∈ ms, accepts r v m = some true := by
      rw [accepts_anyOf]
      exact Verdict.any_eq_true_iff fun m _ => isSome_accepts hmonth v m
    have hiff : accepts r v (anyOf ms) = some true ↔ accepts r v (anyOf ns) = some true := by
      rw [hanswer, hanswer]
      constructor
      · rintro ⟨m, hm, haccepts⟩
        obtain ⟨n, hn, hmn⟩ := hright m hm
        exact ⟨n, hn, ih m hm hmn ▸ haccepts⟩
      · rintro ⟨n, hn, haccepts⟩
        obtain ⟨m, hm, hmn⟩ := hleft n hn
        exact ⟨m, hm, (ih m hm hmn).trans haccepts⟩
    obtain ⟨a, ha⟩ := Option.isSome_iff_exists.mp (isSome_accepts hmonth v (anyOf ms))
    obtain ⟨b, hb⟩ := Option.isSome_iff_exists.mp (isSome_accepts hmonth v (anyOf ns))
    rw [ha, hb] at hiff ⊢
    rw [Option.some.injEq, Option.some.injEq] at hiff
    rw [Bool.eq_iff_iff.mpr hiff]

theorem isAny_eq_of_same (hsame : same m n = true) : m.isAny = n.isAny := by
  induction m using Matcher.induction with
  | plain m hm => rw [(same_iff_eq hm).mp hsame]
  | union ms _ =>
    obtain ⟨ns, rfl⟩ := exists_anyOf_of_same hsame
    rfl

/-! ### Tables -/

section

variable (eq : Matcher → Matcher → Bool) (num : Matcher → UInt64)

/-- Whether a table has a member: it is looked for by its number, and compared with what is
kept under that. -/
def finds (table : List Matcher) (m : Matcher) : Bool :=
  table.any fun k => num k == num m && eq k m

/-- The table with more members, each of which is entered unless it is found. -/
def enter : List Matcher → List Matcher → List Matcher
  | table, [] => table
  | table, m :: ms => if finds eq num table m then enter table ms else enter (table ++ [m]) ms

/-- What a matcher says of being equal to another.  The matchers with values and the unions
leave the question open where the other is of another kind; unions are equal when their tables
are of one size and that of the second has what that of the first holds. -/
def answer : Matcher → Matcher → Option Bool
  | any, any => some true
  | any, _ => some false
  | values s, values t => some (s.values == t.values)
  | values _, _ => none
  | lastDay, lastDay => some true
  | lastDay, _ => some false
  | lastWeekday v, lastWeekday w => some (v == w)
  | lastWeekday _, _ => none
  | anyOf ms, anyOf ns =>
    some ((enter eq num [] ms).length == (enter eq num [] ns).length &&
      (enter eq num [] ms).all (finds eq num (enter eq num [] ns)))
  | anyOf _, _ => none

/-- Equality and numbers as they are found by asking the matchers and by tables: two matchers
are equal if the first says so, or where it leaves the question open the second, and the number
of a union is taken of those in its table. -/
structure Tables (h : Hashing) : Prop where
  eq_answer : ∀ m n, eq m n = ((answer eq num m n).or (answer eq num n m)).getD false
  num_plain : ∀ m, m.members? = none → num m = number h m
  num_anyOf : ∀ ms, num (anyOf ms) = h.anyOf ((enter eq num [] ms).map num)

/-- Where one of two matchers is no union, they say between them whether they are the same. -/
theorem answer_of_plain (hplain : m.members? = none ∨ n.members? = none) :
    ((answer eq num m n).or (answer eq num n m)).getD false = same m n := by
  cases m with
  | any => cases n <;> rfl
  | values s => cases n <;> rfl
  | lastDay => cases n <;> rfl
  | lastWeekday v => cases n <;> rfl
  | anyOf ms =>
    cases n with
    | anyOf ns => simp [members?] at hplain
    | any => rfl
    | values s => rfl
    | lastDay => rfl
    | lastWeekday v => rfl

variable {eq num}

theorem Tables.eq_plain (htables : Tables eq num h)
    (hplain : m.members? = none ∨ n.members? = none) : eq m n = same m n := by
  rw [htables.eq_answer, answer_of_plain eq num hplain]

theorem Tables.eq_anyOf (htables : Tables eq num h) (ms ns : List Matcher) :
    eq (anyOf ms) (anyOf ns) =
      ((enter eq num [] ms).length == (enter eq num [] ns).length &&
        (enter eq num [] ms).all (finds eq num (enter eq num [] ns))) :=
  htables.eq_answer _ _

end

/-- With equality and numbers that belong together a member is found if it has an equal. -/
theorem finds_eq_true_iff : finds same (number h) kept m = true ↔ ∃ k ∈ kept, same k m = true := by
  rw [finds, List.any_eq_true]
  constructor
  · rintro ⟨k, hk, hfound⟩
    exact ⟨k, hk, (Bool.and_eq_true _ _ ▸ hfound).2⟩
  · rintro ⟨k, hk, hsame⟩
    exact ⟨k, hk, by rw [number_eq_of_same hsame, hsame, beq_self_eq_true, Bool.and_self]⟩

/-- A table keeps the members that it has and those that are entered. -/
theorem represents_enter (htable : Represents kept kept) (ms : List Matcher) :
    Represents (enter same (number h) kept ms) (kept ++ ms) := by
  induction ms generalizing kept with
  | nil => rwa [enter, List.append_nil]
  | cons m ms ih =>
    have hknown : finds same (number h) kept m = true ↔ classOf m ∈ kept.map classOf := by
      rw [finds_eq_true_iff, List.mem_map]
      simp only [classOf_eq_iff]
    rw [enter]
    split
    · rename_i hfound
      obtain ⟨hmem, hclasses, honce⟩ := ih htable
      refine ⟨?_, ?_, honce⟩
      · intro k hk
        rcases List.mem_append.mp (hmem k hk) with hk | hk
        · exact List.mem_append_left _ hk
        · exact List.mem_append_right _ (List.mem_cons_of_mem _ hk)
      · intro q
        rw [hclasses, List.map_append, List.map_append, List.map_cons, List.mem_append,
          List.mem_append, List.mem_cons]
        constructor
        · exact Or.imp_right .inr
        · rintro (hq | rfl | hq)
          · exact .inl hq
          · exact .inl (hknown.mp hfound)
          · exact .inr hq
    · rename_i hfound
      have hsplit : kept ++ m :: ms = kept ++ [m] ++ ms := by
        rw [List.append_assoc, List.singleton_append]
      rw [hsplit]
      apply ih
      refine ⟨fun _ hk => hk, fun _ => Iff.rfl, ?_⟩
      rw [List.map_append, List.map_singleton, ← List.concat_eq_append]
      exact htable.once.concat (mt hknown.mpr hfound)

/-- The look-up asks about the members of the table and the one that is looked for. -/
theorem finds_congr {eq eq' : Matcher → Matcher → Bool} {num num' : Matcher → UInt64}
    (heq : ∀ k ∈ kept, eq k m = eq' k m) (hnum : ∀ k ∈ kept, num k = num' k)
    (hm : num m = num' m) : finds eq num kept m = finds eq' num' kept m := by
  rw [Bool.eq_iff_iff, finds, finds, List.any_eq_true, List.any_eq_true]
  apply exists_congr
  intro k
  apply and_congr_right
  intro hk
  rw [heq k hk, hnum k hk, hm]

/-- So tables in which the same is found of their members are the same. -/
theorem enter_congr {eq eq' : Matcher → Matcher → Bool} {num num' : Matcher → UInt64}
    (heq : ∀ k ∈ kept ++ ms, ∀ m ∈ kept ++ ms, eq k m = eq' k m)
    (hnum : ∀ m ∈ kept ++ ms, num m = num' m) :
    enter eq num kept ms = enter eq' num' kept ms := by
  induction ms generalizing kept with
  | nil => rw [enter, enter]
  | cons m ms ih =>
    have hm : m ∈ kept ++ m :: ms := List.mem_append_right _ List.mem_cons_self
    have hkept {k : Matcher} (hk : k ∈ kept) : k ∈ kept ++ m :: ms := List.mem_append_left _ hk
    have hfinds : finds eq num kept m = finds eq' num' kept m :=
      finds_congr (fun k hk => heq k (hkept hk) m hm) (fun k hk => hnum k (hkept hk)) (hnum m hm)
    rw [enter, enter, hfinds]
    split
    · have hmem {k : Matcher} (hk : k ∈ kept ++ ms) : k ∈ kept ++ m :: ms :=
        List.mem_append.mpr ((List.mem_append.mp hk).imp_right (List.mem_cons_of_mem _))
      exact ih (fun k hk n hn => heq k (hmem hk) n (hmem hn)) fun k hk => hnum k (hmem hk)
    · have hsplit : kept ++ m :: ms = kept ++ [m] ++ ms := by
        rw [List.append_assoc, List.singleton_append]
      rw [hsplit] at heq hnum
      exact ih heq hnum

theorem represents_enter_nil (h : Hashing) (ms : List Matcher) :
    Represents (enter same (number h) [] ms) ms := by
  simpa using represents_enter .nil ms

/-- Equality of unions and their numbers, with tables for their members. -/
theorem tables_same (h : Hashing) : Tables same (number h) h := by
  refine ⟨?_, fun _ _ => rfl, ?_⟩
  · intro m n
    induction m using Matcher.induction with
    | plain m hplain => exact (answer_of_plain _ _ (.inl hplain)).symm
    | union ms _ =>
      induction n using Matcher.induction with
      | plain n hplain => exact (answer_of_plain _ _ (.inr hplain)).symm
      | union ns _ =>
        have hlength := (represents_enter_nil h ms).same_anyOf_iff_length
          (represents_enter_nil h ns)
        rw [answer, Option.some_or, Option.getD_some, Bool.eq_iff_iff, hlength, Bool.and_eq_true,
          beq_iff_eq, List.all_eq_true]
        simp only [finds_eq_true_iff]
  · intro ms
    obtain ⟨kept, hkept, hnumbers⟩ := exists_numbers_eq h ms
    rw [number, hnumbers]
    apply h.anyOf_perm
    rw [map_number_eq fun m _ => number_eq_of_same (same_chosen m),
      map_number_eq fun m _ => number_eq_of_same (same_chosen m)]
    exact (hkept.perm (represents_enter_nil h ms) (same_refl _)).map _

/-- What tables find of matchers below a size are equality and numbers. -/
theorem Tables.agree {eq : Matcher → Matcher → Bool} {num : Matcher → UInt64}
    (htables : Tables eq num h) (size : Nat) : ∀ m n : Matcher, sizeOf m < size → sizeOf n < size →
      eq m n = same m n ∧ num m = number h m := by
  induction size with
  | zero => exact fun m n hm => absurd hm (Nat.not_lt_zero _)
  | succ size ih =>
    have hlt {ms : List Matcher} (hms : sizeOf (anyOf ms) < size + 1) {m : Matcher} (hm : m ∈ ms) :
        sizeOf m < size := by
      have := List.sizeOf_lt_of_mem hm
      rw [anyOf.sizeOf_spec] at hms
      omega
    have htable {ms : List Matcher} (hms : sizeOf (anyOf ms) < size + 1) :
        enter eq num [] ms = enter same (number h) [] ms :=
      enter_congr (fun k hk m hm => (ih k m (hlt hms hk) (hlt hms hm)).1)
        fun m hm => (ih m m (hlt hms hm) (hlt hms hm)).2
    have hentered {ms : List Matcher} (hms : sizeOf (anyOf ms) < size + 1) {m : Matcher}
        (hm : m ∈ enter same (number h) [] ms) : sizeOf m < size :=
      hlt hms ((represents_enter_nil h ms).mem m hm)
    intro m n hm hn
    constructor
    · induction m using Matcher.induction with
      | plain m hplain => exact htables.eq_plain (.inl hplain)
      | union ms _ =>
        induction n using Matcher.induction with
        | plain n hplain => exact htables.eq_plain (.inr hplain)
        | union ns _ =>
          rw [htables.eq_anyOf, (tables_same h).eq_anyOf, htable hm, htable hn]
          congr 1
          rw [Bool.eq_iff_iff, List.all_eq_true, List.all_eq_true]
          apply forall₂_congr
          intro m hmem
          have hm' := hentered hm hmem
          rw [finds_congr (fun k hk => (ih k m (hentered hn hk) hm').1)
            (fun k hk => (ih k k (hentered hn hk) (hentered hn hk)).2) (ih m m hm' hm').2]
    · induction m using Matcher.induction with
      | plain m hplain => exact htables.num_plain m hplain
      | union ms _ =>
        rw [htables.num_anyOf, (tables_same h).num_anyOf, htable hm]
        congr 1
        apply List.map_congr_left
        exact fun m hmem => (ih m m (hentered hm hmem) (hentered hm hmem)).2

/-- Tables make no difference: equality and numbers are found as they are without. -/
theorem tables_iff {eq : Matcher → Matcher → Bool} {num : Matcher → UInt64} :
    Tables eq num h ↔ eq = same ∧ num = number h := by
  constructor
  · intro htables
    constructor
    · funext m n
      exact (htables.agree (sizeOf m + sizeOf n + 1) m n (by omega) (by omega)).1
    · funext m
      exact (htables.agree (sizeOf m + 1) m m (by omega) (by omega)).2
  · rintro ⟨rfl, rfl⟩
    exact tables_same h

/-! ### All laws -/

/-- Equality is an equivalence; equal matchers have the same number, restrict nothing together,
and accept the same where there is such a month; and tables find just this equality and these
numbers. -/
theorem same_congruence (h : Hashing) :
    Equivalence (fun m n => same m n = true) ∧
    (∀ m n, same m n = true → number h m = number h n ∧ hash m = hash n ∧ m.isAny = n.isAny ∧
      ∀ (r : Reading) (v : Int), 1 ≤ r.month → r.month ≤ 12 →
        ∃ b, accepts r v m = some b ∧ accepts r v n = some b) ∧
    ∀ eq num, Tables eq num h ↔ eq = same ∧ num = number h := by
  refine ⟨same_equivalence, ?_, fun _ _ => tables_iff⟩
  intro m n hsame
  refine ⟨number_eq_of_same hsame, number_eq_of_same hsame, isAny_eq_of_same hsame, ?_⟩
  intro r v hfirst hlast
  have hmonth : r.daysInMonth?.isSome := by
    rw [Option.isSome_iff_ne_none, Reading.daysInMonth?, Ne, monthLength?_eq_none_iff]
    omega
  obtain ⟨b, hb⟩ := Option.isSome_iff_exists.mp (isSome_accepts hmonth v m)
  exact ⟨b, hb, accepts_eq_of_same hmonth v hsame ▸ hb⟩

end CronSchedule.Matcher
