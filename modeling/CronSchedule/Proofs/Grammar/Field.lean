import CronSchedule.Error
import CronSchedule.Field.Compile
import CronSchedule.Proofs.Grammar.Reader
import CronSchedule.Proofs.Meaning.Field

/-!
# The grammar of a field

A field is a star, a question mark, or a list of items between commas.  The grammar says of
which forms an item is, and nothing of the order in which a text is searched for slashes,
dashes and the letter `L`.

* `PlainItem`, `LastItem`, `ItemForm` — the items of a field, and what they stand for;
* `FieldForm` — the grammar of a field;
* `ItemStops`, `FieldStops` — where a numeral that is too long ends the reading;
* `Field.reads_readItem`, `Field.reads_read`, `Field.passes_compile` — the readers follow the
  grammar;
* `Field.compile_iff` — a field compiles exactly when it is of the grammar, and else the
  error names the field.
-/

namespace CronSchedule

open Text

/-! ### Forms -/

/-- An item without `L`: a base, or a base and a step that is not zero. -/
inductive PlainItem (f : Field) : List Char → Item → Prop
  | base {text : List Char} {first last : Int} : Spans f.domain text first last →
      PlainItem f text (.span first last 1)
  | step {base steps : List Char} {first last : Int} {k : Nat} :
      Spans f.domain base first last → Numeral steps k → 0 < k →
      PlainItem f (base ++ '/' :: steps) (.span first last k)

/-- An item with `L`: `L` alone in the two day fields, and `L` behind or before a weekday. -/
inductive LastItem (f : Field) (text : List Char) : Item → Prop
  | lastDay : f = .dayOfMonth → upper text = ['L'] → LastItem f text .lastDay
  | saturday : f = .dayOfWeek → upper text = ['L'] →
      LastItem f text (.span lastDayOfWeek lastDayOfWeek 1)
  | lastWeekday {weekday : List Char} {n : Int} : f = .dayOfWeek →
      upper text = weekday ++ ['L'] ∨ upper text = 'L' :: weekday →
      (∀ c ∈ ['L', '-', '/', '*'], c ∉ weekday) → Writes f.domain weekday n →
      LastItem f text (.lastWeekday (f.domain.normalize n))

/-- The forms of an item.  In the two day fields an item with an `L` is of one of the forms
with `L`. -/
def ItemForm (f : Field) (text : List Char) (i : Item) : Prop :=
  (PlainItem f text i ∨ LastItem f text i) ∧
    (f.domain.hasLast = true → 'L' ∈ upper text → LastItem f text i)

/-- The forms of a member of the list, which is trimmed first and is not blank. -/
def MemberForm (f : Field) (text : List Char) (i : Item) : Prop :=
  strip text ≠ [] ∧ ItemForm f (strip text) i

/-- The grammar of a field. -/
def FieldForm (f : Field) (text : List Char) : Prop :=
  Unrestricted text ∨ ∀ item ∈ pieces ',' (strip text), ∃ i, MemberForm f item i

/-- What a field of the grammar is written as. -/
def WrittenForm (f : Field) (text : List Char) : Written → Prop
  | .unrestricted => Unrestricted text
  | .list items => ¬ Unrestricted text ∧
    List.Forall₂ (MemberForm f) (pieces ',' (strip text)) items

/-! ### Stops -/

/-- Reading an item without `L` stops at its step, or at its base where the step is of the
grammar or there is none. -/
inductive PlainItemStops (f : Field) : List Char → Prop
  | step {base steps digits : List Char} : '/' ∉ base → steps = digits ∨ steps = '-' :: digits →
      Overlong digits → PlainItemStops f (base ++ '/' :: steps)
  | base {base steps : List Char} {k : Nat} : '/' ∉ base → Numeral steps k → 0 < k →
      BaseStops f base → PlainItemStops f (base ++ '/' :: steps)
  | plain {text : List Char} : '/' ∉ text → BaseStops f text → PlainItemStops f text

/-- Reading an item stops at a part of an item without `L`, or at the weekday beside an `L`. -/
inductive ItemStops (f : Field) (text : List Char) : Prop
  | plain : (f.domain.hasLast = true → 'L' ∉ upper text) → PlainItemStops f text →
      ItemStops f text
  | weekday {weekday : List Char} : f = .dayOfWeek →
      upper text = weekday ++ ['L'] ∨ upper text = 'L' :: weekday →
      Overlong (upper (strip weekday)) → ItemStops f text

/-- Reading a field stops at an item where all items before it are of the grammar. -/
def FieldStops (f : Field) (text : List Char) : Prop :=
  ¬ Unrestricted text ∧
    Stops (fun item => ∃ i, MemberForm f item i) (fun item => ItemStops f (strip item))
      (pieces ',' (strip text))

/-! ### Reading an item -/

namespace Field

variable {f : Field}

/-- An item without `L` is read as its form says. -/
theorem reads_readSpan (f : Field) (text : List Char) :
    Reads .longNumeral (readSpan f.domain text) (PlainItem f text) (PlainItemStops f text) := by
  rw [readSpan]
  split
  · rename_i hslash
    have hcut := before_append_after hslash
    have hbase := not_mem_before '/' text
    generalize before '/' text = base at hcut hbase ⊢
    generalize after '/' text = steps at hcut ⊢
    refine ((reads_readStep steps text).bind fun step _ => (reads_readBase f base).bind fun x _ =>
      Reads.ok (Item.span x.1 x.2 step)).congr (fun i => ?_) ?_
    · constructor
      · rintro ⟨step, ⟨k, hk, hpos, rfl⟩, x, hspans, rfl⟩
        exact hcut ▸ .step hspans hk hpos
      · intro hitem
        cases hitem with
        | base hspans => exact absurd hslash hspans.not_mem_slash
        | step hspans hk hpos =>
          obtain ⟨rfl, rfl⟩ := append_sep_inj hbase hspans.not_mem_slash hcut
          exact ⟨_, ⟨_, hk, hpos, rfl⟩, (_, _), hspans, rfl⟩
    · constructor
      · rintro (⟨digits, hdigits, hlong⟩ | ⟨step, ⟨k, hk, hpos, rfl⟩, hstops | ⟨x, -, hfalse⟩⟩)
        · exact hcut ▸ .step hbase hdigits hlong
        · exact hcut ▸ .base hbase hk hpos hstops
        · exact hfalse.elim
      · intro hstops
        cases hstops with
        | step hbase' hdigits hlong =>
          obtain ⟨rfl, rfl⟩ := append_sep_inj hbase hbase' hcut
          exact .inl ⟨_, hdigits, hlong⟩
        | base hbase' hk hpos hstops =>
          obtain ⟨rfl, rfl⟩ := append_sep_inj hbase hbase' hcut
          exact .inr ⟨_, ⟨_, hk, hpos, rfl⟩, .inl hstops⟩
        | plain hnone => exact absurd hslash hnone
  · rename_i hslash
    have hmiddle (s t : List Char) : '/' ∈ s ++ '/' :: t :=
      List.mem_append_right _ List.mem_cons_self
    refine ((reads_readBase f text).bind fun x _ => Reads.ok (Item.span x.1 x.2 1)).congr
      (fun i => ?_) ?_
    · constructor
      · rintro ⟨x, hspans, rfl⟩
        exact .base hspans
      · intro hitem
        cases hitem with
        | base hspans => exact ⟨(_, _), hspans, rfl⟩
        | step => exact absurd (hmiddle _ _) hslash
    · constructor
      · rintro (hstops | ⟨x, -, hfalse⟩)
        · exact .plain hslash hstops
        · exact hfalse.elim
      · intro hstops
        cases hstops with
        | step => exact absurd (hmiddle _ _) hslash
        | base => exact absurd (hmiddle _ _) hslash
        | plain _ hstops => exact .inl hstops

/-- What stands beside an `L` is found, where it is no `L` and not nothing. -/
theorem besideLast_eq_some {capitals weekday : List Char} (hne : weekday ≠ [])
    (hL : 'L' ∉ weekday) (h : capitals = weekday ++ ['L'] ∨ capitals = 'L' :: weekday) :
    besideLast capitals = some weekday := by
  rcases h with rfl | rfl
  · rw [besideLast, if_pos (List.getLast?_concat), List.dropLast_concat]
  · have hlast : ('L' :: weekday).getLast? ≠ some 'L' := by
      rw [List.getLast?_cons_of_ne_nil hne]
      exact fun hlast => hL (List.mem_of_getLast? hlast)
    rw [besideLast, if_neg hlast, List.head?_cons, if_pos rfl, List.tail_cons]

theorem isPlain_eq_true_iff {text : List Char} :
    isPlain text = true ↔ text ≠ [] ∧ ∀ c ∈ ['L', '-', '/', '*'], c ∉ text := by
  simp only [isPlain, Bool.and_eq_true, Bool.not_eq_true', List.isEmpty_eq_false_iff,
    List.all_eq_true, bne_iff_ne]
  refine and_congr_right fun _ => ?_
  constructor
  · intro hall c hc hmem
    have hne := hall c hmem
    simp only [List.mem_cons, List.not_mem_nil, or_false] at hc
    rcases hc with rfl | rfl | rfl | rfl <;> simp at hne
  · intro hall c hmem
    have hne (d : Char) (hd : d ∈ ['L', '-', '/', '*']) : c ≠ d := fun h => hall d hd (h ▸ hmem)
    exact ⟨⟨⟨hne _ (by decide), hne _ (by decide)⟩, hne _ (by decide)⟩, hne _ (by decide)⟩

theorem mem_L_of_beside {capitals weekday : List Char}
    (h : capitals = weekday ++ ['L'] ∨ capitals = 'L' :: weekday) : 'L' ∈ capitals := by
  rcases h with rfl | rfl
  · exact List.mem_append_right _ (List.mem_singleton_self _)
  · exact List.mem_cons_self

/-- A weekday that is too long may be read beside an `L`. -/
theorem isPlain_of_overlong {weekday : List Char} (h : Overlong (upper (strip weekday))) :
    isPlain weekday = true := by
  refine isPlain_eq_true_iff.mpr ⟨?_, fun c hc => not_mem_sign_of_overlong h ?_⟩
  · rintro rfl
    exact h.ne_nil rfl
  · simp only [List.mem_cons, List.not_mem_nil, or_false] at hc ⊢
    tauto

/-- In the day of the month an item with `L` is nothing but that. -/
theorem reads_readLast_dayOfMonth (text : List Char) :
    Reads .longNumeral (readLast .dayOfMonth text) (LastItem .dayOfMonth text) False := by
  rw [readLast, if_pos rfl]
  refine (Reads.ite_ok (by simp) _).congr (fun i => ?_) Iff.rfl
  constructor
  · rintro ⟨rfl, hupper⟩
    exact .lastDay rfl hupper
  · intro hitem
    cases hitem with
    | lastDay _ hupper => exact ⟨rfl, hupper⟩
    | saturday hf => cases hf
    | lastWeekday hf => cases hf

/-- What a form has beside its `L` is what is found there. -/
theorem besideLast_eq_some_iff {capitals weekday : List Char} (hplain : isPlain weekday = true) :
    besideLast capitals = some weekday ↔
      (capitals = weekday ++ ['L'] ∨ capitals = 'L' :: weekday) := by
  obtain ⟨hne, hnone⟩ := isPlain_eq_true_iff.mp hplain
  exact ⟨eq_of_besideLast, besideLast_eq_some hne (hnone 'L' (by decide))⟩

theorem lastItem_dayOfWeek_iff {text : List Char} {i : Item} :
    LastItem .dayOfWeek text i ↔
      upper text = ['L'] ∧ i = .span lastDayOfWeek lastDayOfWeek 1 ∨
      ∃ weekday n, besideLast (upper text) = some weekday ∧ isPlain weekday = true ∧
        Writes Field.dayOfWeek.domain weekday n ∧
        i = .lastWeekday (Field.dayOfWeek.domain.normalize n) := by
  constructor
  · intro hitem
    cases hitem with
    | lastDay hf => cases hf
    | saturday _ hupper => exact .inl ⟨hupper, rfl⟩
    | lastWeekday _ hbeside hnone hwrites =>
      have hplain := isPlain_eq_true_iff.mpr ⟨hwrites.ne_nil, hnone⟩
      exact .inr ⟨_, _, (besideLast_eq_some_iff hplain).mpr hbeside, hplain, hwrites, rfl⟩
  · rintro (⟨hupper, rfl⟩ | ⟨weekday, n, hsome, hplain, hwrites, rfl⟩)
    · exact .saturday rfl hupper
    · exact .lastWeekday rfl (eq_of_besideLast hsome) (isPlain_eq_true_iff.mp hplain).2 hwrites

/-- In the day of the week an item with `L` is that alone, or a weekday beside it. -/
theorem reads_readLast_dayOfWeek (text : List Char) :
    Reads .longNumeral (readLast .dayOfWeek text) (LastItem .dayOfWeek text) (∃ weekday,
      (upper text = weekday ++ ['L'] ∨ upper text = 'L' :: weekday) ∧
        Overlong (upper (strip weekday))) := by
  have hlong : (∃ weekday, (upper text = weekday ++ ['L'] ∨ upper text = 'L' :: weekday) ∧
      Overlong (upper (strip weekday))) ↔ ∃ weekday, besideLast (upper text) = some weekday ∧
        isPlain weekday = true ∧ Overlong (upper (strip weekday)) := by
    constructor
    · rintro ⟨weekday, hbeside, hlong⟩
      have hplain := isPlain_of_overlong hlong
      exact ⟨weekday, (besideLast_eq_some_iff hplain).mpr hbeside, hplain, hlong⟩
    · rintro ⟨weekday, hsome, -, hlong⟩
      exact ⟨weekday, eq_of_besideLast hsome, hlong⟩
  rw [hlong, readLast, if_neg (by decide)]
  split
  · rename_i hupper
    have hbeside : besideLast (upper text) = some [] := by rw [hupper]; rfl
    refine (Reads.ok _).congr (fun i => ?_) ⟨False.elim, ?_⟩
    · rw [lastItem_dayOfWeek_iff, hbeside]
      constructor
      · exact fun hi => .inl ⟨hupper, hi⟩
      · rintro (⟨-, hi⟩ | ⟨weekday, n, hsome, hplain, -⟩)
        · exact hi
        · cases hsome
          cases hplain
    · rw [hbeside]
      rintro ⟨weekday, hsome, hplain, -⟩
      cases hsome
      cases hplain
  · rename_i hupper
    split
    · rename_i hnone
      refine (Reads.error (by simp)).congr (fun i => ?_) ?_
      · simp [lastItem_dayOfWeek_iff, hupper, hnone]
      · simp [hnone]
    · rename_i weekday hsome
      split
      · rename_i hplain
        refine ((reads_readValue .dayOfWeek weekday).map fun n => Item.lastWeekday
          (Field.dayOfWeek.domain.normalize n)).congr (fun i => ?_) ?_
        · simp [lastItem_dayOfWeek_iff, hupper, hsome, hplain]
        · simp [hsome, hplain]
      · rename_i hplain
        refine (Reads.error (by simp)).congr (fun i => ?_) ?_
        · simp [lastItem_dayOfWeek_iff, hupper, hsome, hplain]
        · simp [hsome, hplain]

/-! ### Reading fields -/

/-- An item of a form with `L` has one, and its field is one of the two day fields. -/
theorem mem_L_of_lastItem {text : List Char} {i : Item} (h : LastItem f text i) :
    f.domain.hasLast = true ∧ 'L' ∈ upper text := by
  cases h with
  | lastDay hf hupper => exact ⟨hf ▸ rfl, hupper ▸ List.mem_singleton_self _⟩
  | saturday hf hupper => exact ⟨hf ▸ rfl, hupper ▸ List.mem_singleton_self _⟩
  | lastWeekday hf hbeside => exact ⟨hf ▸ rfl, mem_L_of_beside hbeside⟩

/-- Reading does not stop where nothing is written. -/
theorem ne_nil_of_itemStops {text : List Char} (h : ItemStops f text) : text ≠ [] := by
  have hmiddle : ∀ (s t : List Char) (c : Char), s ++ c :: t ≠ [] := by simp
  cases h with
  | plain _ hstops =>
    cases hstops with
    | step => exact hmiddle _ _ _
    | base => exact hmiddle _ _ _
    | plain _ hbase =>
      cases hbase with
      | value hlong =>
        rintro rfl
        exact hlong.ne_nil rfl
      | first => exact hmiddle _ _ _
      | last => exact hmiddle _ _ _
  | weekday _ hbeside =>
    rintro rfl
    exact absurd (mem_L_of_beside hbeside) List.not_mem_nil

/-- An item is read as its form says. -/
theorem reads_readItem (f : Field) (text item : List Char) :
    Reads .longNumeral (readItem f text item) (MemberForm f item) (ItemStops f (strip item)) := by
  rw [readItem]
  unfold MemberForm
  generalize strip item = item
  split
  · rename_i hempty
    obtain rfl := List.isEmpty_iff.mp hempty
    exact (Reads.error (by simp)).congr (fun i => ⟨False.elim, fun h => h.1 rfl⟩)
      ⟨False.elim, fun hstops => ne_nil_of_itemStops hstops rfl⟩
  · rename_i hempty
    rw [List.isEmpty_iff] at hempty
    split
    · rename_i hform
      rw [Bool.and_eq_true, List.contains_iff_mem] at hform
      obtain ⟨hlast, hL⟩ := hform
      have hgood (i : Item) : LastItem f item i ↔ item ≠ [] ∧ ItemForm f item i :=
        ⟨fun h => ⟨hempty, .inr h, fun _ _ => h⟩, fun h => h.2.2 hlast hL⟩
      rcases hasLast_domain_iff.mp hlast with rfl | rfl
      · refine (reads_readLast_dayOfMonth item).congr hgood ⟨False.elim, fun hstops => ?_⟩
        cases hstops with
        | plain hnone => exact hnone hlast hL
        | weekday hf => cases hf
      · refine (reads_readLast_dayOfWeek item).congr hgood ⟨?_, fun hstops => ?_⟩
        · rintro ⟨weekday, hbeside, hlong⟩
          exact .weekday rfl hbeside hlong
        · cases hstops with
          | plain hnone => exact absurd hL (hnone hlast)
          | weekday _ hbeside hlong => exact ⟨_, hbeside, hlong⟩
    · rename_i hform
      rw [Bool.and_eq_true, List.contains_iff_mem, not_and] at hform
      refine (reads_readSpan f item).congr (fun i => ?_) ?_
      · constructor
        · exact fun h => ⟨hempty, .inl h, fun hlast hL => absurd hL (hform hlast)⟩
        · rintro ⟨-, hitem | hitem, -⟩
          · exact hitem
          · obtain ⟨hlast, hL⟩ := mem_L_of_lastItem hitem
            exact absurd hL (hform hlast)
      · constructor
        · exact .plain hform
        · intro hstops
          cases hstops with
          | plain _ hstops => exact hstops
          | weekday hf hbeside =>
            exact absurd (mem_L_of_beside hbeside) (hform (hf ▸ rfl))

/-- A field is read as all of its values, or item by item. -/
theorem reads_read (f : Field) (text : List Char) :
    Reads .longNumeral (f.read text) (WrittenForm f text) (FieldStops f text) := by
  rw [read]
  split
  · rename_i hfree
    refine (Reads.ok _).congr (fun w => ?_) ⟨False.elim, fun hstops => hstops.1 hfree⟩
    cases w with
    | unrestricted => exact ⟨fun _ => hfree, fun _ => rfl⟩
    | list items => exact ⟨fun h => (by cases h), fun h => absurd hfree h.1⟩
  · rename_i hfree
    have hfree : ¬ Unrestricted text := hfree
    split
    · rename_i hempty
      rw [List.isEmpty_iff] at hempty
      have hnone : ∀ i, ¬ MemberForm f [] i := fun i h => h.1 rfl
      refine (Reads.error (by simp)).congr (fun w => ⟨False.elim, fun hw => ?_⟩)
        ⟨False.elim, ?_⟩
      · cases w with
        | unrestricted => exact hfree hw
        | list items =>
          obtain ⟨-, hitems⟩ := hw
          rw [hempty, pieces_nil] at hitems
          cases hitems with
          | cons hitem => exact hnone _ hitem
      · rintro ⟨-, hstops⟩
        rw [hempty, pieces_nil] at hstops
        cases hstops with
        | head hstops => exact ne_nil_of_itemStops hstops rfl
        | tail hitem => exact hnone _ hitem.choose_spec
    · refine ((Reads.mapM (reads_readItem f (strip text)) _).map Written.list).congr
        (fun w => ?_) (and_iff_right hfree).symm
      cases w with
      | unrestricted => exact ⟨fun ⟨_, _, h⟩ => (by cases h), fun h => absurd h hfree⟩
      | list items =>
        constructor
        · rintro ⟨_, hitems, hlist⟩
          cases hlist
          exact ⟨hfree, hitems⟩
        · exact fun hw => ⟨items, hw.2, rfl⟩

/-- Every item of a list has a counterpart exactly when the list has one of counterparts. -/
theorem exists_forall₂_iff {α β : Type} {R : α → β → Prop} {xs : List α} :
    (∃ ys, List.Forall₂ R xs ys) ↔ ∀ x ∈ xs, ∃ y, R x y := by
  induction xs with
  | nil => exact ⟨fun _ x hx => (by cases hx), fun _ => ⟨[], .nil⟩⟩
  | cons x xs ih =>
    rw [List.forall_mem_cons, ← ih]
    constructor
    · rintro ⟨ys, hys⟩
      cases hys with
      | cons hy hys => exact ⟨⟨_, hy⟩, _, hys⟩
    · rintro ⟨⟨y, hy⟩, ys, hys⟩
      exact ⟨y :: ys, .cons hy hys⟩

/-- A field is of the grammar exactly when the grammar has something that it is written as. -/
theorem fieldForm_iff {text : List Char} : FieldForm f text ↔ ∃ w, WrittenForm f text w := by
  rw [FieldForm, ← exists_forall₂_iff]
  constructor
  · rintro (hfree | ⟨items, hitems⟩)
    · exact ⟨.unrestricted, hfree⟩
    · by_cases hfree : Unrestricted text
      · exact ⟨.unrestricted, hfree⟩
      · exact ⟨.list items, hfree, hitems⟩
  · rintro ⟨w, hw⟩
    cases w with
    | unrestricted => exact .inl hw
    | list items => exact .inr ⟨items, hw.2⟩

/-- A field compiles as the grammar says. -/
theorem passes_compile (f : Field) (text : List Char) :
    Passes .longNumeral (f.compile text) (FieldForm f text) (FieldStops f text) :=
  ((f.reads_read text).passes.map _).congr fieldForm_iff.symm Iff.rfl

end Field

/-! ### Fields without overlong numerals -/

/-- Where no numeral is too long reading does not stop. -/
theorem BaseStops.not_shortNumerals {f : Field} {text : List Char} (h : BaseStops f text) :
    ¬ ShortNumerals text := by
  intro hshort
  cases h with
  | value hlong => exact hshort.not_overlong List.infix_rfl hlong
  | first hlong => exact hshort.not_overlong (List.prefix_append _ _).isInfix hlong
  | @last left right n _ hlong =>
    refine hshort.not_overlong (List.IsSuffix.isInfix ?_) hlong
    exact (List.suffix_cons _ _).trans (List.suffix_append _ _)

theorem ItemStops.not_shortNumerals {f : Field} {text : List Char} (h : ItemStops f text) :
    ¬ ShortNumerals text := by
  have hbehind (s t : List Char) (c : Char) : t <:+ s ++ c :: t :=
    (List.suffix_cons _ _).trans (List.suffix_append _ _)
  intro hshort
  cases h with
  | plain _ hstops =>
    cases hstops with
    | @step base steps digits _ hdigits hlong =>
      refine hshort digits (List.IsSuffix.isInfix (.trans ?_ (hbehind base steps '/'))) hlong
      rcases hdigits with rfl | rfl
      · exact List.suffix_rfl
      · exact List.suffix_cons _ _
    | base _ _ _ hstops =>
      exact hstops.not_shortNumerals (hshort.of_infix (List.prefix_append _ _).isInfix)
    | plain _ hstops => exact hstops.not_shortNumerals hshort
  | @weekday weekday _ hbeside hlong =>
    have hpart : weekday <:+: upper text := by
      rcases hbeside with hbeside | hbeside
      · exact hbeside ▸ (List.prefix_append _ _).isInfix
      · exact hbeside ▸ (List.suffix_cons _ _).isInfix
    have hdigits := infix_of_infix_upper hlong.1 List.infix_rfl
    exact hshort _ (infix_of_infix_upper hlong.1
      (hdigits.trans ((strip_isInfix weekday).trans hpart))) hlong

theorem FieldStops.not_shortNumerals {f : Field} {text : List Char} (h : FieldStops f text) :
    ¬ ShortNumerals text := by
  intro hshort
  obtain ⟨item, hitem, hlong⟩ := h.2.exists_mem
  exact hlong.not_shortNumerals (hshort.of_infix
    ((strip_isInfix item).trans ((infix_of_mem_pieces hitem).trans (strip_isInfix text))))

namespace Field

/-- Where no numeral is too long a field compiles exactly when it is of the grammar, and else
an error names the field. -/
theorem compile_iff (f : Field) {text : List Char} (hshort : ShortNumerals text) :
    ((∃ m, f.compile text = .ok m) ↔ FieldForm f text) ∧
    (¬ FieldForm f text → ∃ problem, f.compile text = .error (.problem problem) ∧
      ∀ expression position, ∃ report,
        (CompileError.ofField expression position f (.problem problem)).report? = some report ∧
          report.kind = .field ∧ report.field? = some f) := by
  have hpasses := f.passes_compile text
  have hgoes : f.compile text ≠ .error .longNumeral := fun hstop =>
    (hpasses.stops_iff.mp hstop).not_shortNumerals hshort
  refine ⟨⟨fun ⟨m, hm⟩ => hpasses.sound hm, fun hform => ?_⟩, fun hform => ?_⟩
  · exact (hpasses.complete hform).resolve_right hgoes
  · cases hcompile : f.compile text with
    | ok m => exact absurd (hpasses.sound hcompile) hform
    | error fault =>
      cases fault with
      | longNumeral => exact absurd hcompile hgoes
      | problem problem => exact ⟨problem, rfl, fun _ _ => ⟨_, rfl, rfl, rfl⟩⟩

/-- Every other weekday, the last Friday and Saturday are a field, and a range up to a last
weekday is none. -/
theorem compile_iff_weekdays :
    ShortNumerals "mon-fri/2, Lfri , l".toList ∧
      FieldForm .dayOfWeek "mon-fri/2, Lfri , l".toList ∧
      ShortNumerals "mon-5L".toList ∧ ¬ FieldForm .dayOfWeek "mon-5L".toList := by
  have hlist : ShortNumerals "mon-fri/2, Lfri , l".toList := .of_length_le (by decide)
  have hrange : ShortNumerals "mon-5L".toList := .of_length_le (by decide)
  refine ⟨hlist, (compile_iff .dayOfWeek hlist).1.mp ⟨_, rfl⟩, hrange, fun hform => ?_⟩
  obtain ⟨m, hm⟩ := (compile_iff .dayOfWeek hrange).1.mpr hform
  cases hm

end Field

end CronSchedule
