import CronSchedule.Proofs.Grammar.FirstFault

/-!
# Which token is reported

The error of a field holds the part of the text that is at fault.  At all places but one this is
a part of the text as it is written: the readers cut the text and trim its parts, and hand on
what they have been given.  The one place is a weekday beside an `L`.  There the item is put in
capitals first, to find the `L`, and what stands beside it is cut from the capitals, so a word
that is no weekday is reported in capitals.

What is load-bearing is which reader meets that word.  A word that is no weekday matters only in
the first item that is not read, and only where its capitals are no part of the text: a number
outside the domain is written as it is reported.

* `Blames` — what is said of the token of every problem of a reader, with its laws;
* `UnknownWeekday` — the items with a word beside their `L` that is no weekday, and
  `Field.blames_readItem`, by which no other item has a token that is not a part of it;
* `Field.AltersToken` — the texts of which the token is not a part;
* `Field.token_isInfix_iff` — a text has its token as a part unless it is one of these.
-/

namespace CronSchedule

open Text

/-! ### The tokens of a reader -/

/-- The token of every problem that the result may be is such. -/
def Blames {α : Type} (P : List Char → Prop) (r : Except FieldFault α) : Prop :=
  ∀ problem, r = .error (.problem problem) → P problem.token

namespace Blames

variable {α β : Type} {P Q : List Char → Prop} {r : Except FieldFault α}

theorem ok (a : α) : Blames P (.ok a) := by
  intro problem h
  cases h

theorem longNumeral : Blames P (.error .longNumeral : Except FieldFault α) := by
  intro problem h
  cases h

theorem problem {problem : FieldProblem} (h : P problem.token) :
    Blames P (.error (.problem problem) : Except FieldFault α) := by
  rintro _ ⟨⟩
  exact h

theorem mono (h : Blames P r) (hPQ : ∀ token, P token → Q token) : Blames Q r :=
  fun problem hr => hPQ problem.token (h problem hr)

theorem bind {k : α → Except FieldFault β} (h : Blames P r) (hthen : ∀ a, Blames P (k a)) :
    Blames P (r >>= k) := by
  cases r with
  | ok a => exact hthen a
  | error fault =>
    intro problem hproblem
    obtain rfl := Except.error.inj hproblem
    exact h problem rfl

theorem map (f : α → β) (h : Blames P r) : Blames P (r.map f) := by
  cases r with
  | ok a => exact ok (f a)
  | error fault =>
    intro problem hproblem
    obtain rfl := Except.error.inj hproblem
    exact h problem rfl

end Blames

namespace Field

/-! ### Values, ranges and steps -/

/-- A numeral is handed on, or it is none. -/
theorem blames_numeral {α : Type} {P : List Char → Prop} {digits : List Char}
    {check : Nat → Except FieldFault α} {problem : FieldProblem} (hproblem : P problem.token)
    (hcheck : ∀ n, Blames P (check n)) :
    Blames P
      (if isAsciiNumeral digits then
        match asciiNumeral? digits with
        | none => .error .longNumeral
        | some n => check n
      else .error (.problem problem)) := by
  split
  · split
    · exact .longNumeral
    · exact hcheck _
  · exact .problem hproblem

/-- A value is reported as it is given. -/
theorem blames_readValue (d : Domain) (token : List Char) :
    Blames (· = token) (readValue d token) := by
  rw [readValue]
  split
  · exact .ok _
  · refine blames_numeral rfl fun n => ?_
    split
    · exact .ok _
    · exact .problem rfl

/-- A range is reported as a whole, or one of its ends. -/
theorem blames_readRange (d : Domain) (text : List Char) :
    Blames (· <:+: text) (readRange d text) := by
  rw [readRange]
  split
  · rename_i left right hpieces
    have hend {token : List Char} (htoken : token ∈ [left, right]) :
        Blames (· <:+: text) (readValue d token) := by
      rw [← hpieces] at htoken
      exact (blames_readValue d token).mono fun _ h => h ▸ infix_of_mem_pieces htoken
    refine (hend (by simp)).bind fun first => (hend (by simp)).bind fun last => ?_
    split
    · exact .problem List.infix_rfl
    · exact .ok _
  · exact .problem List.infix_rfl

theorem blames_readBase (d : Domain) (base : List Char) :
    Blames (· <:+: base) (readBase d base) := by
  rw [readBase]
  split
  · exact .ok _
  · split
    · exact blames_readRange d base
    · exact ((blames_readValue d base).mono fun _ h => h ▸ List.infix_rfl).map _

/-- A step is reported with its item. -/
theorem blames_readStep (text item : List Char) : Blames (· = item) (readStep text item) := by
  have hcheck (step : Int) : Blames (· = item)
      (if step ≤ 0 then .error (.problem (.stepNotPositive step item)) else .ok step) := by
    split
    · exact .problem rfl
    · exact .ok _
  unfold readStep
  split
  exact blames_numeral rfl fun n => hcheck _

theorem blames_readSpan (d : Domain) (item : List Char) :
    Blames (· <:+: item) (readSpan d item) := by
  rw [readSpan]
  split
  · have hbefore : before '/' item <:+: item := (List.takeWhile_prefix _).isInfix
    refine ((blames_readStep _ item).mono fun _ h => h ▸ List.infix_rfl).bind fun step => ?_
    exact ((blames_readBase d _).mono fun _ h => h.trans hbefore).bind fun x => .ok _
  · exact (blames_readBase d item).bind fun x => .ok _

end Field

/-! ### Items with `L` -/

/-- The item in capitals is an `L` beside a word that is no weekday, and that is not too long to
be read as one. -/
structure UnknownWeekday (item weekday : List Char) : Prop where
  beside : upper item = weekday ++ ['L'] ∨ upper item = 'L' :: weekday
  ne_nil : weekday ≠ []
  plain : ∀ c ∈ ['L', '-', '/', '*'], c ∉ weekday
  short : ¬ Overlong (upper (strip weekday))
  unknown : ∀ n, ¬ Writes Field.dayOfWeek.domain weekday n

namespace Field

variable {f : Field} {item weekday : List Char}

/-- A word that is reported is no value, and not too long to be read. -/
theorem not_writes_of_readValue {word : List Char} {problem : FieldProblem}
    (h : readValue f.domain word = .error (.problem problem)) :
    ¬ Overlong (upper (strip word)) ∧ ∀ n, ¬ Writes f.domain word n := by
  have hreads := f.reads_readValue word
  rw [h] at hreads
  constructor
  · intro hlong
    cases hreads.stops_iff.mpr hlong
  · intro n hn
    rcases hreads.complete hn with hok | hstop
    · cases hok
    · cases hstop

/-- What is read of an item with `L` is reported as it is written, but for a word beside it that
is no weekday. -/
theorem blames_readLast (f : Field) (item : List Char) (hlast : f.domain.hasLast = true) :
    Blames (fun token => token <:+: item ∨ f = .dayOfWeek ∧ UnknownWeekday item token)
      (readLast f item) := by
  have hform {α : Type} : Blames
      (fun token => token <:+: item ∨ f = .dayOfWeek ∧ UnknownWeekday item token)
      (.error (.problem (.lastForm item)) : Except FieldFault α) := .problem (.inl List.infix_rfl)
  rw [readLast]
  split
  · split
    · exact .ok _
    · exact hform
  · rename_i hmonth
    obtain rfl : f = .dayOfWeek := (hasLast_domain_iff.mp hlast).resolve_left hmonth
    split
    · exact .ok _
    · split
      · exact hform
      · rename_i weekday hbeside
        split
        · rename_i hplain
          refine Blames.map _ fun problem hproblem => .inr ⟨rfl, ?_⟩
          obtain ⟨hne, hsigns⟩ := isPlain_eq_true_iff.mp hplain
          obtain ⟨hshort, hunknown⟩ := not_writes_of_readValue hproblem
          obtain rfl : problem.token = weekday := blames_readValue _ _ problem hproblem
          exact ⟨eq_of_besideLast hbeside, hne, hsigns, hshort, hunknown⟩
        · exact hform

/-- A word beside an `L` that is no weekday is reported in capitals. -/
theorem exists_problem_of_readLast (h : UnknownWeekday item weekday) :
    ∃ problem, readLast .dayOfWeek item = .error (.problem problem) ∧
      problem.token = weekday := by
  have hplain : isPlain weekday = true := isPlain_eq_true_iff.mpr ⟨h.ne_nil, h.plain⟩
  have hbeside : besideLast (upper item) = some weekday :=
    (besideLast_eq_some_iff hplain).mpr h.beside
  have hbare : upper item ≠ ['L'] := by
    intro hupper
    rw [hupper] at hbeside
    exact h.ne_nil (Option.some.inj hbeside).symm
  have hlast : readLast .dayOfWeek item = (readValue Field.dayOfWeek.domain weekday).map
      fun n => .lastWeekday (Field.dayOfWeek.domain.normalize n) := by
    rw [readLast, if_neg (by decide), if_neg hbare]
    simp only [hbeside, hplain, if_true]
  have hreads := reads_readValue .dayOfWeek weekday
  cases hvalue : readValue Field.dayOfWeek.domain weekday with
  | ok n => exact absurd (hreads.sound hvalue) (h.unknown n)
  | error fault =>
    cases fault with
    | longNumeral => exact absurd (hreads.stops_iff.mp hvalue) h.short
    | problem problem =>
      rw [hvalue] at hlast
      exact ⟨problem, hlast, blames_readValue _ _ problem hvalue⟩

/-! ### Fields -/

/-- An item has its token as a part, or it is blank and the list is reported, or it has a word
that is no weekday beside its `L`. -/
theorem blames_readItem (f : Field) (text item : List Char) :
    Blames (fun token => token <:+: strip item ∨ token = text ∨
      f = .dayOfWeek ∧ UnknownWeekday (strip item) token) (readItem f text item) := by
  rw [readItem]
  split
  · exact .problem (.inr (.inl rfl))
  · split
    · rename_i hform
      rw [Bool.and_eq_true] at hform
      exact (blames_readLast f _ hform.1).mono fun _ h => h.imp_right .inr
    · exact (blames_readSpan f.domain _).mono fun _ => .inl

theorem exists_problem_of_readItem (text : List Char)
    (h : UnknownWeekday (strip item) weekday) :
    ∃ problem, readItem .dayOfWeek text item = .error (.problem problem) ∧
      problem.token = weekday := by
  have hL : 'L' ∈ upper (strip item) := mem_L_of_beside h.beside
  have hne : ¬ (strip item).isEmpty = true := by
    intro hempty
    rw [List.isEmpty_iff.mp hempty] at hL
    cases hL
  have hform : (Field.dayOfWeek.domain.hasLast && (upper (strip item)).contains 'L') = true :=
    Bool.and_eq_true_iff.mpr ⟨rfl, List.contains_iff_mem.mpr hL⟩
  rw [readItem, if_neg hne, if_pos hform]
  exact exists_problem_of_readLast h

/-- The item is of the grammar and has no numeral that is too long. -/
def PassesItem (f : Field) (item : List Char) : Prop :=
  (∃ i, MemberForm f item i) ∧ ¬ ItemStops f (strip item)

theorem not_passesItem_iff {f : Field} {text item : List Char} :
    ¬ f.PassesItem item ↔ ∃ fault, readItem f text item = .error fault := by
  have hreads := f.reads_readItem text item
  unfold PassesItem
  cases hitem : readItem f text item with
  | ok i =>
    have hgoes : ¬ ItemStops f (strip item) := by
      intro hstops
      have hstop := hreads.stops_iff.mpr hstops
      rw [hitem] at hstop
      cases hstop
    exact ⟨fun h => absurd ⟨⟨i, hreads.sound hitem⟩, hgoes⟩ h, fun ⟨_, h⟩ => (by cases h)⟩
  | error fault =>
    refine ⟨fun _ => ⟨fault, rfl⟩, fun _ ⟨⟨i, hi⟩, hgoes⟩ => ?_⟩
    rcases hreads.complete hi with hok | hstop
    · rw [hitem] at hok
      cases hok
    · exact hgoes (hreads.stops_iff.mp hstop)

/-- The first item that is not read has a word beside its `L` that is no weekday, and in
capitals that word is no part of the text. -/
def AltersToken (f : Field) (text : List Char) : Prop :=
  f = .dayOfWeek ∧ ∃ i item weekday,
    FirstAt (fun item => ¬ f.PassesItem item) (pieces ',' (strip text)) i item ∧
      UnknownWeekday (strip item) weekday ∧ ¬ weekday <:+: text

/-- A list is read up to the first item that is not. -/
theorem mapM_readItem_eq_error_iff {f : Field} {text : List Char} {items : List (List Char)}
    {fault : FieldFault} : items.mapM (readItem f text) = .error fault ↔
      ∃ i item, FirstAt (fun item => ¬ f.PassesItem item) items i item ∧
        readItem f text item = .error fault :=
  @eq_error_iff_firstAt _ _ _ (fun _ => List.mapM (readItem f text)) (fun _ => readItem f text) _
    (fun _ => List.mapM_nil) (fun _ _ _ => List.mapM_cons) (fun _ _ => not_passesItem_iff) fault
    items 0

/-- A field is refused where nothing is written, or for the first item that is not read. -/
theorem compile_eq_error_iff {f : Field} {text : List Char} {fault : FieldFault} :
    f.compile text = .error fault ↔ ¬ Unrestricted text ∧
      (strip text = [] ∧ .problem .emptyField = fault ∨ strip text ≠ [] ∧
        ∃ i item, FirstAt (fun item => ¬ f.PassesItem item) (pieces ',' (strip text)) i item ∧
          readItem f (strip text) item = .error fault) := by
  rw [compile, map_eq_error_iff, read]
  split
  · rename_i hfree
    exact ⟨fun h => (by cases h), fun h => absurd hfree h.1⟩
  · rename_i hfree
    rw [and_iff_right (show ¬ Unrestricted text from hfree)]
    split
    · rename_i hempty
      simp [List.isEmpty_iff.mp hempty]
    · rename_i hempty
      rw [map_eq_error_iff, mapM_readItem_eq_error_iff]
      simp [List.isEmpty_iff.not.mp hempty]

/-- The token of a field that is refused is a part of its text as it is written, unless the text
is one of those where it is not. -/
theorem token_isInfix_iff (f : Field) (text : List Char) :
    (∀ problem, f.compile text = .error (.problem problem) → problem.token <:+: text) ↔
      ¬ f.AltersToken text := by
  constructor
  · rintro h ⟨rfl, i, item, weekday, hfirst, hunknown, hpart⟩
    have hL : 'L' ∈ upper (strip item) := mem_L_of_beside hunknown.beside
    have hnone : ∀ s ∈ [[], ['*'], ['?']], ∀ item ∈ pieces ',' s, 'L' ∉ upper (strip item) := by
      decide
    have hne (s : List Char) (hs : s ∈ [[], ['*'], ['?']]) : strip text ≠ s :=
      fun htext => hnone s hs item (htext ▸ hfirst.mem) hL
    have hfree : ¬ Unrestricted text := not_or.mpr ⟨hne _ (by simp), hne _ (by simp)⟩
    obtain ⟨problem, hitem, rfl⟩ := exists_problem_of_readItem (strip text) hunknown
    apply hpart
    apply h problem
    exact compile_eq_error_iff.mpr ⟨hfree, .inr ⟨hne _ (by simp), i, item, hfirst, hitem⟩⟩
  · intro halters problem hproblem
    obtain ⟨-, ⟨-, hempty⟩ | ⟨-, i, item, hfirst, hitem⟩⟩ := compile_eq_error_iff.mp hproblem
    · obtain rfl := FieldFault.problem.inj hempty
      exact List.nil_infix
    · rcases blames_readItem f _ item problem hitem with hpart | htext | ⟨hf, hunknown⟩
      · exact hpart.trans ((strip_isInfix item).trans
          ((infix_of_mem_pieces hfirst.mem).trans (strip_isInfix text)))
      · exact htext ▸ strip_isInfix text
      · by_contra hpart
        exact halters ⟨hf, i, item, _, hfirst, hunknown, hpart⟩

/-- Of a misspelt last Friday the weekday is reported in capitals. -/
theorem compile_frxL :
    Field.dayOfWeek.compile "frxL".toList = .error (.problem (.value "FRX".toList)) ∧
      (FieldProblem.value "FRX".toList).token = "FRX".toList ∧
      ¬ "FRX".toList <:+: "frxL".toList := by
  refine ⟨rfl, rfl, ?_⟩
  decide

end Field

end CronSchedule
