import CronSchedule.Pattern.Validity
import CronSchedule.Proofs.Grammar.Field
import CronSchedule.Proofs.Meaning.Expression

/-!
# Which expressions are validated

Validation compiles an expression and reports the error, so it answers whenever compiling
ends in a pattern or in an error that has a report.  What is load-bearing is the one error
without a report, a numeral that is too long to be read: validation then gives no answer
either.

Compiling goes through an expression from left to right and ends at the first fault, so an
expression is validated exactly when that fault, if there is any, is not such a numeral.

* `SegmentForm`, `ExpressionForm` — the grammar of segments and of expressions;
* `SegmentStops`, `ExpressionStops` — where a numeral that is too long ends the compiling;
* `Pattern.passes_compile` — what compiles is of the grammar;
* `Pattern.Validates` — validation answers, and agrees with compiling;
* `Pattern.validates_iff` — it does exactly where the compiling is not ended so;
* `Pattern.validates_of_shortNumerals` — and so about all expressions with short numerals.
-/

namespace CronSchedule

open Text

/-! ### The grammar of expressions -/

/-- The words of a segment under the fields of the layout for so many. -/
def SegmentFields (segment : List Char) (texts : List (Field × List Char)) : Prop :=
  ∃ fields layout, StandsFor (strip segment) fields ∧
    Layout.ofCount? (words fields).length = some layout ∧ texts = layout.fields.zip (words fields)

/-- A segment stands for five to seven words, each of the grammar of its field. -/
def SegmentForm (segment : List Char) : Prop :=
  ∃ texts, SegmentFields segment texts ∧ ∀ x ∈ texts, FieldForm x.1 x.2

/-- Compiling a segment stops at a field where all fields before it are of the grammar. -/
def SegmentStops (segment : List Char) : Prop :=
  ∃ texts, SegmentFields segment texts ∧
    Stops (fun x : Field × List Char => FieldForm x.1 x.2) (fun x => FieldStops x.1 x.2) texts

/-- An expression is a list of segments between bars. -/
def ExpressionForm (text : List Char) : Prop :=
  ∀ segment ∈ pieces '|' (strip text), SegmentForm segment

/-- Compiling an expression stops at a segment where all segments before it are of the
grammar. -/
def ExpressionStops (text : List Char) : Prop :=
  Stops SegmentForm SegmentStops (pieces '|' (strip text))

/-! ### Compiling as the grammar says -/

theorem CompileError.ofField_eq_longNumeral_iff {expression : String} {position : Int} {f : Field}
    {fault : FieldFault} :
    ofField expression position f fault = longNumeral ↔ fault = .longNumeral := by
  cases fault with
  | problem problem => exact ⟨fun h => (by cases h), fun h => (by cases h)⟩
  | longNumeral => exact ⟨fun _ => rfl, fun _ => rfl⟩

/-- The fields of a segment compile one after the other. -/
theorem passes_compileFields (expression : String) (texts : List (Field × List Char)) :
    ∀ position, Passes .longNumeral (compileFields expression position texts)
      (∀ x ∈ texts, FieldForm x.1 x.2)
      (Stops (fun x : Field × List Char => FieldForm x.1 x.2) (fun x => FieldStops x.1 x.2)
        texts) := by
  induction texts with
  | nil =>
    intro position
    rw [compileFields]
    exact (Passes.ok _).congr ⟨fun _ x hx => (by cases hx), fun _ => trivial⟩
      ⟨False.elim, fun hstops => by cases hstops⟩
  | cons x texts ih =>
    intro position
    obtain ⟨f, text⟩ := x
    rw [Stops.cons_iff, List.forall_mem_cons]
    refine (f.passes_compile text).followed (CompileError.ofField expression position f)
      (fun m slots => (f, m) :: slots) (fun _ => CompileError.ofField_eq_longNumeral_iff)
      (fun fault hfault => ?_) (fun m hm => ?_) (ih (position + 1))
    · rw [compileFields, hfault]
    · rw [compileFields, hm]

theorem segmentFields_iff {segment : List Char} {texts : List (Field × List Char)} :
    SegmentFields segment texts ↔ ∃ layout,
      Layout.ofCount? (words (expandAlias (strip segment))).length = some layout ∧
        texts = layout.fields.zip (words (expandAlias (strip segment))) := by
  simp only [SegmentFields, standsFor_iff]
  constructor
  · rintro ⟨fields, layout, rfl, hlayout, htexts⟩
    exact ⟨layout, hlayout, htexts⟩
  · rintro ⟨layout, hlayout, htexts⟩
    exact ⟨_, layout, rfl, hlayout, htexts⟩

/-- A blank segment has no fields. -/
theorem not_segmentFields_of_blank {segment : List Char} (h : strip segment = [])
    (texts : List (Field × List Char)) : ¬ SegmentFields segment texts := by
  rw [segmentFields_iff, h]
  rintro ⟨layout, hlayout, -⟩
  cases hlayout

/-- A segment compiles when its fields do. -/
theorem passes_compileAlternative (expression : String) (index : Nat) (segment : List Char) :
    Passes .longNumeral (compileAlternative expression index segment) (SegmentForm segment)
      (SegmentStops segment) := by
  rw [compileAlternative]
  unfold SegmentForm SegmentStops
  split
  · rename_i hempty
    have hnone := not_segmentFields_of_blank (List.isEmpty_iff.mp hempty)
    exact (Passes.error (by simp)).congr ⟨False.elim, fun ⟨texts, h, _⟩ => hnone texts h⟩
      ⟨False.elim, fun ⟨texts, h, _⟩ => hnone texts h⟩
  · simp only [segmentFields_iff]
    split
    · rename_i hnone
      refine (Passes.error (by simp)).congr ?_ ?_ <;> simp [hnone]
    · rename_i layout hlayout
      refine ((passes_compileFields expression _ 0).map _).congr ?_ ?_ <;> simp [hlayout]

/-- The segments of an expression compile one after the other. -/
theorem passes_compileAlternatives (expression : String) (segments : List (List Char)) :
    ∀ index, Passes .longNumeral (compileAlternatives expression index segments)
      (∀ segment ∈ segments, SegmentForm segment) (Stops SegmentForm SegmentStops segments) := by
  induction segments with
  | nil =>
    intro index
    rw [compileAlternatives]
    exact (Passes.ok _).congr ⟨fun _ x hx => (by cases hx), fun _ => trivial⟩
      ⟨False.elim, fun hstops => by cases hstops⟩
  | cons segment segments ih =>
    intro index
    rw [Stops.cons_iff, List.forall_mem_cons]
    refine (passes_compileAlternative expression index segment).followed id List.cons
      (fun _ => Iff.rfl)
      (fun e he => ?_) (fun a ha => ?_) (ih (index + 1))
    · rw [compileAlternatives, he, id_eq]
    · rw [compileAlternatives, ha]

namespace Pattern

/-- An expression compiles exactly when it is of the grammar, unless its compiling stops. -/
theorem passes_compile (expression : String) :
    Passes .longNumeral (compile expression) (ExpressionForm expression.toList)
      (ExpressionStops expression.toList) := by
  refine Passes.map _ ?_
  rw [Pattern.read]
  split
  · rename_i hempty
    have hnone : ∀ texts, ¬ SegmentFields [] texts := not_segmentFields_of_blank rfl
    unfold ExpressionForm ExpressionStops
    rw [List.isEmpty_iff.mp hempty, pieces_nil, Stops.cons_iff, List.forall_mem_singleton]
    refine (Passes.error (by simp)).congr ⟨False.elim, fun ⟨texts, h, _⟩ => hnone texts h⟩
      ⟨False.elim, ?_⟩
    rintro (⟨texts, h, -⟩ | ⟨⟨texts, h, -⟩, -⟩)
    · exact hnone texts h
    · exact hnone texts h
  · exact passes_compileAlternatives expression _ 0

/-! ### Validation -/

/-- Both validators answer, and say of an expression what compiling it says: the list of
messages is empty exactly if the expression is valid, that is if it compiles, and else it
holds the message of the error alone. -/
def Validates (expression : String) : Prop :=
  ∃ messages valid, problems expression = .ok messages ∧ isValid expression = .ok valid ∧
    (messages = [] ↔ valid = true) ∧ (valid = true ↔ ∃ p, compile expression = .ok p) ∧
    ∀ e, compile expression = .error e → ∃ report, e.report? = some report ∧
      report.kind.concernsExpression = true ∧
      ∃ message, report.message = symbols message ∧ messages = [message]

/-- Every other error than a numeral that is too long has a report. -/
theorem exists_report_of_ne {e : CompileError} (h : e ≠ .longNumeral) :
    ∃ report, e.report? = some report ∧ report.kind.concernsExpression = true ∧
      report.message = symbols e.message := by
  cases e with
  | longNumeral => exact absurd rfl h
  | blank => exact ⟨_, rfl, rfl, rfl⟩
  | blankAlternative => exact ⟨_, rfl, rfl, rfl⟩
  | fieldCount => exact ⟨_, rfl, rfl, rfl⟩
  | field => exact ⟨_, rfl, rfl, rfl⟩

/-- Validation answers where the error of compiling, if there is one, has a report. -/
theorem validates_iff_compile_ne {expression : String} :
    Validates expression ↔ compile expression ≠ .error .longNumeral := by
  rw [Validates, problems, isValid]
  cases hcompile : compile expression with
  | ok p =>
    refine ⟨fun _ h => (by cases h), fun _ => ⟨[], true, rfl, rfl, by simp, by simp, ?_⟩⟩
    intro e he
    cases he
  | error e =>
    constructor
    · rintro ⟨messages, valid, hmessages, -⟩ he
      obtain rfl := Except.error.inj he
      cases hmessages
    · intro hne
      obtain ⟨report, hreport, hkind, hmessage⟩ :=
        exists_report_of_ne fun h => hne (congrArg Except.error h)
      refine ⟨[e.message], false, by simp [hreport], by simp [hreport], by simp, by simp, ?_⟩
      intro e' he'
      obtain rfl := Except.error.inj he'
      exact ⟨report, hreport, hkind, e.message, hmessage, rfl⟩

/-- An expression is validated exactly when its compiling does not stop. -/
theorem validates_iff (expression : String) :
    Validates expression ↔ ¬ ExpressionStops expression.toList :=
  validates_iff_compile_ne.trans (not_congr (passes_compile expression).stops_iff)

/-- Where no numeral is too long compiling does not stop: the aliases have short numerals too. -/
theorem not_shortNumerals_of_expressionStops {text : List Char} (h : ExpressionStops text) :
    ¬ ShortNumerals text := by
  intro hshort
  obtain ⟨segment, hsegment, texts, ⟨fields, layout, hfields, -, rfl⟩, hstops⟩ :=
    Stops.exists_mem h
  obtain ⟨x, hx, hlong⟩ := hstops.exists_mem
  have hword : x.2 ∈ words fields := (List.of_mem_zip hx).2
  have hpart : ShortNumerals fields := by
    cases hfields with
    | named hentry =>
      have haliases : ∀ entry ∈ aliases, entry.2.toList.length ≤ numeralLimit := by decide
      exact .of_length_le (haliases _ hentry)
    | itself => exact hshort.of_infix ((strip_isInfix segment).trans
        ((infix_of_mem_pieces hsegment).trans (strip_isInfix text)))
  exact hlong.not_shortNumerals (hpart.of_infix (infix_of_mem_words hword))

/-- Validation answers about every expression without a numeral that is too long. -/
theorem validates_of_shortNumerals {expression : String}
    (h : ShortNumerals expression.toList) : Validates expression :=
  validates_iff_compile_ne.mpr fun hstop =>
    not_shortNumerals_of_expressionStops ((passes_compile expression).stops_iff.mp hstop) h

/-! ### A numeral that is too long -/

/-- Reading a field that is nothing but a numeral stops if that is too long. -/
theorem fieldStops_of_overlong {f : Field} {run : List Char} (h : Overlong run) :
    FieldStops f run := by
  obtain ⟨hstrip, hupper⟩ := upper_strip_of_isDigit h.1
  have hsign {c : Char} (hc : c.isDigit = false) : c ∉ run := fun hmem => by
    rw [h.1 c hmem] at hc
    cases hc
  have hvalue : Overlong (upper (strip run)) := by rwa [hstrip, hupper]
  refine ⟨?_, ?_⟩
  · rintro (hstar | hmark)
    · exact hsign (c := '*') rfl (by rw [hstrip] at hstar; simp [hstar])
    · exact hsign (c := '?') rfl (by rw [hstrip] at hmark; simp [hmark])
  · rw [hstrip, pieces_of_not_mem (hsign rfl)]
    refine .head (.plain (fun _ => ?_) ?_)
    · rw [hstrip, hupper]
      exact hsign rfl
    · rw [hstrip]
      exact .plain (hsign rfl) (.value hvalue)

/-- No alias begins with a digit. -/
theorem standsFor_itself {c : Char} {s : List Char} (hc : c.isDigit = true) :
    StandsFor (c :: s) (c :: s) := by
  refine .itself fun entry hentry heq => ?_
  have halias : ∀ entry ∈ aliases, entry.1.toList.head? = some '@' := by decide
  have hhead := halias entry hentry
  rw [← heq, lower_cons, List.head?_cons] at hhead
  exact forall_isDigit (P := fun c => lowerChar c ≠ '@') (by decide) hc (Option.some.inj hhead)

/-- Compiling an expression stops at a minute that is nothing but such a numeral. -/
theorem expressionStops_of_overlong {run : List Char} (h : Overlong run) :
    ExpressionStops (run ++ " * * * *".toList) := by
  have hblank : ∀ c ∈ run, isBlank c = false := fun c hc => isBlank_of_isDigit (h.1 c hc)
  have hfront : " * * * *".toList = " * * * ".toList ++ ['*'] := rfl
  have hbehind : " * * * *".toList = ' ' :: "* * * *".toList := rfl
  have hwords : words (run ++ " * * * *".toList) = run :: words "* * * *".toList := by
    rw [hbehind]
    exact words_append_blank h.ne_nil hblank (by decide) _
  have hbar : '|' ∉ run ++ " * * * *".toList := by
    intro hmem
    rcases List.mem_append.mp hmem with hmem | hmem
    · cases h.1 '|' hmem
    · exact absurd hmem (by decide)
  obtain ⟨hstrip, hitself⟩ : strip (run ++ " * * * *".toList) = run ++ " * * * *".toList ∧
      StandsFor (run ++ " * * * *".toList) (run ++ " * * * *".toList) := by
    cases run with
    | nil => exact absurd rfl h.ne_nil
    | cons c run =>
      refine ⟨?_, standsFor_itself (h.1 c List.mem_cons_self)⟩
      rw [hfront, ← List.append_assoc]
      exact strip_cons_concat (s := run ++ " * * * ".toList) (hblank c List.mem_cons_self)
        (by decide)
  rw [ExpressionStops, hstrip, pieces_of_not_mem hbar]
  refine .head ⟨_, ⟨_, .standard, by rwa [hstrip], ?_, rfl⟩, ?_⟩
  · rw [hwords]
    rfl
  · rw [hwords]
    exact .head (fieldStops_of_overlong h)

/-- About an expression with a minute of 4301 digits validation gives no answer. -/
theorem not_validates_overlongMinute :
    ¬ Validates (String.ofList (List.replicate 4301 '9' ++ " * * * *".toList)) := by
  have hlong : Overlong (List.replicate 4301 '9') := by
    refine ⟨fun c hc => ?_, ?_⟩
    · rw [List.eq_of_mem_replicate hc]
      rfl
    · rw [List.length_replicate]
      decide
  have hstops := expressionStops_of_overlong hlong
  rw [← String.toList_ofList (l := _ ++ _), ← (passes_compile _).stops_iff] at hstops
  exact fun hvalidates => validates_iff_compile_ne.mp hvalidates hstops

end Pattern

end CronSchedule
