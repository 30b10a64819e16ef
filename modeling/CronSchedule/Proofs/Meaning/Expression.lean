import CronSchedule.Pattern.Compile
import CronSchedule.Proofs.Enumerate.Window
import CronSchedule.Proofs.Meaning.Field

/-!
# What an expression means

An expression accepts what some segment between its bars accepts.  A segment is an alias or
a row of five to seven words, one for each field, and accepts what all its fields accept; of
the two day fields one that is unrestricted has no say, and of two restricted ones either is
enough.  Nothing of this speaks of matchers, and what is compiled accepts the same.

* `Segment` — the words of a segment, each under its field;
* `Segment.Accepts`, `ExpressionAccepts` — what segments and expressions accept;
* `Segment.Compiled` — an alternative tests what a segment writes;
* `Pattern.accepts_compile` — matching a compiled expression answers whether the expression
  accepts.
-/

namespace CronSchedule

open Text

/-! ### Segments -/

/-- The words of a segment.  The second and the year need not be written. -/
structure Segment where
  second : Option (List Char)
  minute : List Char
  hour : List Char
  dayOfMonth : List Char
  month : List Char
  dayOfWeek : List Char
  year : Option (List Char)

namespace Segment

/-- Five words leave out the second and the year, six the year. -/
def ofWords? : List (List Char) → Option Segment
  | [minute, hour, dayOfMonth, month, dayOfWeek] =>
    some ⟨none, minute, hour, dayOfMonth, month, dayOfWeek, none⟩
  | [second, minute, hour, dayOfMonth, month, dayOfWeek] =>
    some ⟨some second, minute, hour, dayOfMonth, month, dayOfWeek, none⟩
  | [second, minute, hour, dayOfMonth, month, dayOfWeek, year] =>
    some ⟨some second, minute, hour, dayOfMonth, month, dayOfWeek, some year⟩
  | _ => none

/-- The text of a field, where it is written. -/
def text? (s : Segment) : Field → Option (List Char)
  | .second => s.second
  | .minute => some s.minute
  | .hour => some s.hour
  | .dayOfMonth => some s.dayOfMonth
  | .month => some s.month
  | .dayOfWeek => some s.dayOfWeek
  | .year => s.year

/-- The day rule: a restricted day field has to accept, and of two restricted ones either
has to.  Two unrestricted ones accept every day. -/
structure AcceptsDay (s : Segment) (w : WallTime) : Prop where
  dayOfMonth : ¬ Unrestricted s.dayOfMonth → Unrestricted s.dayOfWeek →
    FieldAccepts .dayOfMonth w s.dayOfMonth
  dayOfWeek : Unrestricted s.dayOfMonth → ¬ Unrestricted s.dayOfWeek →
    FieldAccepts .dayOfWeek w s.dayOfWeek
  either : ¬ Unrestricted s.dayOfMonth → ¬ Unrestricted s.dayOfWeek →
    FieldAccepts .dayOfMonth w s.dayOfMonth ∨ FieldAccepts .dayOfWeek w s.dayOfWeek

/-- Every field accepts what the clock shows, the second only if seconds are compared. -/
structure Accepts (s : Segment) (w : WallTime) (withSeconds : Bool) : Prop where
  second : withSeconds = true → ∀ text ∈ s.second, FieldAccepts .second w text
  minute : FieldAccepts .minute w s.minute
  hour : FieldAccepts .hour w s.hour
  month : FieldAccepts .month w s.month
  year : ∀ text ∈ s.year, FieldAccepts .year w text
  day : s.AcceptsDay w

end Segment

/-- A trimmed segment stands for the fields of the alias that it names in any case, and else
for itself. -/
inductive StandsFor (segment : List Char) : List Char → Prop
  | named {entry : String × String} : entry ∈ aliases → lower segment = entry.1.toList →
      StandsFor segment entry.2.toList
  | itself : (∀ entry ∈ aliases, lower segment ≠ entry.1.toList) → StandsFor segment segment

/-- A segment of the expression accepts what the clock shows. -/
def ExpressionAccepts (text : List Char) (w : WallTime) (withSeconds : Bool) : Prop :=
  ∃ piece ∈ pieces '|' (strip text), ∃ fields, StandsFor (strip piece) fields ∧
    ∃ s, Segment.ofWords? (words fields) = some s ∧ s.Accepts w withSeconds

/-! ### Aliases -/

/-- A segment stands for the fields that it is expanded to, and for no others. -/
theorem standsFor_iff {segment fields : List Char} :
    StandsFor segment fields ↔ fields = expandAlias segment := by
  -- no alias has two meanings
  have hone : ∀ entry ∈ aliases, ∀ other ∈ aliases, entry.1.toList = other.1.toList →
      entry.2.toList = other.2.toList := by decide
  unfold expandAlias
  cases hfind : aliases.find? fun entry => entry.1.toList == lower segment with
  | none =>
    have hnone : ∀ entry ∈ aliases, lower segment ≠ entry.1.toList := by
      intro entry hentry heq
      exact List.find?_eq_none.mp hfind entry hentry (beq_iff_eq.mpr heq.symm)
    constructor
    · intro h
      cases h with
      | named hentry heq => exact absurd heq (hnone _ hentry)
      | itself => rfl
    · rintro rfl
      exact .itself hnone
  | some entry =>
    have hentry : entry ∈ aliases := List.mem_of_find?_eq_some hfind
    have hfound := List.find?_some hfind
    have hname : entry.1.toList = lower segment := eq_of_beq hfound
    constructor
    · intro h
      cases h with
      | named hother heq => exact hone _ hother _ hentry (heq.symm.trans hname.symm)
      | itself hnone => exact absurd hname.symm (hnone _ hentry)
    · rintro rfl
      exact .named hentry hname.symm

/-! ### Compiled segments -/

/-- The alternative tests what the segment writes. -/
structure Segment.Compiled (s : Segment) (a : Alternative) : Prop where
  accepts_iff : ∀ f w b, (a.slot f).accepts (w.reading b) (f.valueAt w) = some true ↔
    ∀ text ∈ s.text? f, FieldAccepts f w text
  isAny_iff : ∀ f, (a.slot f).isAny = true ↔ ∀ text ∈ s.text? f, Unrestricted text

/-- The words of a layout's length are those of a segment. -/
theorem Segment.exists_ofWords {parts : List (List Char)} {layout : Layout}
    (h : Layout.ofCount? parts.length = some layout) :
    ∃ s, Segment.ofWords? parts = some s ∧ ∀ f, (layout.fields.zip parts).lookup f = s.text? f := by
  have hlength := Layout.length_of_ofCount? h
  cases layout with
  | standard =>
    match parts, hlength with
    | [_, _, _, _, _], _ => exact ⟨_, rfl, fun f => by cases f <;> rfl⟩
  | withSeconds =>
    match parts, hlength with
    | [_, _, _, _, _, _], _ => exact ⟨_, rfl, fun f => by cases f <;> rfl⟩
  | withSecondsAndYear =>
    match parts, hlength with
    | [_, _, _, _, _, _, _], _ => exact ⟨_, rfl, fun f => by cases f <;> rfl⟩

/-- Each field is compiled from its own text. -/
theorem lookup_compileFields {expression : String} {position : Nat}
    {texts : List (Field × List Char)} {slots : List (Field × Matcher)}
    (h : compileFields expression position texts = .ok slots) (f : Field) :
    (texts.lookup f = none ∧ slots.lookup f = none) ∨
      ∃ text m, texts.lookup f = some text ∧ slots.lookup f = some m ∧ f.compile text = .ok m := by
  induction texts generalizing position slots with
  | nil =>
    cases h
    exact .inl ⟨rfl, rfl⟩
  | cons entry texts ih =>
    obtain ⟨g, text⟩ := entry
    rw [compileFields] at h
    cases hcompile : g.compile text with
    | error fault =>
      rw [hcompile] at h
      cases h
    | ok m =>
      cases hrest : compileFields expression (position + 1) texts with
      | error e =>
        rw [hcompile, hrest] at h
        cases h
      | ok rest =>
        rw [hcompile, hrest] at h
        cases h
        rw [List.lookup_cons, List.lookup_cons]
        by_cases hf : f = g
        · subst hf
          simp only [beq_self_eq_true]
          exact .inr ⟨text, m, rfl, rfl, hcompile⟩
        · simp only [beq_false_of_ne hf]
          exact ih hrest

/-- An alternative tests what its segment writes. -/
theorem compiled_of_compileAlternative {expression : String} {index : Nat} {segment : List Char}
    {a : Alternative} (h : compileAlternative expression index segment = .ok a) :
    ∃ s, Segment.ofWords? (words (expandAlias (strip segment))) = some s ∧ s.Compiled a := by
  unfold compileAlternative at h
  dsimp only at h
  split at h
  · cases h
  · split at h
    · cases h
    · rename_i layout hlayout
      obtain ⟨s, hs, htext⟩ := Segment.exists_ofWords hlayout
      cases hslots : compileFields expression 0
          (layout.fields.zip (words (expandAlias (strip segment)))) with
      | error e =>
        rw [hslots] at h
        cases h
      | ok slots =>
        rw [hslots] at h
        obtain rfl := Except.ok.inj h
        refine ⟨s, hs, ?_, ?_⟩
        · intro f w b
          rw [Alternative.slot_ofSlots, ← htext]
          rcases lookup_compileFields hslots f with ⟨hnone, hany⟩ | ⟨text, m, hsome, hm, hcompile⟩
          · rw [hnone, hany]
            simp
          · rw [hsome, hm]
            simpa using Field.accepts_compile_iff hcompile w b
        · intro f
          rw [Alternative.slot_ofSlots, ← htext]
          rcases lookup_compileFields hslots f with ⟨hnone, hany⟩ | ⟨text, m, hsome, hm, hcompile⟩
          · rw [hnone, hany]
            simp [Matcher.isAny]
          · rw [hsome, hm]
            simpa using Field.isAny_compile_iff hcompile

namespace Segment.Compiled

variable {s : Segment} {a : Alternative} {w : WallTime} {b : Bool}

/-- A field that is written accepts what its text accepts. -/
theorem slot_accepts_iff (h : s.Compiled a) {f : Field} {text : List Char}
    (htext : s.text? f = some text) :
    (a.slot f).accepts (w.reading b) (f.valueAt w) = some true ↔ FieldAccepts f w text := by
  rw [h.accepts_iff, htext]
  simp

theorem slot_isAny_iff (h : s.Compiled a) {f : Field} {text : List Char}
    (htext : s.text? f = some text) : (a.slot f).isAny = true ↔ Unrestricted text := by
  rw [h.isAny_iff, htext]
  simp

/-- The two day fields follow the day rule. -/
theorem acceptsDay_iff (h : s.Compiled a) :
    a.acceptsDay (w.reading b) = some true ↔ s.AcceptsDay w := by
  have hmonthday : a.dayOfMonth.accepts (w.reading b) (w.reading b).day = some true ↔
      FieldAccepts .dayOfMonth w s.dayOfMonth :=
    h.slot_accepts_iff (f := .dayOfMonth) rfl
  have hweekday : a.dayOfWeek.accepts (w.reading b) (w.reading b).weekday = some true ↔
      FieldAccepts .dayOfWeek w s.dayOfWeek :=
    h.slot_accepts_iff (f := .dayOfWeek) rfl
  have hanyMonthday : a.dayOfMonth.isAny = true ↔ Unrestricted s.dayOfMonth :=
    h.slot_isAny_iff (f := .dayOfMonth) rfl
  have hanyWeekday : a.dayOfWeek.isAny = true ↔ Unrestricted s.dayOfWeek :=
    h.slot_isAny_iff (f := .dayOfWeek) rfl
  unfold Alternative.acceptsDay
  by_cases hm : Unrestricted s.dayOfMonth
  · rw [hanyMonthday.mpr hm]
    by_cases hd : Unrestricted s.dayOfWeek
    · rw [hanyWeekday.mpr hd]
      refine ⟨fun _ => ⟨?_, ?_, ?_⟩, fun _ => rfl⟩
      · exact fun hrestricted => absurd hm hrestricted
      · exact fun _ hrestricted => absurd hd hrestricted
      · exact fun hrestricted => absurd hm hrestricted
    · rw [Bool.eq_false_iff.mpr (mt hanyWeekday.mp hd)]
      show a.dayOfWeek.accepts _ _ = some true ↔ _
      rw [hweekday]
      refine ⟨fun haccepts => ⟨?_, fun _ _ => haccepts, ?_⟩, fun hday => hday.dayOfWeek hm hd⟩
      · exact fun hrestricted => absurd hm hrestricted
      · exact fun hrestricted => absurd hm hrestricted
  · rw [Bool.eq_false_iff.mpr (mt hanyMonthday.mp hm)]
    by_cases hd : Unrestricted s.dayOfWeek
    · rw [hanyWeekday.mpr hd]
      show a.dayOfMonth.accepts _ _ = some true ↔ _
      rw [hmonthday]
      refine ⟨fun haccepts => ⟨fun _ _ => haccepts, ?_, ?_⟩, fun hday => hday.dayOfMonth hm hd⟩
      · exact fun hfree => absurd hfree hm
      · exact fun _ hrestricted => absurd hd hrestricted
    · rw [Bool.eq_false_iff.mpr (mt hanyWeekday.mp hd)]
      show Verdict.or _ _ = some true ↔ _
      rw [Verdict.or_eq_true_iff (Matcher.isSome_accepts (w.daysInMonth?_reading b) _ _),
        hmonthday, hweekday]
      refine ⟨fun haccepts => ⟨?_, ?_, fun _ _ => haccepts⟩, fun hday => hday.either hm hd⟩
      · exact fun _ hfree => absurd hfree hd
      · exact fun hfree => absurd hfree hm

/-- The second is asked for only if seconds are compared. -/
theorem acceptsSecond_iff (h : s.Compiled a) :
    a.acceptsSecond (w.reading b) = some true ↔
      (b = true → ∀ text ∈ s.second, FieldAccepts .second w text) := by
  cases b with
  | false =>
    constructor
    · intro _ hcompared
      cases hcompared
    · exact fun _ => rfl
  | true =>
    have hsecond : a.second.accepts (w.reading true) w.second = some true ↔
        ∀ text ∈ s.second, FieldAccepts .second w text := h.accepts_iff .second w true
    show a.second.accepts _ w.second = some true ↔ _
    rw [hsecond]
    exact ⟨fun haccepts _ => haccepts, fun haccepts => haccepts rfl⟩

/-- An alternative accepts what its segment accepts. -/
theorem accepts_segment_iff (h : s.Compiled a) :
    a.accepts (w.reading b) = some true ↔ s.Accepts w b := by
  have hminute : a.minute.accepts (w.reading b) (w.reading b).minute = some true ↔
      FieldAccepts .minute w s.minute := h.slot_accepts_iff (f := .minute) rfl
  have hhour : a.hour.accepts (w.reading b) (w.reading b).hour = some true ↔
      FieldAccepts .hour w s.hour := h.slot_accepts_iff (f := .hour) rfl
  have hmonth : a.month.accepts (w.reading b) (w.reading b).month = some true ↔
      FieldAccepts .month w s.month := h.slot_accepts_iff (f := .month) rfl
  have hyear : a.year.accepts (w.reading b) (w.reading b).year = some true ↔
      ∀ text ∈ s.year, FieldAccepts .year w text := h.accepts_iff .year w b
  rw [Alternative.accepts_eq_true_iff, Alternative.acceptsDate_eq_true_iff, h.acceptsSecond_iff,
    hminute, hhour, hmonth, hyear, h.acceptsDay_iff]
  constructor
  · rintro ⟨hsecond, hminute, hhour, hmonth, hyear, hday⟩
    exact ⟨hsecond, hminute, hhour, hmonth, hyear, hday⟩
  · rintro ⟨hsecond, hminute, hhour, hmonth, hyear, hday⟩
    exact ⟨hsecond, hminute, hhour, hmonth, hyear, hday⟩

end Segment.Compiled

/-! ### Compiled expressions -/

/-- Some alternative accepts what the clock shows exactly when some segment does. -/
theorem exists_alternative_iff {expression : String} {w : WallTime} {b : Bool} {index : Nat}
    {segments : List (List Char)} {alternatives : List Alternative}
    (h : compileAlternatives expression index segments = .ok alternatives) :
    (∃ a ∈ alternatives, a.accepts (w.reading b) = some true) ↔
      ∃ piece ∈ segments, ∃ fields, StandsFor (strip piece) fields ∧
        ∃ s, Segment.ofWords? (words fields) = some s ∧ s.Accepts w b := by
  induction segments generalizing index alternatives with
  | nil =>
    cases h
    simp
  | cons piece segments ih =>
    rw [compileAlternatives] at h
    cases hpiece : compileAlternative expression index piece with
    | error e =>
      rw [hpiece] at h
      cases h
    | ok a =>
      cases hrest : compileAlternatives expression (index + 1) segments with
      | error e =>
        rw [hpiece, hrest] at h
        cases h
      | ok rest =>
        rw [hpiece, hrest] at h
        cases h
        obtain ⟨s, hs, hcompiled⟩ := compiled_of_compileAlternative hpiece
        have hhead : a.accepts (w.reading b) = some true ↔
            ∃ fields, StandsFor (strip piece) fields ∧
              ∃ s, Segment.ofWords? (words fields) = some s ∧ s.Accepts w b := by
          rw [hcompiled.accepts_segment_iff]
          constructor
          · exact fun haccepts => ⟨_, standsFor_iff.mpr rfl, s, hs, haccepts⟩
          · rintro ⟨fields, hfields, s', hs', haccepts⟩
            rw [standsFor_iff.mp hfields, hs] at hs'
            cases hs'
            exact haccepts
        simp only [List.mem_cons, exists_eq_or_imp, hhead, ih hrest]

namespace Pattern

/-- A compiled expression accepts what the expression accepts. -/
theorem admits_compile_iff {expression : String} {p : Pattern} (h : compile expression = .ok p)
    (w : WallTime) (b : Bool) :
    p.admits b w = true ↔ ExpressionAccepts expression.toList w b := by
  have hread := (compile_eq_ok_iff.mp h).1
  unfold Pattern.read at hread
  dsimp only at hread
  split at hread
  · cases hread
  · rw [admits_eq_true_iff, accepts_eq_true_iff (w.daysInMonth?_reading b)]
    exact exists_alternative_iff hread

/-- Matching a date and time against a compiled expression always answers, and answers
whether the expression accepts what the clock shows. -/
theorem accepts_compile {expression : String} {p : Pattern} (h : compile expression = .ok p)
    (d : DateTime) (withSeconds : Bool) (host : Host) (session : Session) :
    ∃ b, Call.outcome (Call.accepts p (.dateTime d) none (some withSeconds)) host session =
        (.ok b, session) ∧
      (b = true ↔ ExpressionAccepts expression.toList d.wall withSeconds) :=
  ⟨_, Call.outcome_accepts_dateTime p withSeconds d host session,
    admits_compile_iff h d.wall withSeconds⟩

/-- Midnight of the first of a month, and every twenty minutes of three hours on the last
day of February, its last Friday and its Sundays. -/
def monthEnds : Pattern where
  expression := "@Monthly | */20 8-18/5 L feb 5L,7"
  alternatives := [{
    layout := .standard
    minute := .values (.ofList [0])
    hour := .values (.ofList [0])
    dayOfMonth := .values (.ofList [1]) }, {
    layout := .standard
    minute := .values (.ofList [0, 20, 40])
    hour := .values (.ofList [8, 13, 18])
    dayOfMonth := .lastDay
    month := .values (.ofList [2])
    dayOfWeek := .anyOf [.lastWeekday 5, .values (.ofList [0])] }]

theorem accepts_compile_monthEnds :
    compile "@Monthly | */20 8-18/5 L feb 5L,7" = .ok monthEnds ∧
      ∀ d withSeconds host session,
        ∃ b, Call.outcome (Call.accepts monthEnds (.dateTime d) none (some withSeconds)) host
            session = (.ok b, session) ∧
          (b = true ↔ ExpressionAccepts "@Monthly | */20 8-18/5 L feb 5L,7".toList d.wall
            withSeconds) :=
  ⟨rfl, accepts_compile rfl⟩

end Pattern

end CronSchedule
