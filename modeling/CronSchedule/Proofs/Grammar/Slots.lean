import CronSchedule.Proofs.Grammar.Expression

/-!
# What the fields of a compiled pattern accept

Every matcher of a compiled alternative comes from a text of its field, or the field is not
written and not tested.  A text of the grammar writes something: where no `L` has a meaning,
some value of the domain is accepted, on whatever date it is asked for.

* `Field.exists_denotes` — an item without `L` denotes a value of the domain;
* `Field.exists_accepts_of_compile` — so the matcher of a field without `L` accepts one;
* `exists_slots_of_compileAlternative` — an alternative is its layout and the matchers of what is
  written;
* `Pattern.slot_of_compile`, `Pattern.slot_eq_any_of_compile`,
  `Pattern.exists_segment_of_compile` — where the matchers of a pattern, and its alternatives, come
  from;
* `Pattern.exists_value_of_compile` — every alternative of a pattern accepts some value of each
  field without `L`.
-/

namespace CronSchedule

open Text

/-! ### Fields -/

namespace Field

variable {f : Field} {text : List Char}

/-- A field without `L` folds no value onto another. -/
theorem normalize_domain (hlast : f.domain.hasLast = false) (n : Int) :
    f.domain.normalize n = n := by
  cases f with
  | dayOfMonth | dayOfWeek => cases hlast
  | second | minute | hour | month | year => rfl

/-- An item without `L` denotes a value of the domain on every date. -/
theorem exists_denotes (hlast : f.domain.hasLast = false) {i : Item} (h : ItemForm f text i) :
    ∃ n, f.domain.low ≤ n ∧ n ≤ f.domain.high ∧ ∀ w, Denotes f w text n := by
  rcases h.1 with hitem | hitem
  · cases hitem with
    | @base _ first _ hspans =>
      obtain ⟨hlow, hle, hhigh⟩ := hspans.bounds
      refine ⟨first, hlow, Int.le_trans hle hhigh, fun w => ?_⟩
      rw [← normalize_domain hlast first]
      exact .span hspans (Int.le_refl _) hle
    | @step _ _ first _ _ hspans hsteps hpos =>
      obtain ⟨hlow, hle, hhigh⟩ := hspans.bounds
      refine ⟨first, hlow, Int.le_trans hle hhigh, fun w => ?_⟩
      rw [← normalize_domain hlast first]
      refine .step hspans hsteps hpos (Int.le_refl _) hle ?_
      rw [Int.sub_self]
      exact Int.dvd_zero _
  · -- the forms with `L` are those of the day fields
    have hday : f = .dayOfMonth ∨ f = .dayOfWeek := by
      cases hitem with
      | lastDay hf => exact .inl hf
      | saturday hf => exact .inr hf
      | lastWeekday hf => exact .inr hf
    rw [hasLast_domain_iff.mpr hday] at hlast
    cases hlast

/-- The text of a field without `L` accepts a value of the domain on every date. -/
theorem exists_fieldAccepts (hlast : f.domain.hasLast = false) (h : FieldForm f text) :
    ∃ n, f.domain.low ≤ n ∧ n ≤ f.domain.high ∧ ∀ w, f.valueAt w = n → FieldAccepts f w text := by
  rcases h with hstar | hitems
  · refine ⟨f.domain.low, Int.le_refl _, by cases f <;> decide, fun _ _ => .inl hstar⟩
  · obtain ⟨item, hitem⟩ := List.exists_mem_of_ne_nil _ (pieces_ne_nil ',' (strip text))
    obtain ⟨i, -, hform⟩ := hitems item hitem
    obtain ⟨n, hlow, hhigh, hdenotes⟩ := exists_denotes hlast hform
    exact ⟨n, hlow, hhigh, fun w hw => .inr ⟨item, hitem, hw ▸ hdenotes w⟩⟩

/-- The matcher of a field without `L` accepts a value of the domain on every date. -/
theorem exists_accepts_of_compile (hlast : f.domain.hasLast = false) {m : Matcher}
    (h : f.compile text = .ok m) :
    ∃ n, f.domain.low ≤ n ∧ n ≤ f.domain.high ∧
      ∀ w b, f.valueAt w = n → m.accepts (w.reading b) n = some true := by
  obtain ⟨n, hlow, hhigh, haccepts⟩ := exists_fieldAccepts hlast ((f.passes_compile text).sound h)
  refine ⟨n, hlow, hhigh, fun w b hw => ?_⟩
  rw [← hw]
  exact (accepts_compile_iff h w b).mpr (haccepts w hw)

end Field

/-! ### Patterns -/

/-- An alternative that compiles has the matchers of its written fields. -/
theorem exists_slots_of_compileAlternative {expression : String} {index : Nat}
    {segment : List Char} {a : Alternative}
    (h : compileAlternative expression index segment = .ok a) :
    ∃ layout slots, compileFields expression 0
        (layout.fields.zip (words (expandAlias (strip segment)))) = .ok slots ∧
      a = .ofSlots layout fun f => (slots.lookup f).getD .any := by
  unfold compileAlternative at h
  dsimp only at h
  split at h
  · cases h
  · split at h
    · cases h
    · rename_i layout _
      cases hslots : compileFields expression 0
          (layout.fields.zip (words (expandAlias (strip segment)))) with
      | error e =>
        rw [hslots] at h
        cases h
      | ok slots =>
        rw [hslots] at h
        exact ⟨layout, slots, hslots, (Except.ok.inj h).symm⟩

/-- A matcher of a compiled alternative tests nothing, or is compiled from a text. -/
theorem slot_of_compileAlternative {expression : String} {index : Nat} {segment : List Char}
    {a : Alternative} (h : compileAlternative expression index segment = .ok a) (f : Field) :
    a.slot f = .any ∨ ∃ text, f.compile text = .ok (a.slot f) := by
  obtain ⟨layout, slots, hslots, rfl⟩ := exists_slots_of_compileAlternative h
  rw [Alternative.slot_ofSlots]
  rcases lookup_compileFields hslots f with ⟨-, hany⟩ | ⟨text, m, -, hm, hcompile⟩
  · rw [hany]
    exact .inl rfl
  · rw [hm]
    exact .inr ⟨text, hcompile⟩

/-- A field that is not of the layout is not tested. -/
theorem slot_eq_any_of_compileAlternative {expression : String} {index : Nat}
    {segment : List Char} {a : Alternative}
    (h : compileAlternative expression index segment = .ok a) {f : Field}
    (hf : f ∉ a.layout.fields) : a.slot f = .any := by
  obtain ⟨layout, slots, hslots, rfl⟩ := exists_slots_of_compileAlternative h
  rw [Alternative.slot_ofSlots]
  rcases lookup_compileFields hslots f with ⟨-, hany⟩ | ⟨text, m, htext, -, -⟩
  · rw [hany, Option.getD_none]
  · obtain ⟨front, behind, hsplit, -⟩ := List.lookup_eq_some_iff.mp htext
    have hmem : (f, text) ∈ layout.fields.zip (words (expandAlias (strip segment))) := by
      rw [hsplit]
      exact List.mem_append_right _ List.mem_cons_self
    exact absurd (List.of_mem_zip hmem).1 hf

/-- The alternatives of an expression are compiled from its segments. -/
theorem exists_compileAlternative {expression : String} {segments : List (List Char)}
    {a : Alternative} :
    ∀ {index : Nat} {alternatives : List Alternative},
      compileAlternatives expression index segments = .ok alternatives → a ∈ alternatives →
      ∃ i, ∃ segment ∈ segments, compileAlternative expression i segment = .ok a := by
  induction segments with
  | nil =>
    intro index alternatives h ha
    cases h
    cases ha
  | cons segment segments ih =>
    intro index alternatives h ha
    rw [compileAlternatives] at h
    cases hfirst : compileAlternative expression index segment with
    | error e =>
      rw [hfirst] at h
      cases h
    | ok first =>
      cases hrest : compileAlternatives expression (index + 1) segments with
      | error e =>
        rw [hfirst, hrest] at h
        cases h
      | ok rest =>
        rw [hfirst, hrest] at h
        cases h
        rcases List.mem_cons.mp ha with rfl | ha
        · exact ⟨index, segment, List.mem_cons_self, hfirst⟩
        · obtain ⟨i, segment', hmem, hcompiled⟩ := ih hrest ha
          exact ⟨i, segment', List.mem_cons_of_mem _ hmem, hcompiled⟩

namespace Pattern

variable {expression : String} {p : Pattern} {a : Alternative}

/-- Every alternative of a compiled pattern is compiled from a segment. -/
theorem exists_compileAlternative_of_compile (h : compile expression = .ok p)
    (ha : a ∈ p.alternatives) :
    ∃ i segment, compileAlternative expression i segment = .ok a := by
  have hread := (compile_eq_ok_iff.mp h).1
  unfold read at hread
  dsimp only at hread
  split at hread
  · cases hread
  · obtain ⟨i, segment, -, hcompiled⟩ := exists_compileAlternative hread ha
    exact ⟨i, segment, hcompiled⟩

/-- A matcher of a compiled pattern tests nothing, or is compiled from a text of its field. -/
theorem slot_of_compile (h : compile expression = .ok p) (ha : a ∈ p.alternatives) (f : Field) :
    a.slot f = .any ∨ ∃ text, f.compile text = .ok (a.slot f) := by
  obtain ⟨i, segment, hcompiled⟩ := exists_compileAlternative_of_compile h ha
  exact slot_of_compileAlternative hcompiled f

/-- A field that an alternative of a compiled pattern does not name is not tested. -/
theorem slot_eq_any_of_compile (h : compile expression = .ok p) (ha : a ∈ p.alternatives)
    {f : Field} (hf : f ∉ a.layout.fields) : a.slot f = .any := by
  obtain ⟨i, segment, hcompiled⟩ := exists_compileAlternative_of_compile h ha
  exact slot_eq_any_of_compileAlternative hcompiled hf

/-- Every alternative of a compiled pattern tests what some segment writes. -/
theorem exists_segment_of_compile (h : compile expression = .ok p) (ha : a ∈ p.alternatives) :
    ∃ s : Segment, s.Compiled a := by
  obtain ⟨i, segment, hcompiled⟩ := exists_compileAlternative_of_compile h ha
  obtain ⟨s, -, hs⟩ := compiled_of_compileAlternative hcompiled
  exact ⟨s, hs⟩

/-- Of a field without `L` every alternative of a compiled pattern accepts some value, and does so
on every date. -/
theorem exists_value_of_compile (h : compile expression = .ok p) (ha : a ∈ p.alternatives)
    {f : Field} (hlast : f.domain.hasLast = false) :
    ∃ n, f.domain.low ≤ n ∧ n ≤ f.domain.high ∧
      ∀ (w : WallTime) (b : Bool), f.valueAt w = n →
        (a.slot f).accepts (w.reading b) n = some true := by
  rcases slot_of_compile h ha f with hany | ⟨text, hcompile⟩
  · refine ⟨f.domain.low, Int.le_refl _, by cases f <;> decide, fun w b _ => ?_⟩
    rw [hany, Matcher.accepts_any]
  · exact Field.exists_accepts_of_compile hlast hcompile

/-- Every alternative of a compiled pattern accepts some second on every date. -/
theorem exists_second_of_compile (h : compile expression = .ok p) (ha : a ∈ p.alternatives) :
    ∃ n, 0 ≤ n ∧ n ≤ 59 ∧
      ∀ (w : WallTime) (b : Bool), w.second = n →
        a.second.accepts (w.reading b) n = some true :=
  exists_value_of_compile (f := .second) h ha rfl

end Pattern

end CronSchedule
