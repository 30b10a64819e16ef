import CronSchedule.Proofs.Grammar.Slots

/-!
# The normal form of compiled fields

A field compiles to few kinds of matchers.  It tests nothing, tests for the members of one set, or
for one end of the month; and in the two day fields it may unite several of these, of which all but
the last are ends of the month.  A union is never inside another, and has no member that tests
nothing.

What is load-bearing is that no item comes to nothing.  What an item spans begins with a value of
the domain, whatever the step is, and a value that is folded is folded onto another of the domain.
So the set of a list is empty only where every item is a form with `L`, and these keep matchers of
their own.

* `Field.IsMatched`, `ValueSet.IsOf`, `Matcher.IsLast` — the values, sets and ends of the month that
  a field may be matched against;
* `Matcher.IsNormal` — the normal form;
* `Item.matched_of_mem_values`, `Item.values_ne_nil`, `Item.isLast_of_matcher?` — what an item of
  the grammar compiles to;
* `Written.isNormal_matcher` — what a list of them compiles to;
* `Field.isNormal_of_compile` — fields, `Pattern.isNormal_slot` — the matchers of a pattern;
* `Pattern.compile_normal` — both, with what follows for the second.
-/

namespace CronSchedule

open Text

/-! ### Normal forms -/

/-- The greatest value that is matched in a field.  Sunday is matched as 0, so there is no 7. -/
def Field.greatest : Field → Int
  | .dayOfWeek => 6
  | f => f.domain.high

/-- The value is one that the field is matched against. -/
def Field.IsMatched (f : Field) (v : Int) : Prop := f.domain.low ≤ v ∧ v ≤ f.greatest

/-- A set of values that the field is matched against, and not the empty one. -/
structure ValueSet.IsOf (f : Field) (set : ValueSet) : Prop where
  ne_nil : set.values ≠ []
  matched : ∀ v ∈ set.values, f.IsMatched v

namespace Matcher

/-- The ends of the month that a field may be matched against. -/
inductive IsLast : Field → Matcher → Prop
  | lastDay : IsLast .dayOfMonth lastDay
  | lastWeekday {weekday : Int} : 0 ≤ weekday → weekday ≤ 6 →
      IsLast .dayOfWeek (lastWeekday weekday)

/-- The matchers of a list: ends of the month, and behind them one set at most. -/
def united (lasts : List Matcher) (set? : Option ValueSet) : List Matcher :=
  lasts ++ set?.toList.map values

/-- The normal form of the matchers of a field. -/
inductive IsNormal (f : Field) : Matcher → Prop
  | any : IsNormal f any
  | values {set : ValueSet} : set.IsOf f → IsNormal f (values set)
  | last {m : Matcher} : m.IsLast f → IsNormal f m
  | union {lasts : List Matcher} {set? : Option ValueSet} : f = .dayOfMonth ∨ f = .dayOfWeek →
      (∀ m ∈ lasts, m.IsLast f) → (∀ set ∈ set?, set.IsOf f) → 2 ≤ (united lasts set?).length →
      IsNormal f (anyOf (united lasts set?))

theorem IsLast.day {f : Field} {m : Matcher} (h : m.IsLast f) :
    f = .dayOfMonth ∨ f = .dayOfWeek := by
  cases h with
  | lastDay => exact .inl rfl
  | lastWeekday => exact .inr rfl

/-- A matcher in normal form tests nothing, or for the members of a set, in a field that is none of
the two day fields. -/
theorem IsNormal.cases_of_no_last {f : Field} {m : Matcher} (h : m.IsNormal f)
    (hmonth : f ≠ .dayOfMonth) (hweek : f ≠ .dayOfWeek) :
    m = .any ∨ ∃ set : ValueSet, m = .values set ∧ set.IsOf f := by
  have hday : ¬ (f = .dayOfMonth ∨ f = .dayOfWeek) := by
    rintro (rfl | rfl)
    · exact hmonth rfl
    · exact hweek rfl
  cases h with
  | any => exact .inl rfl
  | values hset => exact .inr ⟨_, rfl, hset⟩
  | last hlast => exact absurd hlast.day hday
  | union hunion => exact absurd hunion hday

/-- Of several matchers of a list one is an end of the month. -/
theorem day_of_united {f : Field} {lasts : List Matcher} {set? : Option ValueSet}
    (hlasts : ∀ m ∈ lasts, m.IsLast f) (hlength : 2 ≤ (united lasts set?).length) :
    f = .dayOfMonth ∨ f = .dayOfWeek := by
  cases lasts with
  | nil =>
    have hone : (united [] set?).length ≤ 1 := by cases set? <;> simp [united]
    omega
  | cons m lasts => exact (hlasts m List.mem_cons_self).day

end Matcher

/-! ### Items -/

/-- Folding leads to a value that is matched. -/
theorem Field.isMatched_normalize {f : Field} {n : Int} (hlow : f.domain.low ≤ n)
    (hhigh : n ≤ f.domain.high) : f.IsMatched (f.domain.normalize n) := by
  cases f with
  | dayOfWeek =>
    show 0 ≤ (if n = 7 then (0 : Int) else n) ∧ (if n = 7 then (0 : Int) else n) ≤ 6
    have hlow : 0 ≤ n := hlow
    have hhigh : n ≤ 7 := hhigh
    split <;> omega
  | second | minute | hour | dayOfMonth | month | year => exact ⟨hlow, hhigh⟩

namespace Item

variable {f : Field} {text : List Char} {i : Item}

/-- What an item of the grammar spans are values of the domain, and one at least, at a positive
step. -/
theorem bounds_of_itemForm {first last step : Int} (h : ItemForm f text (.span first last step)) :
    f.domain.low ≤ first ∧ first ≤ last ∧ last ≤ f.domain.high ∧ 0 < step := by
  rcases h.1 with hitem | hitem
  · cases hitem with
    | base hspans => exact ⟨hspans.bounds.1, hspans.bounds.2.1, hspans.bounds.2.2, Int.one_pos⟩
    | step hspans _ hpos => exact ⟨hspans.bounds.1, hspans.bounds.2.1, hspans.bounds.2.2, by omega⟩
  · cases hitem with
    | saturday hf =>
      subst hf
      decide

/-- The values of an item are values that the field is matched against. -/
theorem matched_of_mem_values (h : ItemForm f text i) {v : Int} (hv : v ∈ i.values f.domain) :
    f.IsMatched v := by
  cases i with
  | span first last step =>
    obtain ⟨hlow, -, hhigh, hstep⟩ := bounds_of_itemForm h
    obtain ⟨n, hn, rfl⟩ := List.mem_map.mp hv
    obtain ⟨hge, hle, -⟩ := (mem_spanValues hstep).mp hn
    exact Field.isMatched_normalize (by omega) (by omega)
  | lastDay => cases hv
  | lastWeekday weekday => cases hv

/-- An item without a matcher of its own has values: at least the first that it spans. -/
theorem values_ne_nil (h : ItemForm f text i) (hplain : i.matcher? = none) :
    i.values f.domain ≠ [] := by
  cases i with
  | span first last step =>
    obtain ⟨-, hle, -, hstep⟩ := bounds_of_itemForm h
    have hfirst : first ∈ spanValues first last step :=
      (mem_spanValues hstep).mpr ⟨Int.le_refl _, hle, by rw [Int.sub_self]; exact Int.dvd_zero _⟩
    exact List.ne_nil_of_mem (List.mem_map_of_mem hfirst)
  | lastDay => cases hplain
  | lastWeekday weekday => cases hplain

/-- The matcher that an item keeps is an end of the month. -/
theorem isLast_of_matcher? (h : ItemForm f text i) {m : Matcher} (hm : i.matcher? = some m) :
    m.IsLast f := by
  cases i with
  | span first last step => cases hm
  | lastDay =>
    obtain rfl := Option.some.inj hm
    rcases h.1 with hitem | hitem
    · cases hitem
    · cases hitem with
      | lastDay hf =>
        subst hf
        exact .lastDay
  | lastWeekday weekday =>
    obtain rfl := Option.some.inj hm
    rcases h.1 with hitem | hitem
    · cases hitem
    · cases hitem with
      | lastWeekday hf _ _ hwrites =>
        subst hf
        obtain ⟨hlow, hhigh⟩ := Field.isMatched_normalize hwrites.bounds.1 hwrites.bounds.2
        exact .lastWeekday hlow hhigh

end Item

/-! ### Lists -/

namespace Written

variable {f : Field} {items : List Item}

/-- The set of a list, where it has values. -/
def valueSet? (d : Domain) (items : List Item) : Option ValueSet :=
  if (items.flatMap (Item.values d)).isEmpty then none
  else some (ValueSet.ofList (items.flatMap (Item.values d)))

theorem members_eq (d : Domain) (items : List Item) :
    members d items = Matcher.united (items.filterMap Item.matcher?) (valueSet? d items) := by
  unfold members Matcher.united valueSet?
  dsimp only
  split <;> rfl

/-- The set of a list of items of the grammar has values of the field, and none else. -/
theorem isOf_of_valueSet? (hitems : ∀ i ∈ items, ∃ text, ItemForm f text i) {set : ValueSet}
    (h : valueSet? f.domain items = some set) : set.IsOf f := by
  unfold valueSet? at h
  split at h
  · cases h
  · next hne =>
    obtain rfl := Option.some.inj h
    constructor
    · rw [List.isEmpty_iff] at hne
      obtain ⟨v, hv⟩ := List.exists_mem_of_ne_nil _ hne
      exact List.ne_nil_of_mem (ValueSet.mem_ofList.mpr hv)
    · intro v hv
      obtain ⟨i, hi, hmem⟩ := List.mem_flatMap.mp (ValueSet.mem_ofList.mp hv)
      obtain ⟨text, hform⟩ := hitems i hi
      exact Item.matched_of_mem_values hform hmem

/-- A list of items of the grammar has matchers: its first item keeps one, or has values. -/
theorem members_ne_nil (hne : items ≠ []) (hitems : ∀ i ∈ items, ∃ text, ItemForm f text i) :
    members f.domain items ≠ [] := by
  obtain ⟨i, hi⟩ := List.exists_mem_of_ne_nil _ hne
  obtain ⟨text, hform⟩ := hitems i hi
  cases hmatcher : i.matcher? with
  | some m =>
    have hmem : m ∈ items.filterMap Item.matcher? := List.mem_filterMap.mpr ⟨i, hi, hmatcher⟩
    exact List.ne_nil_of_mem (List.mem_append_left _ hmem)
  | none =>
    obtain ⟨v, hv⟩ := List.exists_mem_of_ne_nil _ (Item.values_ne_nil hform hmatcher)
    have hvalues : items.flatMap (Item.values f.domain) ≠ [] :=
      List.ne_nil_of_mem (List.mem_flatMap.mpr ⟨i, hi, hv⟩)
    have hset :
        valueSet? f.domain items = some (.ofList (items.flatMap (Item.values f.domain))) := by
      rw [valueSet?, if_neg (by rwa [List.isEmpty_iff])]
    rw [members_eq, hset]
    exact List.append_ne_nil_of_right_ne_nil _ (List.cons_ne_nil _ _)

/-- A list of items of the grammar compiles to a matcher in normal form. -/
theorem isNormal_matcher (hne : items ≠ []) (hitems : ∀ i ∈ items, ∃ text, ItemForm f text i) :
    (matcher f.domain (.list items)).IsNormal f := by
  have hlasts : ∀ m ∈ items.filterMap Item.matcher?, m.IsLast f := by
    intro m hm
    obtain ⟨i, hi, hmatcher⟩ := List.mem_filterMap.mp hm
    obtain ⟨text, hform⟩ := hitems i hi
    exact Item.isLast_of_matcher? hform hmatcher
  have hset : ∀ set ∈ valueSet? f.domain items, set.IsOf f := fun _ => isOf_of_valueSet? hitems
  have hmembers := members_eq f.domain items
  have hnonempty := members_ne_nil hne hitems
  unfold matcher
  dsimp only
  split
  · next m hone =>
    -- the only member is an end of the month, or the set
    have hmem : m ∈ Matcher.united (items.filterMap Item.matcher?) (valueSet? f.domain items) := by
      rw [← hmembers, hone]
      exact List.mem_singleton_self m
    rcases List.mem_append.mp hmem with hm | hm
    · exact .last (hlasts m hm)
    · obtain ⟨set, hmemset, rfl⟩ := List.mem_map.mp hm
      exact .values (hset set (Option.mem_toList.mp hmemset))
  · next hmany =>
    have hlength : 2 ≤ (members f.domain items).length := by
      match hlist : members f.domain items with
      | [] => exact absurd hlist hnonempty
      | [m] => exact absurd hlist (hmany m)
      | _ :: _ :: _ => simp
    rw [hmembers] at hlength ⊢
    exact .union (Matcher.day_of_united hlasts hlength) hlasts hset hlength

end Written

/-! ### Fields -/

/-- Of two lists that correspond, each member of the second has a counterpart in the first. -/
theorem exists_counterpart {α β : Type} {R : α → β → Prop} {xs : List α} {ys : List β}
    (h : List.Forall₂ R xs ys) {y : β} (hy : y ∈ ys) : ∃ x ∈ xs, R x y := by
  induction h with
  | nil => cases hy
  | cons hhead _ ih =>
    rcases List.mem_cons.mp hy with rfl | hy
    · exact ⟨_, List.mem_cons_self, hhead⟩
    · obtain ⟨x, hx, hxy⟩ := ih hy
      exact ⟨x, List.mem_cons_of_mem _ hx, hxy⟩

/-- What a field compiles to is in normal form. -/
theorem Field.isNormal_of_compile {f : Field} {text : List Char} {m : Matcher}
    (h : f.compile text = .ok m) : m.IsNormal f := by
  rcases compile_cases h with ⟨-, rfl⟩ | ⟨-, items, hread, rfl⟩
  · exact .any
  · have hforms := (Reads.mapM (reads_readItem f (strip text)) _).sound hread
    have hne : items ≠ [] := by
      rintro rfl
      exact pieces_ne_nil ',' (strip text) (List.forall₂_nil_right_iff.mp hforms)
    refine Written.isNormal_matcher hne fun i hi => ?_
    obtain ⟨item, -, hform⟩ := exists_counterpart hforms hi
    exact ⟨strip item, hform.2⟩

/-- A field tests nothing exactly when its text restricts nothing. -/
theorem Field.compile_eq_any_iff {f : Field} {text : List Char} {m : Matcher}
    (h : f.compile text = .ok m) : m = .any ↔ Unrestricted text := by
  rw [← isAny_compile_iff h]
  constructor
  · rintro rfl
    rfl
  · intro hany
    cases m with
    | any => rfl
    | _ => cases hany

/-! ### Patterns -/

namespace Pattern

variable {expression : String} {p : Pattern} {a : Alternative}

/-- The matchers of a compiled pattern are in normal form. -/
theorem isNormal_slot (h : compile expression = .ok p) (ha : a ∈ p.alternatives) (f : Field) :
    (a.slot f).IsNormal f := by
  rcases slot_of_compile h ha f with hany | ⟨text, hcompile⟩
  · exact hany ▸ .any
  · exact Field.isNormal_of_compile hcompile

/-- Every field compiles to a matcher in normal form, which tests nothing exactly when the text
restricts nothing.  So do all fields of an expression; what is not written is not tested, and the
second is not tested or is one of a set that has members and holds none but 0 to 59. -/
theorem compile_normal :
    (∀ (f : Field) (text : List Char) (m : Matcher), f.compile text = .ok m →
      m.IsNormal f ∧ (m = .any ↔ Unrestricted text)) ∧
    ∀ (expression : String) (p : Pattern), compile expression = .ok p → ∀ a ∈ p.alternatives,
      (∀ f, (a.slot f).IsNormal f) ∧ (∀ f, f ∉ a.layout.fields → a.slot f = .any) ∧
      (a.second = .any ∨ ∃ set : ValueSet, a.second = .values set ∧ set.values ≠ [] ∧
        ∀ v ∈ set.values, 0 ≤ v ∧ v ≤ 59) := by
  refine ⟨fun f text m h => ⟨Field.isNormal_of_compile h, Field.compile_eq_any_iff h⟩, ?_⟩
  intro expression p h a ha
  refine ⟨isNormal_slot h ha, fun f => slot_eq_any_of_compile h ha, ?_⟩
  rcases (isNormal_slot h ha .second).cases_of_no_last (by decide) (by decide) with
    hany | ⟨set, hvalues, hset⟩
  · exact .inl hany
  · exact .inr ⟨set, hvalues, hset.ne_nil, hset.matched⟩

/-- Three times a minute on the last days of the month, on weekends and on its last Friday. -/
def lateInMonth : Alternative where
  layout := .withSeconds
  second := .values ⟨[0, 20, 40], by decide⟩
  minute := .values ⟨[30], by decide⟩
  hour := .values ⟨[9], by decide⟩
  dayOfMonth := .anyOf [.lastDay, .values ⟨[29, 30], by decide⟩]
  dayOfWeek := .anyOf [.lastWeekday 5, .lastWeekday 0, .values ⟨[0, 6], by decide⟩]

/-- In the day of the week a 7 is matched as 0, and the set stands behind the forms with `L`. -/
theorem compile_normal_lateInMonth :
    Field.compile .dayOfWeek " 5L,6-7 , l7 ".toList = .ok lateInMonth.dayOfWeek ∧
      lateInMonth.dayOfWeek.IsNormal .dayOfWeek ∧
      compile "*/20 30 9 l,29-30 ? 5L,6-7,l7" =
        .ok ⟨"*/20 30 9 l,29-30 ? 5L,6-7,l7", [lateInMonth]⟩ ∧
      (∀ f, (lateInMonth.slot f).IsNormal f) ∧ lateInMonth.year = .any := by
  have hweek : Field.compile .dayOfWeek " 5L,6-7 , l7 ".toList = .ok lateInMonth.dayOfWeek := rfl
  have hcompile : compile "*/20 30 9 l,29-30 ? 5L,6-7,l7" =
      .ok ⟨"*/20 30 9 l,29-30 ? 5L,6-7,l7", [lateInMonth]⟩ := rfl
  obtain ⟨hnormal, hslots, -⟩ := compile_normal.2 _ _ hcompile _ (List.mem_singleton_self _)
  exact ⟨hweek, (compile_normal.1 _ _ _ hweek).1, hcompile, hnormal, hslots .year (by decide)⟩

end Pattern

end CronSchedule
