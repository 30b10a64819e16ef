import CronSchedule.Field.Written
import CronSchedule.Proofs.Text.Letters

/-!
# What values and ranges mean

The meaning of a text is stated without the reader, by how it is put together: a value is a
name of the domain in any case, or a numeral of the domain; a range is a value, a dash and
no smaller value.  A text has one meaning at most, so a reader that succeeds with a meaning
has found the only one.

* `Numeral`, `Writes`, `Spans` — numerals, values, and ranges of values;
* `Writes.bounds`, `Spans.bounds` — what a text means lies in the domain;
* `Writes.unique`, `Spans.unique` — a text has one meaning at most;
* `Field.writes_of_readValue`, `Field.spans_of_readBase` — what a reader returns is a meaning
  of the text;
* `Writes.not_mem_sign`, `Spans.not_mem_slash`, `Spans.not_mem_L` — signs that no value and
  no range has.
-/

namespace CronSchedule

open Text

/-! ### Meanings -/

/-- The text is a run of ASCII digits that denotes the number. -/
def Numeral (text : List Char) (n : Nat) : Prop :=
  text ≠ [] ∧ (∀ c ∈ text, c.isDigit = true) ∧ n = asciiValue text

/-- The text writes a value of the domain: one of its names in any case, or a numeral. -/
inductive Writes (d : Domain) (text : List Char) : Int → Prop
  | name {entry : String × Int} : entry ∈ d.names → upper (strip text) = entry.1.toList →
      Writes d text entry.2
  | numeral {n : Nat} : Numeral (upper (strip text)) n → d.low ≤ n → n ≤ d.high →
      Writes d text n

/-- The text spans the values from the first up to the last: all of the domain, one value or
a range. -/
inductive Spans (d : Domain) : List Char → Int → Int → Prop
  | all : Spans d ['*'] d.low d.high
  | value {text : List Char} {n : Int} : Writes d text n → Spans d text n n
  | range {left right : List Char} {first last : Int} : Writes d left first →
      Writes d right last → first ≤ last → Spans d (left ++ '-' :: right) first last

/-! ### Numerals -/

theorem Numeral.unique {text : List Char} {m n : Nat} (hm : Numeral text m)
    (hn : Numeral text n) : m = n :=
  hm.2.2.trans hn.2.2.symm

theorem Numeral.not_mem_L {text : List Char} {n : Nat} (h : Numeral text n) :
    'L' ∉ upper text := by
  intro hmem
  obtain ⟨c, hc, hl⟩ := mem_upper.mp hmem
  rw [upperChar_of_isDigit (h.2.1 c hc)] at hl
  cases List.mem_singleton.mp hl
  cases h.2.1 'L' hc

theorem isAsciiNumeral_eq_true_iff {text : List Char} :
    isAsciiNumeral text = true ↔ text ≠ [] ∧ ∀ c ∈ text, c.isDigit = true := by
  simp [isAsciiNumeral]

/-- What the reader of numerals returns is the number that the text denotes. -/
theorem numeral_of_asciiNumeral? {text : List Char} {n : Nat} (hdigits : isAsciiNumeral text = true)
    (h : asciiNumeral? text = some n) : Numeral text n := by
  obtain ⟨hne, hall⟩ := isAsciiNumeral_eq_true_iff.mp hdigits
  rw [asciiNumeral?, Option.ite_none_right_eq_some] at h
  exact ⟨hne, hall, (Option.some.inj h.2).symm⟩

/-! ### Values -/

/-- The names of a domain can be told from numerals, signs and the forms with `L`, and from
one another. -/
structure Domain.WellNamed (d : Domain) : Prop where
  ne_nil : ∀ entry ∈ d.names, entry.1.toList ≠ []
  not_digit : ∀ entry ∈ d.names, entry.1.toList.any Char.isDigit = false
  not_sign : ∀ entry ∈ d.names, entry.1.toList.any (['-', '/', '*', ','].contains ·) = false
  not_mem_L : d.hasLast = true → ∀ entry ∈ d.names, 'L' ∉ entry.1.toList
  unique : ∀ entry ∈ d.names, ∀ other ∈ d.names, entry.1.toList = other.1.toList →
    entry.2 = other.2

theorem Field.wellNamed_domain (f : Field) : f.domain.WellNamed := by
  constructor <;> cases f <;> decide

namespace Writes

variable {f : Field} {text : List Char}

/-- A text writes one value at most. -/
theorem unique {m n : Int} (hm : Writes f.domain text m) (hn : Writes f.domain text n) :
    m = n := by
  -- a name has a letter, and a numeral has none
  have hdisjoint : ∀ entry ∈ f.domain.names, ∀ k, upper (strip text) = entry.1.toList →
      ¬ Numeral (upper (strip text)) k := by
    intro entry hentry k hname hnumeral
    obtain ⟨c, hc⟩ := List.exists_mem_of_ne_nil _ hnumeral.1
    exact List.any_eq_false.mp (f.wellNamed_domain.not_digit entry hentry) c (hname ▸ hc)
      (hnumeral.2.1 c hc)
  cases hm with
  | name hentry hname =>
    cases hn with
    | name hother hname' =>
      exact f.wellNamed_domain.unique _ hentry _ hother (hname.symm.trans hname')
    | numeral hnumeral => exact absurd hnumeral (hdisjoint _ hentry _ hname)
  | numeral hnumeral =>
    cases hn with
    | name hother hname => exact absurd hnumeral (hdisjoint _ hother _ hname)
    | numeral hnumeral' => exact congrArg _ (hnumeral.unique hnumeral')

/-- The capitals of a value hold letters and digits only. -/
theorem not_mem_upper {n : Int} (h : Writes f.domain text n) {c : Char}
    (hc : c ∈ ['-', '/', '*', ',']) : c ∉ upper (strip text) := by
  intro hmem
  cases h with
  | name hentry hname =>
    exact List.any_eq_false.mp (f.wellNamed_domain.not_sign _ hentry) c (hname ▸ hmem)
      (List.contains_iff_mem.mpr hc)
  | numeral hnumeral =>
    have hdigit := hnumeral.2.1 c hmem
    simp only [List.mem_cons, List.not_mem_nil, or_false] at hc
    rcases hc with rfl | rfl | rfl | rfl <;> cases hdigit

/-- A value holds none of the signs. -/
theorem not_mem_sign {n : Int} (h : Writes f.domain text n) {c : Char}
    (hc : c ∈ ['-', '/', '*', ',']) : c ∉ text := by
  intro hmem
  refine h.not_mem_upper hc (mem_upper_strip hmem ?_ ?_)
  · simp only [List.mem_cons, List.not_mem_nil, or_false] at hc
    rcases hc with rfl | rfl | rfl | rfl <;> decide
  · simp only [List.mem_cons, List.not_mem_nil, or_false] at hc
    rcases hc with rfl | rfl | rfl | rfl <;> decide

/-- A value of a field with `L` forms has no `L` in its capitals. -/
theorem not_mem_L {n : Int} (hlast : f.domain.hasLast = true) (h : Writes f.domain text n) :
    'L' ∉ upper text := by
  intro hmem
  have hmem := mem_upper_strip_of_mem_upper hmem
  cases h with
  | name hentry hname => exact f.wellNamed_domain.not_mem_L hlast _ hentry (hname ▸ hmem)
  | numeral hnumeral => cases hnumeral.2.1 'L' hmem

/-- So it has none in its letters either. -/
theorem not_mem_capital_L {n : Int} (hlast : f.domain.hasLast = true)
    (h : Writes f.domain text n) : 'L' ∉ text := by
  intro hmem
  refine h.not_mem_L hlast (mem_upper.mpr ⟨'L', hmem, ?_⟩)
  decide

/-- What a text writes is a value of the domain. -/
theorem bounds {n : Int} (h : Writes f.domain text n) : f.domain.low ≤ n ∧ n ≤ f.domain.high := by
  cases h with
  | name hentry =>
    have hnames : ∀ entry ∈ f.domain.names,
        f.domain.low ≤ entry.2 ∧ entry.2 ≤ f.domain.high := by cases f <;> decide
    exact hnames _ hentry
  | numeral _ hlow hhigh => exact ⟨hlow, hhigh⟩

theorem ne_nil {n : Int} (h : Writes f.domain text n) : text ≠ [] := by
  rintro rfl
  cases h with
  | name hentry hname => exact f.wellNamed_domain.ne_nil _ hentry hname.symm
  | numeral hnumeral => exact hnumeral.1 rfl

end Writes

/-- The value that is read is one that the text writes. -/
theorem Field.writes_of_readValue {f : Field} {token : List Char} {n : Int}
    (h : readValue f.domain token = .ok n) : Writes f.domain token n := by
  rw [readValue] at h
  split at h
  · rename_i k hnamed
    obtain rfl := Except.ok.inj h
    obtain ⟨entry, hfind, rfl⟩ := Option.map_eq_some_iff.mp hnamed
    have hname := List.find?_some hfind
    exact .name (List.mem_of_find?_eq_some hfind) (eq_of_beq hname).symm
  · split at h
    · rename_i hdigits
      split at h
      · cases h
      · rename_i k hnumeral
        split at h
        · rename_i hcontains
          obtain rfl := Except.ok.inj h
          simp only [Domain.contains, Bool.and_eq_true, decide_eq_true_eq] at hcontains
          exact .numeral (numeral_of_asciiNumeral? hdigits hnumeral) hcontains.1 hcontains.2
        · cases h
    · cases h

/-! ### Ranges -/

namespace Spans

variable {f : Field} {text : List Char} {first last : Int}

theorem not_mem_slash (h : Spans f.domain text first last) : '/' ∉ text := by
  cases h with
  | all => decide
  | value hvalue => exact hvalue.not_mem_sign (by decide)
  | range hleft hright =>
    simp [hleft.not_mem_sign (show '/' ∈ ['-', '/', '*', ','] by decide),
      hright.not_mem_sign (show '/' ∈ ['-', '/', '*', ','] by decide)]

theorem not_mem_L (hlast : f.domain.hasLast = true) (h : Spans f.domain text first last) :
    'L' ∉ upper text := by
  cases h with
  | all => decide
  | value hvalue => exact hvalue.not_mem_L hlast
  | range hleft hright =>
    have hdash : upperChar '-' = ['-'] := by decide
    rw [upper_append, upper_cons, hdash]
    simp [hleft.not_mem_L hlast, hright.not_mem_L hlast]

/-- What a text spans are values of the domain, and one at least. -/
theorem bounds (h : Spans f.domain text first last) :
    f.domain.low ≤ first ∧ first ≤ last ∧ last ≤ f.domain.high := by
  cases h with
  | all => exact ⟨Int.le_refl _, by cases f <;> decide, Int.le_refl _⟩
  | value hvalue => exact ⟨hvalue.bounds.1, Int.le_refl _, hvalue.bounds.2⟩
  | range hleft hright hle => exact ⟨hleft.bounds.1, hle, hright.bounds.2⟩

/-- A text spans one range at most. -/
theorem unique {first' last' : Int} (h : Spans f.domain text first last)
    (h' : Spans f.domain text first' last') : first = first' ∧ last = last' := by
  have hdash : '-' ∈ ['-', '/', '*', ','] := by decide
  have hstar : '*' ∈ ['-', '/', '*', ','] := by decide
  cases h with
  | all =>
    generalize htext : ['*'] = text at h'
    cases h' with
    | all => exact ⟨rfl, rfl⟩
    | value hvalue => exact absurd (htext ▸ List.mem_singleton_self '*') (hvalue.not_mem_sign hstar)
    | range =>
      have hmem : '-' ∈ ['*'] := by
        rw [htext]
        exact List.mem_append_right _ List.mem_cons_self
      simp at hmem
  | value hvalue =>
    cases h' with
    | all => exact absurd (List.mem_singleton_self '*') (hvalue.not_mem_sign hstar)
    | value hvalue' => exact ⟨hvalue.unique hvalue', hvalue.unique hvalue'⟩
    | range => exact absurd (List.mem_append_right _ List.mem_cons_self) (hvalue.not_mem_sign hdash)
  | range hleft hright =>
    generalize htext : _ ++ '-' :: _ = text at h'
    cases h' with
    | all =>
      have : '-' ∈ ['*'] := htext ▸ List.mem_append_right _ List.mem_cons_self
      simp at this
    | value hvalue =>
      exact absurd (htext ▸ List.mem_append_right _ List.mem_cons_self) (hvalue.not_mem_sign hdash)
    | range hleft' hright' =>
      obtain ⟨rfl, rfl⟩ :=
        append_sep_inj (hleft.not_mem_sign hdash) (hleft'.not_mem_sign hdash) htext
      exact ⟨hleft.unique hleft', hright.unique hright'⟩

end Spans

theorem Field.spans_of_readRange {f : Field} {text : List Char} {first last : Int}
    (h : readRange f.domain text = .ok (first, last)) : Spans f.domain text first last := by
  rw [readRange] at h
  split at h
  · rename_i left right hpieces
    obtain rfl : left ++ '-' :: right = text := by
      rw [← join_pieces '-' text, hpieces]
      simp [List.intercalate]
    cases hleft : readValue f.domain left with
    | error fault =>
      rw [hleft] at h
      cases h
    | ok m =>
      cases hright : readValue f.domain right with
      | error fault =>
        rw [hleft, hright] at h
        cases h
      | ok n =>
        rw [hleft, hright] at h
        change (if n < m then _ else _) = _ at h
        split at h
        · cases h
        · rename_i hle
          obtain ⟨rfl, rfl⟩ := Prod.mk.inj (Except.ok.inj h)
          exact .range (writes_of_readValue hleft) (writes_of_readValue hright)
            (Int.not_lt.mp hle)
  · cases h

/-- The range that is read is one that the text spans. -/
theorem Field.spans_of_readBase {f : Field} {base : List Char} {first last : Int}
    (h : readBase f.domain base = .ok (first, last)) : Spans f.domain base first last := by
  rw [readBase] at h
  split at h
  · rename_i hall
    obtain ⟨rfl, rfl⟩ := Prod.mk.inj (Except.ok.inj h)
    exact hall ▸ .all
  · split at h
    · exact spans_of_readRange h
    · cases hvalue : readValue f.domain base with
      | error fault =>
        rw [hvalue] at h
        cases h
      | ok n =>
        rw [hvalue] at h
        obtain ⟨rfl, rfl⟩ := Prod.mk.inj (Except.ok.inj h)
        exact .value (writes_of_readValue hvalue)

end CronSchedule
