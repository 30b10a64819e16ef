import CronSchedule.Proofs.Text.Words

/-!
# Texts in capitals

Putting the letters of ASCII in capitals changes nothing that a text is cut or trimmed by, no
sign and no digit, and it is lost where a text is put in upper or lower case anyway.

* `capitals` — a text with the letters of ASCII in capitals;
* `toUpper_rec` — what holds where a character stays, and of the small letters and their
  capitals, holds of every character and its capital;
* `strip_capitals`, `words_capitals`, `pieces_capitals`, `before_capitals`, `after_capitals` — a
  text in capitals is cut as it is otherwise;
* `upper_capitals`, `lower_capitals` — and it has the same upper and lower case.
-/

namespace CronSchedule.Text

/-- A text with the letters of ASCII in capitals. -/
def capitals (s : List Char) : List Char := s.map Char.toUpper

@[simp] theorem capitals_nil : capitals [] = [] := rfl

@[simp] theorem capitals_cons (c : Char) (s : List Char) :
    capitals (c :: s) = c.toUpper :: capitals s := rfl

@[simp] theorem capitals_append (s t : List Char) :
    capitals (s ++ t) = capitals s ++ capitals t := List.map_append

@[simp] theorem capitals_eq_nil_iff {s : List Char} : capitals s = [] ↔ s = [] :=
  List.map_eq_nil_iff

@[simp] theorem isEmpty_capitals (s : List Char) : (capitals s).isEmpty = s.isEmpty :=
  List.isEmpty_map

/-! ### Characters -/

/-- What holds of characters that stay, and of the small letters and their capitals, holds of
every character and its capital. -/
theorem toUpper_rec {P : Char → Char → Prop} (hsame : ∀ c, P c c)
    (hsmall : ∀ n ∈ List.range' 97 26, P (Char.ofNat n) (Char.ofNat n).toUpper) (c : Char) :
    P c c.toUpper := by
  by_cases h : 97 ≤ c.toNat ∧ c.toNat ≤ 122
  · have hletter := hsmall c.toNat (List.mem_range'_1.mpr ⟨h.1, by omega⟩)
    rwa [Char.ofNat_toNat] at hletter
  · have hstays : c.toUpper = c := dif_neg h
    rw [hstays]
    exact hsame c

theorem toUpper_toUpper (c : Char) : c.toUpper.toUpper = c.toUpper :=
  toUpper_rec (P := fun c d => d.toUpper = c.toUpper) (fun _ => rfl) (by decide) c

@[simp] theorem isBlank_toUpper (c : Char) : isBlank c.toUpper = isBlank c :=
  toUpper_rec (P := fun c d => isBlank d = isBlank c) (fun _ => rfl) (by decide) c

@[simp] theorem isDigit_toUpper (c : Char) : c.toUpper.isDigit = c.isDigit :=
  toUpper_rec (P := fun c d => d.isDigit = c.isDigit) (fun _ => rfl) (by decide) c

theorem toUpper_of_isDigit {c : Char} (h : c.isDigit = true) : c.toUpper = c :=
  forall_isDigit (P := fun c => c.toUpper = c) (by decide) h

@[simp] theorem upperChar_toUpper (c : Char) : upperChar c.toUpper = upperChar c :=
  toUpper_rec (P := fun c d => upperChar d = upperChar c) (fun _ => rfl) (by decide) c

@[simp] theorem lowerChar_toUpper (c : Char) : lowerChar c.toUpper = lowerChar c :=
  toUpper_rec (P := fun c d => lowerChar d = lowerChar c) (fun _ => rfl) (by decide) c

/-- The signs of an expression. -/
def signs : List Char := ['*', '?', '/', '-', ',', '|']

/-- A sign is the capital of nothing else. -/
theorem toUpper_eq_iff {sign : Char} (hsign : sign ∈ signs) {c : Char} :
    c.toUpper = sign ↔ c = sign := by
  refine toUpper_rec (P := fun c d => d = sign ↔ c = sign) (fun _ => .rfl) ?_ c
  simp only [signs, List.mem_cons, List.not_mem_nil, or_false] at hsign
  rcases hsign with rfl | rfl | rfl | rfl | rfl | rfl <;> decide

/-! ### Cutting and trimming -/

variable {sep : Char} {s : List Char}

theorem toUpper_bne (hsep : sep ∈ signs) :
    ((fun c : Char => c != sep) ∘ Char.toUpper) = fun c => c != sep := by
  funext c
  rw [Function.comp_apply, Bool.eq_iff_iff]
  simp [toUpper_eq_iff hsep]

theorem strip_capitals (s : List Char) : strip (capitals s) = capitals (strip s) := by
  have hblank : (isBlank ∘ Char.toUpper) = isBlank := funext isBlank_toUpper
  simp only [strip, stripEnd, stripStart, capitals, List.dropWhile_map, ← List.map_reverse, hblank]

theorem mem_capitals (hsep : sep ∈ signs) : sep ∈ capitals s ↔ sep ∈ s := by
  simp [capitals, toUpper_eq_iff hsep]

theorem capitals_eq_singleton (hsep : sep ∈ signs) : capitals s = [sep] ↔ s = [sep] := by
  cases s with
  | nil => simp
  | cons c s => simp [toUpper_eq_iff hsep]

theorem before_capitals (hsep : sep ∈ signs) (s : List Char) :
    before sep (capitals s) = capitals (before sep s) := by
  rw [before, before, capitals, List.takeWhile_map, toUpper_bne hsep]
  rfl

theorem after_capitals (hsep : sep ∈ signs) (s : List Char) :
    after sep (capitals s) = capitals (after sep s) := by
  rw [after, after, capitals, List.dropWhile_map, toUpper_bne hsep, ← List.map_drop]
  rfl

theorem pieces_capitals (hsep : sep ∈ signs) (s : List Char) :
    pieces sep (capitals s) = (pieces sep s).map capitals := by
  induction s with
  | nil => rfl
  | cons c s ih =>
    rw [capitals_cons]
    by_cases hc : c = sep
    · rw [(toUpper_eq_iff hsep).mpr hc, hc, pieces_sep, pieces_sep, ih]
      rfl
    · have hcapital : c.toUpper ≠ sep := mt (toUpper_eq_iff hsep).mp hc
      obtain ⟨p, ps, hp, hcons⟩ := pieces_cons_of_ne hc s
      obtain ⟨q, qs, hq, hcons'⟩ := pieces_cons_of_ne hcapital (capitals s)
      rw [ih, hp] at hq
      obtain ⟨rfl, rfl⟩ := List.cons.inj hq
      rw [hcons, hcons']
      rfl

theorem words_capitals (s : List Char) : words (capitals s) = (words s).map capitals := by
  induction s with
  | nil => rfl
  | cons c s ih =>
    rw [capitals_cons]
    cases hc : isBlank c with
    | true => rw [words_blank hc, words_blank (by rwa [isBlank_toUpper]), ih]
    | false =>
      have hcapital : isBlank c.toUpper = false := by rwa [isBlank_toUpper]
      cases s with
      | nil =>
        rw [words_cons_of_isBlank_head hc (by simp), capitals_nil,
          words_cons_of_isBlank_head hcapital (by simp)]
        rfl
      | cons d s =>
        cases hd : isBlank d with
        | true =>
          rw [words_cons_of_isBlank_head hc (by simpa using hd),
            words_cons_of_isBlank_head hcapital (by simpa using hd), ih]
          rfl
        | false =>
          obtain ⟨w, ws, hwords, hcons⟩ := exists_words_cons_cons hc hd s
          obtain ⟨v, vs, hwords', hcons'⟩ :=
            exists_words_cons_cons hcapital (b := d.toUpper) (by rwa [isBlank_toUpper]) (capitals s)
          rw [← capitals_cons, ih, hwords] at hwords'
          obtain ⟨rfl, rfl⟩ := List.cons.inj hwords'
          rw [hcons, capitals_cons, hcons']
          rfl

/-! ### Upper and lower case -/

@[simp] theorem upper_capitals (s : List Char) : upper (capitals s) = upper s := by
  simp [upper, capitals, List.flatMap_map]

@[simp] theorem lower_capitals (s : List Char) : lower (capitals s) = lower s := by
  simp [lower, capitals, Function.comp_def]

/-- A blank is its own lower case. -/
theorem lowerChar_of_isBlank {c : Char} (h : isBlank c = true) : lowerChar c = c := by
  have hall : ∀ r ∈ blanks, ∀ n ∈ List.range' r.1 (r.2 + 1 - r.1),
      lowerChar (Char.ofNat n) = Char.ofNat n := by decide
  obtain ⟨r, hr, hle, hge⟩ := CodeRanges.has_eq_true_iff.mp h
  have := hall r hr c.toNat (List.mem_range'_1.mpr ⟨hle, by omega⟩)
  rwa [Char.ofNat_toNat] at this

/-- Digits have no capitals. -/
theorem capitals_of_isAsciiNumeral (h : isAsciiNumeral s = true) : capitals s = s := by
  simp only [isAsciiNumeral, Bool.and_eq_true, List.all_eq_true] at h
  exact (List.map_congr_left fun c hc => toUpper_of_isDigit (h.2 c hc)).trans (List.map_id _)

@[simp] theorem isAsciiNumeral_capitals (s : List Char) :
    isAsciiNumeral (capitals s) = isAsciiNumeral s := by
  simp [isAsciiNumeral, capitals, Function.comp_def]

end CronSchedule.Text
