import CronSchedule.Proofs.Text.Letters
import CronSchedule.Text.Numeral

/-!
# Runs of digits

A numeral is read from a part of a text: the text is cut, trimmed and put in capitals before.
None of this makes a run of digits that the text does not have, since the capitals of a
character hold a digit only if the character is that digit.

* `Overlong`, `ShortNumerals` — a run of digits that is too long to be read, and a text
  without one;
* `infix_of_infix_upper` — a run of digits in the capitals of a text is one in the text;
* `infix_of_mem_pieces`, `infix_of_mem_words`, `strip_isInfix` — and so is one in a part of
  the text;
* `upper_strip_of_isDigit`, `words_append_blank` — a run of digits by itself stays whole.
-/

namespace CronSchedule.Text

/-- A run of ASCII digits that is too long to be read. -/
def Overlong (run : List Char) : Prop :=
  (∀ c ∈ run, c.isDigit = true) ∧ numeralLimit < run.length

/-- No numeral in the text is too long to be read. -/
def ShortNumerals (text : List Char) : Prop := ∀ run, run <:+: text → ¬ Overlong run

theorem Overlong.ne_nil {run : List Char} (h : Overlong run) : run ≠ [] := by
  rintro rfl
  exact Nat.not_lt_zero _ h.2

theorem ShortNumerals.of_infix {part text : List Char} (h : ShortNumerals text)
    (hpart : part <:+: text) : ShortNumerals part :=
  fun run hrun => h run (hrun.trans hpart)

/-- A text that is no longer than a numeral may be has short numerals. -/
theorem ShortNumerals.of_length_le {text : List Char} (h : text.length ≤ numeralLimit) :
    ShortNumerals text := fun _ hrun hlong =>
  Nat.not_lt.mpr (Nat.le_trans hrun.length_le h) hlong.2

/-! ### Parts -/

theorem strip_isInfix (s : List Char) : strip s <:+: s := by
  have hend : stripEnd (stripStart s) <+: stripStart s := by
    rw [← List.reverse_suffix, stripEnd, List.reverse_reverse]
    exact List.dropWhile_suffix _
  exact hend.isInfix.trans (List.dropWhile_suffix _).isInfix

theorem infix_of_mem_pieces {sep : Char} {s p : List Char} (hp : p ∈ pieces sep s) : p <:+: s := by
  -- the first part begins the text, and the others are parts of what is behind it
  have hcut : ∀ s : List Char, ∃ first rest, pieces sep s = first :: rest ∧ first <+: s ∧
      ∀ q ∈ rest, q <:+: s := by
    intro s
    induction s with
    | nil => exact ⟨[], [], rfl, List.prefix_rfl, fun q hq => by cases hq⟩
    | cons c s ih =>
      obtain ⟨first, rest, hpieces, hfirst, hrest⟩ := ih
      by_cases hc : c = sep
      · subst hc
        refine ⟨[], first :: rest, by rw [pieces_sep, hpieces], List.nil_prefix, fun q hq => ?_⟩
        rcases List.mem_cons.mp hq with rfl | hq
        · exact List.infix_cons hfirst.isInfix
        · exact List.infix_cons (hrest q hq)
      · obtain ⟨p, ps, hp, hcons⟩ := pieces_cons_of_ne hc s
        rw [hpieces] at hp
        obtain ⟨rfl, rfl⟩ := List.cons.inj hp
        exact ⟨c :: first, rest, hcons, List.cons_prefix_cons.mpr ⟨rfl, hfirst⟩,
          fun q hq => List.infix_cons (hrest q hq)⟩
  obtain ⟨first, rest, hpieces, hfirst, hrest⟩ := hcut s
  rw [hpieces] at hp
  rcases List.mem_cons.mp hp with rfl | hp
  · exact hfirst.isInfix
  · exact hrest p hp

/-- A text that begins with no blank begins with its first word, and the other words are those
of the rest. -/
theorem exists_words_cons {c : Char} (hc : isBlank c = false) (s : List Char) :
    ∃ w ws, words (c :: s) = w :: ws ∧ w <+: c :: s ∧ ∀ v ∈ ws, v ∈ words s := by
  have hone : [c] <+: c :: s := List.cons_prefix_cons.mpr ⟨rfl, List.nil_prefix⟩
  induction s generalizing c with
  | nil =>
    refine ⟨[c], [], ?_, hone, fun v hv => hv⟩
    rw [words.eq_def]
    simp [hc]
  | cons d s ih =>
    cases hd : isBlank d with
    | true =>
      refine ⟨[c], words (d :: s), ?_, hone, fun v hv => hv⟩
      rw [words.eq_def]
      simp [hc, hd]
    | false =>
      obtain ⟨w, ws, hwords, hw, -⟩ := ih hd (List.cons_prefix_cons.mpr ⟨rfl, List.nil_prefix⟩)
      refine ⟨c :: w, ws, ?_, List.cons_prefix_cons.mpr ⟨rfl, hw⟩, fun v hv => ?_⟩
      · rw [words.eq_def]
        simp [hc, hd, hwords]
      · rw [hwords]
        exact List.mem_cons_of_mem _ hv

theorem infix_of_mem_words {s w : List Char} (hw : w ∈ words s) : w <:+: s := by
  induction s with
  | nil => cases hw
  | cons c s ih =>
    cases hc : isBlank c with
    | true =>
      rw [words_blank hc] at hw
      exact List.infix_cons (ih hw)
    | false =>
      obtain ⟨v, vs, hwords, hv, hvs⟩ := exists_words_cons hc s
      rw [hwords] at hw
      rcases List.mem_cons.mp hw with rfl | hw
      · exact hv.isInfix
      · exact List.infix_cons (ih (hvs w hw))

/-! ### Capitals -/

theorem code_of_isDigit_ofNat {n : Nat} (h : (Char.ofNat n).isDigit = true) :
    48 ≤ n ∧ n ≤ 57 := by
  by_cases hvalid : n.isValidChar
  · have htoNat : (Char.ofNat n).toNat = n := by
      rw [Char.ofNat, dif_pos hvalid]
      rfl
    exact htoNat ▸ code_of_isDigit h
  · rw [Char.ofNat, dif_neg hvalid] at h
    cases h

/-- The capitals of a character hold a digit only if the character is that digit. -/
theorem eq_of_mem_upperChar {c d : Char} (hd : d.isDigit = true) (h : d ∈ upperChar c) : c = d := by
  rw [upperChar] at h
  split at h
  · rename_i hascii
    have hall : ∀ n < 0x80, (Char.ofNat n).toUpper.isDigit = true →
        Char.ofNat n = (Char.ofNat n).toUpper := by decide +kernel
    obtain rfl := List.mem_singleton.mp h
    have hsame := hall c.toNat hascii
    rw [Char.ofNat_toNat] at hsame
    exact hsame hd
  · split at h
    · rename_i run hrun
      have hall : ∀ run ∈ upperRuns, 58 ≤ run.first + run.shift := by decide +kernel
      have hcovers := List.find?_some hrun
      simp only [CaseRun.covers, Bool.and_eq_true, decide_eq_true_eq] at hcovers
      rw [List.mem_singleton.mp h] at hd
      have hcode := code_of_isDigit_ofNat hd
      have hfar := hall run (List.mem_of_find?_eq_some hrun)
      omega
    · split at h
      · rename_i codes hcodes
        have hall : ∀ entry ∈ upperExpansions, ∀ n ∈ entry.2, 58 ≤ n := by decide +kernel
        obtain ⟨n, hn, rfl⟩ := List.mem_map.mp h
        obtain ⟨front, behind, hentries, -⟩ := List.lookup_eq_some_iff.mp hcodes
        have hcode := code_of_isDigit_ofNat hd
        have hfar := hall (c.toNat, codes)
          (hentries ▸ List.mem_append_right _ List.mem_cons_self) n hn
        omega
      · exact (List.mem_singleton.mp h).symm

theorem upperChar_ne_nil (c : Char) : upperChar c ≠ [] := by
  rw [upperChar]
  split
  · exact List.cons_ne_nil _ _
  · split
    · exact List.cons_ne_nil _ _
    · split
      · rename_i codes hcodes
        have hall : ∀ entry ∈ upperExpansions, entry.2 ≠ [] := by decide +kernel
        obtain ⟨front, behind, hentries, -⟩ := List.lookup_eq_some_iff.mp hcodes
        have hne := hall (c.toNat, codes) (hentries ▸ List.mem_append_right _ List.mem_cons_self)
        exact fun h => hne (List.map_eq_nil_iff.mp h)
      · exact List.cons_ne_nil _ _

theorem prefix_of_prefix_upper {run s : List Char} (hrun : ∀ c ∈ run, c.isDigit = true)
    (h : run <+: upper s) : run <+: s := by
  induction s generalizing run with
  | nil => exact h
  | cons c s ih =>
    cases run with
    | nil => exact List.nil_prefix
    | cons d run =>
      have hd := hrun d List.mem_cons_self
      -- the capitals of the first character begin with the first digit, so they are it
      cases hcapitals : upperChar c with
      | nil => exact absurd hcapitals (upperChar_ne_nil c)
      | cons e es =>
        rw [upper_cons, hcapitals, List.cons_append, List.cons_prefix_cons] at h
        obtain ⟨rfl, h⟩ := h
        obtain rfl : c = d := eq_of_mem_upperChar hd (hcapitals ▸ List.mem_cons_self)
        rw [upperChar_of_isDigit hd] at hcapitals
        obtain rfl : es = [] := (List.cons.inj hcapitals).2.symm
        exact List.cons_prefix_cons.mpr
          ⟨rfl, ih (fun c hc => hrun c (List.mem_cons_of_mem _ hc)) h⟩

/-- What does not begin in the front part is in the part behind it. -/
theorem infix_of_infix_append {d : Char} {run front s : List Char} (hfront : ∀ e ∈ front, e ≠ d)
    (h : d :: run <:+: front ++ s) : d :: run <:+: s := by
  induction front with
  | nil => exact h
  | cons e front ih =>
    rcases List.infix_cons_iff.mp h with hprefix | hinfix
    · exact absurd (List.cons_prefix_cons.mp hprefix).1.symm (hfront e List.mem_cons_self)
    · exact ih (fun e he => hfront e (List.mem_cons_of_mem _ he)) hinfix

/-- A run of digits in the capitals of a text is one in the text. -/
theorem infix_of_infix_upper {run s : List Char} (hrun : ∀ c ∈ run, c.isDigit = true)
    (h : run <:+: upper s) : run <:+: s := by
  induction s with
  | nil => exact h
  | cons c s ih =>
    cases run with
    | nil => exact List.nil_infix
    | cons d run =>
      have hd := hrun d List.mem_cons_self
      by_cases hc : c.isDigit = true
      · rw [upper_cons, upperChar_of_isDigit hc, List.singleton_append] at h
        rcases List.infix_cons_iff.mp h with hprefix | hinfix
        · refine (prefix_of_prefix_upper hrun ?_).isInfix
          rwa [upper_cons, upperChar_of_isDigit hc]
        · exact List.infix_cons (ih hinfix)
      · -- no digit stands among the capitals of the first character
        have hnone : ∀ e ∈ upperChar c, e ≠ d := by
          rintro e he rfl
          exact hc (eq_of_mem_upperChar hd he ▸ hd)
        rw [upper_cons] at h
        exact List.infix_cons (ih (infix_of_infix_append hnone h))

/-- A text without overlong numerals has none in the trimmed capitals of a part. -/
theorem ShortNumerals.not_overlong {part text : List Char} (h : ShortNumerals text)
    (hpart : part <:+: text) : ¬ Overlong (upper (strip part)) := fun hlong =>
  h _ ((infix_of_infix_upper hlong.1 List.infix_rfl).trans ((strip_isInfix part).trans hpart)) hlong

/-! ### Runs that stay whole -/

theorem isBlank_of_isDigit {c : Char} (h : c.isDigit = true) : isBlank c = false :=
  forall_isDigit (P := fun c => isBlank c = false) (by decide) h

/-- A text that neither begins nor ends with a blank stays as it is. -/
theorem strip_cons_concat {c d : Char} {s : List Char} (hc : isBlank c = false)
    (hd : isBlank d = false) : strip (c :: s ++ [d]) = c :: s ++ [d] := by
  rw [strip, List.cons_append, stripStart_cons, if_neg (by simp [hc]), ← List.cons_append,
    stripEnd_concat, if_neg (by simp [hd])]

/-- The word before a blank. -/
theorem words_append_blank {w : List Char} (hne : w ≠ []) (hw : ∀ c ∈ w, isBlank c = false)
    {b : Char} (hb : isBlank b = true) (s : List Char) :
    words (w ++ b :: s) = w :: words s := by
  induction w with
  | nil => exact absurd rfl hne
  | cons c w ih =>
    have hc := hw c List.mem_cons_self
    cases w with
    | nil =>
      rw [List.singleton_append, words.eq_def]
      simp [hc, hb, words_blank hb]
    | cons d w =>
      have hd := hw d (List.mem_cons_of_mem _ List.mem_cons_self)
      have ih := ih (List.cons_ne_nil _ _) fun e he => hw e (List.mem_cons_of_mem _ he)
      rw [List.cons_append, words.eq_def]
      simp only [hc, Bool.false_eq_true, if_false, List.cons_append, hd]
      rw [← List.cons_append, ih]

/-- A run of digits is its own trimmed capitals. -/
theorem upper_strip_of_isDigit {run : List Char} (h : ∀ c ∈ run, c.isDigit = true) :
    strip run = run ∧ upper run = run := by
  constructor
  · have hstart : stripStart run = run := by
      cases run with
      | nil => rfl
      | cons c run =>
        rw [stripStart_cons, if_neg (by simp [isBlank_of_isDigit (h c List.mem_cons_self)])]
    rw [strip, hstart]
    rcases List.eq_nil_or_concat run with rfl | ⟨front, c, rfl⟩
    · rfl
    · have hc := isBlank_of_isDigit (h c (by simp))
      rw [List.concat_eq_append, stripEnd_concat, if_neg (by simp [hc])]
  · induction run with
    | nil => rfl
    | cons c run ih =>
      rw [upper_cons, upperChar_of_isDigit (h c List.mem_cons_self),
        ih fun d hd => h d (List.mem_cons_of_mem _ hd), List.singleton_append]

end CronSchedule.Text
