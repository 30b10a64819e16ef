import CronSchedule.Proofs.Text.Cut
import CronSchedule.Proofs.Text.Runs
import Mathlib.Data.List.TakeWhile

/-!
# Words and blanks

The words of a text are what lies between its blanks, so a blank splits them wherever it stands,
and more blanks beside it split nothing further.

* `words_append_of_isBlank` — the words before a blank, and those behind it;
* `words_strip` — trimming changes no word;
* `strip_eq_of_words_eq` — a text of one word is, when trimmed, that word;
* `pieces_append_of_eq` — a text in two parts is cut as each of them is, but that the last piece
  of the one and the first of the other are one piece.
-/

namespace CronSchedule.Text

variable {b c sep : Char} {s t w : List Char}

/-! ### Words -/

theorem words_cons_of_isBlank_head (hc : isBlank c = false)
    (hs : ∀ d ∈ s.head?, isBlank d = true) : words (c :: s) = [c] :: words s := by
  rw [words.eq_def]
  cases s with
  | nil => simp [hc]
  | cons d s => simp [hc, hs d rfl]

/-- A character beside a word belongs to it. -/
theorem exists_words_cons_cons (hc : isBlank c = false) (hb : isBlank b = false)
    (s : List Char) :
    ∃ w ws, words (b :: s) = w :: ws ∧ words (c :: b :: s) = (c :: w) :: ws := by
  obtain ⟨w, ws, hwords, -, -⟩ := exists_words_cons hb s
  refine ⟨w, ws, hwords, ?_⟩
  rw [words.eq_def]
  simp [hc, hb, hwords]

/-- The words before a blank, and those behind it. -/
theorem words_append_of_isBlank (hb : isBlank b = true) (s t : List Char) :
    words (s ++ b :: t) = words s ++ words t := by
  induction s with
  | nil => exact words_blank hb t
  | cons c s ih =>
    cases hc : isBlank c with
    | true => rw [List.cons_append, words_blank hc, words_blank hc, ih]
    | false =>
      cases s with
      | nil =>
        rw [List.singleton_append, words_cons_of_isBlank_head hc (by simpa using hb),
          words_blank hb, words_cons_of_isBlank_head hc (by simp)]
        rfl
      | cons d s =>
        cases hd : isBlank d with
        | true =>
          rw [List.cons_append, words_cons_of_isBlank_head hc (by simpa using hd), ih,
            words_cons_of_isBlank_head hc (by simpa using hd), List.cons_append]
        | false =>
          obtain ⟨w, ws, hwords, hcons⟩ := exists_words_cons_cons hc hd s
          obtain ⟨v, vs, hwords', hcons'⟩ := exists_words_cons_cons hc hd (s ++ b :: t)
          rw [← List.cons_append, ih, hwords, List.cons_append] at hwords'
          obtain ⟨rfl, rfl⟩ := List.cons.inj hwords'
          rw [List.cons_append, List.cons_append, hcons', hcons, List.cons_append]

theorem words_concat_of_isBlank (hb : isBlank b = true) (s : List Char) :
    words (s ++ [b]) = words s := by
  rw [words_append_of_isBlank hb, words_nil, List.append_nil]

/-- Trimming changes no word. -/
theorem words_strip (s : List Char) : words (strip s) = words s := by
  have hstart (s : List Char) : words (stripStart s) = words s := by
    induction s with
    | nil => rfl
    | cons c s ih =>
      rw [stripStart_cons]
      split
      · next hc => rw [ih, words_blank hc]
      · rfl
  have hend (s : List Char) : words (stripEnd s) = words s := by
    induction s using List.reverseRecOn with
    | nil => rfl
    | append_singleton s c ih =>
      rw [stripEnd_concat]
      split
      · next hc => rw [ih, words_concat_of_isBlank hc]
      · rfl
  rw [strip, hend, hstart]

/-- A text without blanks is one word. -/
theorem words_eq_singleton (hne : w ≠ []) (hw : ∀ c ∈ w, isBlank c = false) : words w = [w] := by
  have h := words_append_blank (b := ' ') hne hw (by decide) []
  rwa [words_append_of_isBlank (by decide), words_nil, List.append_nil] at h

theorem strip_cons_of_not_isBlank (hc : isBlank c = false) (s : List Char) :
    strip (c :: s) = c :: stripEnd s := by
  rw [strip, stripStart_cons, hc, if_neg Bool.false_ne_true]
  induction s using List.reverseRecOn with
  | nil => exact (stripEnd_concat [] c).trans (by simp [hc])
  | append_singleton s d ih =>
    rw [← List.cons_append, stripEnd_concat, stripEnd_concat, ih]
    split <;> rfl

/-- A text without words is blank. -/
theorem isBlank_of_words_eq_nil (h : words s = []) : ∀ c ∈ s, isBlank c = true := by
  induction s with
  | nil => exact fun c hc => by cases hc
  | cons c s ih =>
    cases hc : isBlank c with
    | true =>
      rw [words_blank hc] at h
      exact List.forall_mem_cons.mpr ⟨hc, ih h⟩
    | false =>
      obtain ⟨w, ws, hwords, -, -⟩ := exists_words_cons hc s
      rw [hwords] at h
      cases h

theorem stripEnd_eq_nil_of_words (h : words s = []) : stripEnd s = [] := by
  rw [stripEnd, List.reverse_eq_nil_iff, List.dropWhile_eq_nil_iff]
  exact fun c hc => isBlank_of_words_eq_nil h c (List.mem_reverse.mp hc)

theorem strip_eq_nil_of_words (h : words s = []) : strip s = [] := by
  have hstart : stripStart s = [] := List.dropWhile_eq_nil_iff.mpr (isBlank_of_words_eq_nil h)
  rw [strip, hstart, stripEnd_nil]

/-- A text of one word is, when trimmed, that word. -/
theorem strip_eq_of_words_eq (h : words s = [w]) : strip s = w := by
  induction s generalizing w with
  | nil => cases h
  | cons c s ih =>
    cases hc : isBlank c with
    | true =>
      rw [words_blank hc] at h
      rw [strip_cons_of_isBlank hc, ih h]
    | false =>
      -- nothing is trimmed at the start, and the word ends the text or has blanks behind it
      rw [strip_cons_of_not_isBlank hc]
      cases s with
      | nil =>
        rw [words_cons_of_isBlank_head hc (by simp)] at h
        cases h
        rfl
      | cons d s =>
        cases hd : isBlank d with
        | true =>
          rw [words_cons_of_isBlank_head hc (by simpa using hd)] at h
          obtain ⟨rfl, hrest⟩ := List.cons.inj h
          rw [stripEnd_eq_nil_of_words hrest]
        | false =>
          obtain ⟨v, vs, hwords, hcons⟩ := exists_words_cons_cons hc hd s
          rw [hcons] at h
          obtain ⟨rfl, rfl⟩ := List.cons.inj h
          have hstart : stripStart (d :: s) = d :: s := by
            rw [stripStart_cons, hd, if_neg Bool.false_ne_true]
          rw [← ih hwords, strip, hstart]

/-! ### Pieces -/

variable {front back : List (List Char)} {first last : List Char}

/-- A text in two parts is cut as each of them is, but that the last piece of the one and the
first of the other are one piece. -/
theorem pieces_append_of_eq (hs : pieces sep s = front ++ [last])
    (ht : pieces sep t = first :: back) :
    pieces sep (s ++ t) = front ++ (last ++ first) :: back := by
  induction s generalizing front last with
  | nil =>
    rw [pieces_nil] at hs
    cases front with
    | nil =>
      cases hs
      exact ht
    | cons p front => simp at hs
  | cons c s ih =>
    rw [List.cons_append]
    by_cases hc : c = sep
    · subst hc
      rw [pieces_sep] at hs ⊢
      cases front with
      | nil => exact absurd (List.cons.inj hs).2 (pieces_ne_nil c s)
      | cons p front =>
        obtain ⟨rfl, hrest⟩ := List.cons.inj hs
        rw [ih hrest, List.cons_append]
    · obtain ⟨p, ps, hp, hcons⟩ := pieces_cons_of_ne hc s
      obtain ⟨q, qs, hq, hcons'⟩ := pieces_cons_of_ne hc (s ++ t)
      rw [hcons] at hs
      rw [hcons']
      cases front with
      | nil =>
        obtain ⟨rfl, rfl⟩ := List.cons.inj hs
        rw [@ih [] p hp] at hq
        cases hq
        rfl
      | cons f front =>
        obtain ⟨rfl, rfl⟩ := List.cons.inj hs
        rw [@ih (p :: front) last hp] at hq
        cases hq
        rfl

/-- The first piece begins the text. -/
theorem prefix_of_pieces (h : pieces sep t = first :: back) : first <+: t := by
  rw [← join_pieces sep t, h]
  cases back <;> simp [List.intercalate]

/-- The last piece ends the text. -/
theorem suffix_of_pieces (h : pieces sep s = front ++ [last]) : last <:+ s := by
  have hends : ∀ front : List (List Char), last <:+ List.intercalate [sep] (front ++ [last]) := by
    intro front
    induction front with
    | nil => simp [List.intercalate]
    | cons p front ih =>
      have hjoin : List.intercalate [sep] (p :: front ++ [last]) =
          p ++ sep :: List.intercalate [sep] (front ++ [last]) := by
        cases front <;> simp [List.intercalate]
      rw [hjoin]
      exact (ih.trans (List.suffix_cons _ _)).trans (List.suffix_append _ _)
  rw [← join_pieces sep s, h]
  exact hends front

end CronSchedule.Text
