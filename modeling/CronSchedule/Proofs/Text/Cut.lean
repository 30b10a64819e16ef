import CronSchedule.Text.Blank
import CronSchedule.Text.Pieces
import CronSchedule.Text.Symbol
import Mathlib.Data.List.DropRight
import Mathlib.Data.List.Induction

/-!
# Cutting a text that is trimmed

An expression is trimmed, cut at its bars, and each part is trimmed again.  The first of the
three steps makes no difference behind the last: it takes blanks from the two outermost parts
only, and these are taken anyway.  So two texts with a bar between them are cut into the parts
of the first and the parts of the second.

* `strip_strip`, `stripSymbols_stripSymbols` — a trimmed text stays as it is;
* `pieces_append` — the parts of two texts with a separator between them;
* `map_strip_pieces_strip` — trimming before the cut makes no difference to trimmed parts.
-/

namespace CronSchedule.Text

variable {sep c : Char}

/-! ### Blanks at the ends -/

theorem strip_cons_of_isBlank (hc : isBlank c = true) (s : List Char) :
    strip (c :: s) = strip s := by
  rw [strip, stripStart_cons, if_pos hc, strip]

theorem strip_concat_of_isBlank (hc : isBlank c = true) (s : List Char) :
    strip (s ++ [c]) = strip s := by
  induction s with
  | nil => exact strip_cons_of_isBlank hc []
  | cons d s ih =>
    cases hd : isBlank d with
    | true => rw [List.cons_append, strip_cons_of_isBlank hd, strip_cons_of_isBlank hd, ih]
    | false =>
      have hstart (t : List Char) : stripStart (d :: t) = d :: t := by
        rw [stripStart_cons, hd, if_neg Bool.false_ne_true]
      rw [List.cons_append, strip, hstart, ← List.cons_append, stripEnd_concat, if_pos hc, strip,
        hstart]

/-- What is dropped at both ends is not there to be dropped again. -/
theorem rdropWhile_dropWhile_idempotent {α : Type} (p : α → Bool) (s : List α) :
    (((s.dropWhile p).rdropWhile p).dropWhile p).rdropWhile p = (s.dropWhile p).rdropWhile p := by
  have hstart : ((s.dropWhile p).rdropWhile p).dropWhile p = (s.dropWhile p).rdropWhile p := by
    rw [List.dropWhile_eq_self_iff]
    intro hlength
    -- dropping at the end keeps what comes first
    rw [(List.rdropWhile_prefix p (s.dropWhile p)).getElem hlength]
    exact List.dropWhile_get_zero_not p s _
  rw [hstart, List.rdropWhile_idempotent]

/-- A trimmed text stays as it is. -/
@[simp] theorem strip_strip (s : List Char) : strip (strip s) = strip s :=
  rdropWhile_dropWhile_idempotent isBlank s

@[simp] theorem stripSymbols_stripSymbols (s : List Symbol) :
    stripSymbols (stripSymbols s) = stripSymbols s :=
  rdropWhile_dropWhile_idempotent Symbol.isBlank s

/-! ### Parts of joined texts -/

/-- Two texts with a separator between them are cut into the parts of both. -/
theorem pieces_append (sep : Char) (s t : List Char) :
    pieces sep (s ++ sep :: t) = pieces sep s ++ pieces sep t := by
  induction s with
  | nil => rw [List.nil_append, pieces_sep, pieces_nil, List.singleton_append]
  | cons d s ih =>
    by_cases hd : d = sep
    · subst hd
      rw [List.cons_append, pieces_sep, pieces_sep, ih, List.cons_append]
    · obtain ⟨p, ps, hp, hcons⟩ := pieces_cons_of_ne hd s
      obtain ⟨q, qs, hq, hcons'⟩ := pieces_cons_of_ne hd (s ++ sep :: t)
      rw [ih, hp, List.cons_append] at hq
      obtain ⟨rfl, rfl⟩ := List.cons.inj hq
      rw [List.cons_append, hcons', hcons, List.cons_append]

/-- A text without the separator is one part. -/
theorem pieces_of_not_mem {t : List Char} (ht : sep ∉ t) : pieces sep t = [t] := by
  induction t with
  | nil => rfl
  | cons c t ih =>
    rw [List.mem_cons, not_or] at ht
    obtain ⟨p, ps, hp, hcons⟩ := pieces_cons_of_ne (Ne.symm ht.1) t
    rw [ih ht.2] at hp
    obtain ⟨rfl, rfl⟩ := List.cons.inj hp
    exact hcons

theorem pieces_append_sep {s t : List Char} (hs : sep ∉ s) (ht : sep ∉ t) :
    pieces sep (s ++ sep :: t) = [s, t] := by
  rw [pieces_append, pieces_of_not_mem hs, pieces_of_not_mem ht, List.singleton_append]

/-- A character at the end that is no separator ends the last part. -/
theorem exists_pieces_concat (hc : c ≠ sep) (s : List Char) :
    ∃ front last, pieces sep s = front ++ [last] ∧
      pieces sep (s ++ [c]) = front ++ [last ++ [c]] := by
  induction s with
  | nil =>
    obtain ⟨p, ps, hp, hcons⟩ := pieces_cons_of_ne hc []
    obtain ⟨rfl, rfl⟩ := List.cons.inj hp
    exact ⟨[], [], rfl, hcons⟩
  | cons d s ih =>
    obtain ⟨front, last, hs, hconcat⟩ := ih
    by_cases hd : d = sep
    · subst hd
      refine ⟨[] :: front, last, ?_, ?_⟩
      · rw [pieces_sep, hs, List.cons_append]
      · rw [List.cons_append, pieces_sep, hconcat, List.cons_append]
    · obtain ⟨p, ps, hp, hcons⟩ := pieces_cons_of_ne hd s
      obtain ⟨q, qs, hq, hcons'⟩ := pieces_cons_of_ne hd (s ++ [c])
      rw [List.cons_append, hcons, hcons']
      rw [hs] at hp
      rw [hconcat] at hq
      cases front with
      | nil =>
        obtain ⟨rfl, rfl⟩ := List.cons.inj hp
        obtain ⟨rfl, rfl⟩ := List.cons.inj hq
        exact ⟨[], d :: last, rfl, rfl⟩
      | cons f front =>
        obtain ⟨rfl, rfl⟩ := List.cons.inj hp
        obtain ⟨rfl, rfl⟩ := List.cons.inj hq
        exact ⟨(d :: f) :: front, last, rfl, rfl⟩

/-! ### Trimming before the cut -/

theorem map_strip_pieces_stripStart (hsep : isBlank sep = false) (s : List Char) :
    (pieces sep (stripStart s)).map strip = (pieces sep s).map strip := by
  induction s with
  | nil => rfl
  | cons d s ih =>
    rw [stripStart_cons]
    split
    · rename_i hd
      have hne : d ≠ sep := by
        rintro rfl
        rw [hd] at hsep
        cases hsep
      obtain ⟨p, ps, hp, hcons⟩ := pieces_cons_of_ne hne s
      rw [ih, hp, hcons, List.map_cons, List.map_cons, strip_cons_of_isBlank hd]
    · rfl

theorem map_strip_pieces_stripEnd (hsep : isBlank sep = false) (s : List Char) :
    (pieces sep (stripEnd s)).map strip = (pieces sep s).map strip := by
  induction s using List.reverseRecOn with
  | nil => rfl
  | append_singleton s d ih =>
    rw [stripEnd_concat]
    split
    · rename_i hd
      have hne : d ≠ sep := by
        rintro rfl
        rw [hd] at hsep
        cases hsep
      obtain ⟨front, last, hs, hconcat⟩ := exists_pieces_concat hne s
      rw [ih, hs, hconcat, List.map_append, List.map_append, List.map_singleton,
        List.map_singleton, strip_concat_of_isBlank hd]
    · rfl

/-- Trimming before the cut makes no difference to trimmed parts. -/
theorem map_strip_pieces_strip (hsep : isBlank sep = false) (s : List Char) :
    (pieces sep (strip s)).map strip = (pieces sep s).map strip := by
  rw [strip, map_strip_pieces_stripEnd hsep, map_strip_pieces_stripStart hsep]

end CronSchedule.Text
