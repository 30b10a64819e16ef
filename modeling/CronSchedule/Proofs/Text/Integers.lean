import CronSchedule.Proofs.Text.Cut
import CronSchedule.Text.Numeral
import Mathlib.Data.List.Forall2

/-!
# Integers in the notation of settings

Two tests single out the integers among the texts of settings: whether all characters look like
digits, and whether the text can be read as an integer.  They do not agree.  A digit may be without
place value, and a run of digits may be too long, so that a text which looks like an integer to the
first test is none to the second.

* `SeemsInteger` — texts of this kind;
* `integer?_eq_none_iff` — of the texts that look like digits no others are unreadable;
* `isWritable_of_integer?` — what has been read can be written again.
-/

namespace CronSchedule.Text

/-- The text looks like an integer and is none: all its characters look like digits, but one of them
is without place value, or they are too many. -/
def SeemsInteger (s : List Char) : Prop :=
  (∀ c ∈ s, isDigitLike c = true) ∧ ((∃ c ∈ s, decimalValue? c = none) ∨ numeralLimit < s.length)

/-! ### Readable texts -/

/-- A text that looks like digits has no sign. -/
theorem splitSign_of_isDigitLike {s : List Char} (h : ∀ c ∈ s, isDigitLike c = true) :
    splitSign s = (false, s) := by
  cases s with
  | nil => rfl
  | cons c s =>
    have hc := h c (List.mem_cons_self ..)
    unfold splitSign
    split
    · next heq => exact absurd ((List.cons.inj heq).1 ▸ hc) (by decide)
    · next heq => exact absurd ((List.cons.inj heq).1 ▸ hc) (by decide)
    · rfl

theorem mapM_option_eq_none_iff {α β : Type} {f : α → Option β} {l : List α} :
    l.mapM f = none ↔ ∃ a ∈ l, f a = none := by
  induction l with
  | nil => simp
  | cons a l ih =>
    rw [List.mapM_cons]
    cases ha : f a with
    | none => simp [ha]
    | some b => cases hl : l.mapM f <;> simp_all

theorem forall₂_of_mapM_option {α β : Type} {f : α → Option β} {l : List α} {bs : List β}
    (h : l.mapM f = some bs) : List.Forall₂ (fun a b => f a = some b) l bs := by
  induction l generalizing bs with
  | nil =>
    obtain rfl := Option.some.inj h
    exact .nil
  | cons a l ih =>
    rw [List.mapM_cons] at h
    obtain ⟨b, hb, h⟩ := Option.bind_eq_some_iff.mp h
    obtain ⟨rest, hrest, h⟩ := Option.bind_eq_some_iff.mp h
    obtain rfl := Option.some.inj h
    exact .cons hb (ih hrest)

/-- A text that looks like digits is a run of its characters. -/
theorem digitRun?_of_isDigitLike {s : List Char} (hne : s ≠ [])
    (h : ∀ c ∈ s, isDigitLike c = true) : digitRun? s = s.mapM decimalValue? := by
  have hplain : '_' ∉ s := fun hmem => absurd (h _ hmem) (by decide)
  have hkept : s.filter (· != '_') = s :=
    List.filter_eq_self.mpr fun c hc => bne_iff_ne.mpr fun heq => hplain (heq ▸ hc)
  unfold digitRun?
  rw [pieces_of_not_mem hplain, hkept]
  simp [hne]

/-- A text that looks like digits is unreadable exactly if it only seems an integer. -/
theorem integer?_eq_none_iff {s : List Char} (hne : s ≠ []) (h : ∀ c ∈ s, isDigitLike c = true) :
    integer? s = none ↔ SeemsInteger s := by
  rw [SeemsInteger, and_iff_right h, ← mapM_option_eq_none_iff]
  unfold integer?
  rw [splitSign_of_isDigitLike h]
  dsimp only
  rw [digitRun?_of_isDigitLike hne h]
  cases hdigits : s.mapM decimalValue? with
  | none => simp
  | some ds => simp [(forall₂_of_mapM_option hdigits).length_eq]

theorem SeemsInteger.ne_nil {s : List Char} (h : SeemsInteger s) : s ≠ [] := by
  rintro rfl
  rcases h.2 with ⟨c, hc, -⟩ | hlong
  · cases hc
  · exact Nat.not_lt_zero _ hlong

/-! ### Writable integers -/

theorem ofDigits_lt {ds : List Nat} (h : ∀ d ∈ ds, d < 10) :
    ofDigits ds < Nat.pow 10 ds.length := by
  induction ds using List.reverseRecOn with
  | nil => exact Nat.one_pos
  | append_singleton ds d ih =>
    obtain ⟨hds, hd⟩ := List.forall_mem_append.mp h
    have hlast : d < 10 := hd d (List.mem_singleton_self d)
    have hrest := ih hds
    have hpow : Nat.pow 10 (ds.length + 1) = Nat.pow 10 ds.length * 10 := rfl
    rw [ofDigits_concat, List.length_append, List.length_singleton, hpow]
    omega

theorem forall_lt_of_digitRun? {s : List Char} {ds : List Nat} (h : digitRun? s = some ds) :
    ∀ d ∈ ds, d < 10 := by
  have hvalues {s : List Char} {ds : List Nat}
      (h : List.Forall₂ (fun c d => decimalValue? c = some d) s ds) : ∀ d ∈ ds, d < 10 := by
    induction h with
    | nil => exact List.forall_mem_nil _
    | cons hd _ ih => exact List.forall_mem_cons.mpr ⟨decimalValue?_lt hd, ih⟩
  unfold digitRun? at h
  split at h
  · cases h
  · exact hvalues (forall₂_of_mapM_option h)

/-- An integer that has been read has no more digits than can be written. -/
theorem isWritable_of_integer? {s : List Char} {n : Int} (h : integer? s = some n) :
    isWritable n = true := by
  unfold integer? at h
  rcases hsign : splitSign s with ⟨negative, digits⟩
  rw [hsign] at h
  dsimp only at h
  cases hrun : digitRun? digits with
  | none =>
    rw [hrun] at h
    cases h
  | some ds =>
    rw [hrun] at h
    obtain ⟨hlength, hn⟩ := Option.ite_none_right_eq_some.mp h
    have habs : n.natAbs = ofDigits ds := by
      rw [← Option.some.inj hn]
      split <;> omega
    have hbelow (limit : Nat) (h : ds.length ≤ limit) : ofDigits ds < Nat.pow 10 limit :=
      (ofDigits_lt (forall_lt_of_digitRun? hrun)).trans_le
        (Nat.pow_le_pow_right (Nat.succ_pos 9) h)
    have hlt : ofDigits ds < numeralEnd := by
      unfold numeralEnd
      exact hbelow numeralLimit hlength
    exact decide_eq_true (habs ▸ hlt)

end CronSchedule.Text
