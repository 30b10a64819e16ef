import CronSchedule.Text.Blank

/-!
# Texts with halves of surrogate pairs

An escape in a file can ask for half of a surrogate pair, which is a code point and no
character.  A text in which such halves may stand is a list of symbols.

* `Symbol.ofCode` — the symbol of a code point;
* `inOrder` — the order of texts by their code points;
* `symbols`, `characters?` — between texts and lists of symbols: a list of symbols is a
  text exactly when no half stands in it (`characters?_eq_some_iff`);
* `stripSymbols` — a list of symbols without the blanks at its two ends.
-/

namespace CronSchedule.Text

/-- A code point of a text. -/
inductive Symbol where
  | char (c : Char)
  /-- half of a surrogate pair, by its code -/
  | half (code : Nat)
deriving DecidableEq, Repr

namespace Symbol

/-- The code point of a symbol. -/
def code : Symbol → Nat
  | char c => c.toNat
  | half code => code

/-- The symbol of a code point below the end of the code space. -/
def ofCode (code : Nat) : Symbol :=
  if code.isValidChar then char (Char.ofNat code) else half code

/-- The character of a symbol that is one. -/
def char? : Symbol → Option Char
  | char c => some c
  | half _ => none

/-- Whether a symbol is a blank character. -/
def isBlank : Symbol → Bool
  | char c => Text.isBlank c
  | half _ => false

end Symbol

/-- Whether a text stands no later than another in the order of code points. -/
def inOrder : List Symbol → List Symbol → Bool
  | [], _ => true
  | _ :: _, [] => false
  | x :: s, y :: t => x.code < y.code || x.code == y.code && inOrder s t

/-- The symbols of a text. -/
def symbols (s : String) : List Symbol := s.toList.map .char

/-- The characters of symbols, none when a half stands among them. -/
def characters? : List Symbol → Option (List Char)
  | [] => some []
  | .char c :: rest => (characters? rest).map (c :: ·)
  | .half _ :: _ => none

theorem characters?_eq_some_iff {s : List Symbol} {cs : List Char} :
    characters? s = some cs ↔ s = cs.map .char := by
  induction s generalizing cs with
  | nil => cases cs <;> simp [characters?]
  | cons x s ih =>
    cases x with
    | half n => cases cs <;> simp [characters?]
    | char c =>
      cases cs with
      | nil => simp [characters?]
      | cons d cs =>
        simp only [characters?, Option.map_eq_some_iff, ih, List.cons.injEq, List.map_cons,
          Symbol.char.injEq]
        constructor
        · rintro ⟨_, hs, rfl, rfl⟩
          exact ⟨rfl, hs⟩
        · rintro ⟨rfl, hs⟩
          exact ⟨cs, hs, rfl, rfl⟩

/-- Symbols without the blanks at their two ends. -/
def stripSymbols (s : List Symbol) : List Symbol :=
  ((s.dropWhile Symbol.isBlank).reverse.dropWhile Symbol.isBlank).reverse

end CronSchedule.Text
