import CronSchedule.Text.Numeral
import CronSchedule.Text.Printable
import CronSchedule.Text.Symbol

/-!
# Quoted text

Messages show texts in quotes.  The quote is an apostrophe, or a double quote when
the text holds an apostrophe and no double quote.  A backslash and the quote in use
stand behind a backslash, line feed, carriage return and tab are written with their
letters, every other character that is not printable by its code point in two, four
or eight hexadecimal digits, and printable characters as they are.

* `quoteMark` — the quote chosen for a text;
* `escaped` — the written form of one character;
* `quoted` — the text in quotes;
* `quotedSymbols` — the same for symbols: half of a surrogate pair cannot be shown;
* `quotedBytes` — bytes in quotes, behind a letter that tells them from a text.
-/

namespace CronSchedule.Text

/-- The quote in which a text is written. -/
def quoteMark (s : List Char) : Char :=
  if s.contains '\'' && !s.contains '"' then '"' else '\''

/-- The code point of a character that cannot be shown, in the shortest of the three
forms that hold it. -/
def codeEscape (n : Nat) : List Char :=
  if n < 0x100 then '\\' :: 'x' :: padded 16 2 n
  else if n < 0x10000 then '\\' :: 'u' :: padded 16 4 n
  else '\\' :: 'U' :: padded 16 8 n

/-- The written form of one character inside the quote `mark`. -/
def escaped (mark c : Char) : List Char :=
  if c = mark ∨ c = '\\' then ['\\', c]
  else if c = '\n' then ['\\', 'n']
  else if c = '\r' then ['\\', 'r']
  else if c = '\t' then ['\\', 't']
  else if isPrintable c then [c]
  else codeEscape c.toNat

/-- The text in quotes. -/
def quotedChars (s : List Char) : List Char :=
  let mark := quoteMark s
  mark :: (s.flatMap (escaped mark) ++ [mark])

/-- The text in quotes, as messages show it. -/
def quoted (s : String) : String := String.ofList (quotedChars s.toList)

/-- The written form of one symbol inside the quote `mark`. -/
def escapedSymbol (mark : Char) : Symbol → List Char
  | .char c => escaped mark c
  | .half code => codeEscape code

/-- Symbols in quotes, as messages show them. -/
def quotedSymbols (s : List Symbol) : String :=
  let mark := quoteMark (s.filterMap Symbol.char?)
  String.ofList (mark :: (s.flatMap (escapedSymbol mark) ++ [mark]))

/-- The written form of one byte inside the quote `mark`: that of its character in ASCII, and beyond
ASCII its code. -/
def escapedByte (mark : Char) (b : UInt8) : List Char :=
  if b < 0x80 then escaped mark (Char.ofNat b.toNat) else codeEscape b.toNat

/-- Bytes in quotes, as messages show them. -/
def quotedBytes (bytes : List UInt8) : String :=
  let mark := quoteMark (bytes.map fun b => Char.ofNat b.toNat)
  String.ofList ('b' :: mark :: (bytes.flatMap (escapedByte mark) ++ [mark]))

/-- Symbols that are a text are quoted as that text. -/
theorem quotedSymbols_symbols (s : String) : quotedSymbols (symbols s) = quoted s := by
  have hmark : (symbols s).filterMap Symbol.char? = s.toList := by
    simp [symbols, List.filterMap_map, Function.comp_def, Symbol.char?]
  simp only [quotedSymbols, quoted, quotedChars, hmark]
  simp [symbols, List.flatMap_map, escapedSymbol]

/-- A text is quoted by a double quote only when it holds apostrophes and no double
quote. -/
theorem quoteMark_eq_double_iff {s : List Char} :
    quoteMark s = '"' ↔ '\'' ∈ s ∧ '"' ∉ s := by
  by_cases h : '\'' ∈ s <;> by_cases h' : '"' ∈ s <;> simp [quoteMark, h, h']

end CronSchedule.Text
