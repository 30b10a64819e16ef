import CronSchedule.Proofs.Grammar.Joined
import CronSchedule.Proofs.Text.Capitals
import Mathlib.Logic.Relation

/-!
# Expressions that differ in letter case and blanks

Case is dealt with in several places, for an alias, for the forms with `L` and for a name, and
blanks are in several others.  Each reader is compared with itself on the text in capitals: it
succeeds with the same value or fails in the same way, so two texts that are the same in capitals
are read alike.  Blanks are lost when an alternative is cut into words.

An alias is the one place where case and blanks meet: it is looked for before the text is cut,
but only a text of one word can be an alias, so it might as well be looked for behind the cut.

* `Field.Alike` — the same success or failure of readers, with its laws;
* `Field.alike_read`, `Field.alike_compile` — a field is read alike in capitals;
* `agree_compileAlternative_of_words` — so is an alternative, whatever blanks are between its
  words;
* `spelling` — the words of an expression in capitals, `Pattern.agree_read_of_spelling` — on
  which alone reading depends;
* `Retouch` — a letter or a blank changed, `Retouch.spelling_eq` — which keeps the spelling;
* `Pattern.compile_retouched` — so expressions that differ in such changes compile alike.
-/

namespace CronSchedule

open Text

/-! ### Agreement of readers -/

/-- The same success, a problem on both sides, or on both a numeral that is too long. -/
inductive Field.Alike {α : Type} : Except FieldFault α → Except FieldFault α → Prop
  | ok (a : α) : Alike (.ok a) (.ok a)
  | problem (p q : FieldProblem) : Alike (.error (.problem p)) (.error (.problem q))
  | longNumeral : Alike (.error .longNumeral) (.error .longNumeral)

namespace Field

namespace Alike

variable {α β : Type} {r r' r'' : Except FieldFault α}

theorem refl : ∀ r : Except FieldFault α, Alike r r
  | .ok a => .ok a
  | .error (.problem p) => .problem p p
  | .error .longNumeral => .longNumeral

theorem symm (h : Alike r r') : Alike r' r := by
  cases h with
  | ok a => exact .ok a
  | problem p q => exact .problem q p
  | longNumeral => exact .longNumeral

theorem trans (h : Alike r r') (h' : Alike r' r'') : Alike r r'' := by
  cases h with
  | ok a => exact h'
  | problem p q =>
    cases h' with
    | problem _ q' => exact .problem p q'
  | longNumeral => exact h'

theorem bind {k k' : α → Except FieldFault β} (h : Alike r r')
    (hthen : ∀ a, Alike (k a) (k' a)) : Alike (r >>= k) (r' >>= k') := by
  cases h with
  | ok a => exact hthen a
  | problem p q => exact .problem p q
  | longNumeral => exact .longNumeral

theorem map (f : α → β) (h : Alike r r') : Alike (r.map f) (r'.map f) := by
  cases h with
  | ok a => exact .ok (f a)
  | problem p q => exact .problem p q
  | longNumeral => exact .longNumeral

/-- Parts that are read alike one by one are read alike in a row. -/
theorem mapM {f g : List Char → Except FieldFault α}
    (h : ∀ part, Alike (f part) (g (capitals part))) (parts : List (List Char)) :
    Alike (parts.mapM f) ((parts.map capitals).mapM g) := by
  induction parts with
  | nil => exact .ok []
  | cons part parts ih =>
    rw [List.map_cons, List.mapM_cons, List.mapM_cons]
    exact (h part).bind fun a => ih.bind fun as => .ok (a :: as)

end Alike

/-! ### The readers of a field -/

variable (d : Domain) (f : Field)

theorem alike_readValue (token : List Char) :
    Alike (readValue d token) (readValue d (capitals token)) := by
  unfold readValue
  simp only [strip_capitals, upper_capitals]
  cases d.named? (upper (strip token)) with
  | some n => exact .ok n
  | none =>
    dsimp only
    split
    · cases asciiNumeral? (upper (strip token)) with
      | none => exact .longNumeral
      | some n =>
        dsimp only
        split
        · exact .ok _
        · exact .problem _ _
    · exact .problem _ _

theorem alike_readRange (text : List Char) :
    Alike (readRange d text) (readRange d (capitals text)) := by
  unfold readRange
  rw [pieces_capitals (by decide)]
  match pieces '-' text with
  | [left, right] =>
    refine (alike_readValue d left).bind fun first => (alike_readValue d right).bind fun last => ?_
    split
    · exact .problem _ _
    · exact .ok _
  | [] | [_] | _ :: _ :: _ :: _ => exact .problem _ _

theorem alike_readBase (base : List Char) :
    Alike (readBase d base) (readBase d (capitals base)) := by
  have hstar : '*' ∈ signs := by decide
  have hdash : '-' ∈ signs := by decide
  unfold readBase
  simp only [capitals_eq_singleton hstar, mem_capitals hdash]
  split
  · exact .ok _
  · split
    · exact alike_readRange d base
    · exact (alike_readValue d base).map _

/-- Whether a dash stands before the digits of a step, and the digits. -/
def signedDigits : List Char → Bool × List Char
  | '-' :: digits => (true, digits)
  | digits => (false, digits)

theorem signedDigits_of_ne {c : Char} (hc : c ≠ '-') (s : List Char) :
    signedDigits (c :: s) = (false, c :: s) := by
  unfold signedDigits
  split
  · next hcons => exact absurd (List.cons.inj hcons).1 hc
  · rfl

theorem signedDigits_capitals (text : List Char) :
    signedDigits (capitals text) = ((signedDigits text).1, capitals (signedDigits text).2) := by
  have hdash : '-' ∈ signs := by decide
  cases text with
  | nil => rfl
  | cons c s =>
    rw [capitals_cons]
    by_cases hc : c = '-'
    · rw [(toUpper_eq_iff hdash).mpr hc, hc]
      rfl
    · rw [signedDigits_of_ne hc, signedDigits_of_ne (mt (toUpper_eq_iff hdash).mp hc)]
      rfl

theorem readStep_eq (text item : List Char) :
    readStep text item =
      if isAsciiNumeral (signedDigits text).2 then
        match asciiNumeral? (signedDigits text).2 with
        | none => .error .longNumeral
        | some n =>
          let step : Int := if (signedDigits text).1 then -n else n
          if step ≤ 0 then .error (.problem (.stepNotPositive step item)) else .ok step
      else .error (.problem (.step item)) := rfl

theorem alike_readStep (text item item' : List Char) :
    Alike (readStep text item) (readStep (capitals text) item') := by
  rw [readStep_eq, readStep_eq, signedDigits_capitals, isAsciiNumeral_capitals]
  split
  · next hdigits =>
    rw [capitals_of_isAsciiNumeral hdigits]
    cases asciiNumeral? (signedDigits text).2 with
    | none => exact .longNumeral
    | some n =>
      dsimp only
      generalize (if (signedDigits text).1 then -(n : Int) else n) = step
      split
      · exact .problem _ _
      · exact .ok step
  · exact .problem _ _

theorem alike_readSpan (item : List Char) :
    Alike (readSpan d item) (readSpan d (capitals item)) := by
  have hslash : '/' ∈ signs := by decide
  unfold readSpan
  simp only [mem_capitals hslash, before_capitals hslash, after_capitals hslash]
  split
  · exact (alike_readStep _ _ _).bind fun step => (alike_readBase d _).bind fun span => .ok _
  · exact (alike_readBase d _).bind fun span => .ok _

theorem alike_readLast (item : List Char) :
    Alike (readLast f item) (readLast f (capitals item)) := by
  unfold readLast
  rw [upper_capitals]
  dsimp only
  split
  · split
    · exact .ok _
    · exact .problem _ _
  · split
    · exact .ok _
    · cases besideLast (upper item) with
      | none => exact .problem _ _
      | some weekday =>
        dsimp only
        split
        · exact (Alike.refl _).map _
        · exact .problem _ _

theorem alike_readItem (text text' item : List Char) :
    Alike (readItem f text item) (readItem f text' (capitals item)) := by
  unfold readItem
  simp only [strip_capitals, isEmpty_capitals, upper_capitals]
  split
  · exact .problem _ _
  · split
    · exact alike_readLast f _
    · exact alike_readSpan f.domain _

/-- A field is read alike in capitals. -/
theorem alike_read (text : List Char) : Alike (f.read text) (f.read (capitals text)) := by
  have hstar : '*' ∈ signs := by decide
  have hquestion : '?' ∈ signs := by decide
  have hcomma : ',' ∈ signs := by decide
  unfold read
  simp only [strip_capitals, capitals_eq_singleton hstar, capitals_eq_singleton hquestion,
    isEmpty_capitals, pieces_capitals hcomma]
  split
  · exact .ok _
  · split
    · exact .problem _ _
    · exact (Alike.mapM (fun item => alike_readItem f _ _ item) _).map _

/-- Texts that are the same in capitals compile alike. -/
theorem alike_compile {text text' : List Char} (h : capitals text = capitals text') :
    Alike (f.compile text) (f.compile text') := by
  have hread := alike_read f text
  rw [h] at hread
  exact (hread.trans (alike_read f text').symm).map _

end Field

/-! ### Alternatives -/

/-- Fields that are the same in capitals are compiled with the same success. -/
theorem agree_compileFields_of_capitals (expression expression' : String) (fields : List Field) :
    ∀ (position position' : Nat) {texts texts' : List (List Char)},
      texts.map capitals = texts'.map capitals →
      Agree (compileFields expression position (fields.zip texts))
        (compileFields expression' position' (fields.zip texts')) := by
  induction fields with
  | nil => exact fun _ _ _ _ _ => .ok []
  | cons f fields ih =>
    intro position position' texts texts' h
    cases texts with
    | nil =>
      rw [List.map_eq_nil_iff.mp h.symm]
      exact .ok []
    | cons text texts =>
      obtain ⟨text', rest, rfl, htext, hrest⟩ := List.map_eq_cons_iff.mp h.symm
      have hcompile := f.alike_compile htext.symm
      rw [List.zip_cons_cons, List.zip_cons_cons, compileFields, compileFields]
      generalize f.compile text = r at hcompile
      generalize f.compile text' = r' at hcompile
      cases hcompile with
      | ok m => exact (ih (position + 1) (position' + 1) hrest.symm).map _
      | problem p q => exact .error (by simp)
      | longNumeral => exact .error (by simp)

theorem isEmpty_strip (s : List Char) : (strip s).isEmpty = (words s).isEmpty := by
  rw [Bool.eq_iff_iff, List.isEmpty_iff, List.isEmpty_iff]
  constructor
  · intro h
    rw [← words_strip, h, words_nil]
  · exact strip_eq_nil_of_words

/-- Only a text of one word is an alias. -/
theorem words_of_find_aliases {s : List Char} {entry : String × String}
    (h : (aliases.find? fun entry => entry.1.toList == lower (strip s)) = some entry) :
    words s = [strip s] := by
  have hall : ∀ entry ∈ aliases,
      entry.1.toList ≠ [] ∧ entry.1.toList.all (fun c => !isBlank c) = true := by decide
  obtain ⟨hne, hsolid⟩ := hall entry (List.mem_of_find?_eq_some h)
  have hlower : entry.1.toList = lower (strip s) := by simpa using List.find?_some h
  rw [hlower] at hne hsolid
  rw [← words_strip]
  refine words_eq_singleton (fun hnil => hne (by rw [hnil, lower_nil])) fun c hc => ?_
  have hmem : lowerChar c ∈ lower (strip s) := List.mem_map_of_mem hc
  refine Bool.eq_false_iff.mpr fun hblank => ?_
  have hsolid := List.all_eq_true.mp hsolid _ hmem
  rw [lowerChar_of_isBlank hblank, hblank] at hsolid
  cases hsolid

/-- So a text is expanded word by word. -/
theorem words_expandAlias_strip (s : List Char) :
    words (expandAlias (strip s)) =
      match words s with
      | [w] => words (expandAlias w)
      | ws => ws := by
  split
  · next w hwords => rw [strip_eq_of_words_eq hwords]
  · next hmore =>
    have hnone : (aliases.find? fun entry => entry.1.toList == lower (strip s)) = none := by
      refine Option.eq_none_iff_forall_ne_some.mpr fun entry h => ?_
      exact hmore _ (words_of_find_aliases h)
    rw [expandAlias, hnone, words_strip]

theorem capitals_words_expandAlias {w w' : List Char} (h : capitals w = capitals w') :
    (words (expandAlias w)).map capitals = (words (expandAlias w')).map capitals := by
  have hlower : lower w = lower w' := by rw [← lower_capitals, h, lower_capitals]
  unfold expandAlias
  rw [hlower]
  cases aliases.find? fun entry => entry.1.toList == lower w' with
  | some entry => rfl
  | none => rw [← words_capitals, h, words_capitals]

/-- Texts whose words are the same in capitals are expanded to fields that are. -/
theorem capitals_words_expandAlias_strip {s s' : List Char}
    (h : (words s).map capitals = (words s').map capitals) :
    (words (expandAlias (strip s))).map capitals =
      (words (expandAlias (strip s'))).map capitals := by
  rw [words_expandAlias_strip, words_expandAlias_strip]
  generalize words s = ws at h
  generalize words s' = ws' at h
  match ws, ws', h with
  | [], [], _ => rfl
  | [w], [w'], h => exact capitals_words_expandAlias (List.cons.inj h).1
  | _ :: _ :: _, _ :: _ :: _, h => exact h
  | [_], _ :: _ :: _, h | _ :: _ :: _, [_], h => cases (List.cons.inj h).2

/-- Alternatives whose words are the same in capitals are compiled with the same success. -/
theorem agree_compileAlternative_of_words (expression expression' : String) (index index' : Nat)
    {s s' : List Char} (h : (words s).map capitals = (words s').map capitals) :
    Agree (compileAlternative expression index s) (compileAlternative expression' index' s') := by
  have hparts := capitals_words_expandAlias_strip h
  have hcount : (words (expandAlias (strip s))).length =
      (words (expandAlias (strip s'))).length := by
    simpa using congrArg List.length hparts
  have hempty : (words s).isEmpty = (words s').isEmpty := by
    simpa using congrArg List.isEmpty h
  rw [compileAlternative, compileAlternative]
  dsimp only
  rw [isEmpty_strip, isEmpty_strip, hempty, hcount]
  split
  · exact .error (by simp)
  · cases Layout.ofCount? (words (expandAlias (strip s'))).length with
    | none => exact .error (by simp)
    | some layout =>
      exact (agree_compileFields_of_capitals expression expression' _ 0 0 hparts).map _

/-! ### Expressions -/

/-- The words of each alternative, in capitals. -/
def spelling (text : List Char) : List (List (List Char)) :=
  (pieces '|' (capitals text)).map words

theorem spelling_eq (text : List Char) :
    spelling text = (pieces '|' text).map fun segment => (words segment).map capitals := by
  rw [spelling, pieces_capitals (by decide), List.map_map]
  exact List.map_congr_left fun segment _ => words_capitals segment

/-- Expressions with the same words in capitals are read with the same success. -/
theorem Pattern.agree_read_of_spelling {a b : String} (h : spelling a.toList = spelling b.toList) :
    Agree (read a) (read b) := by
  rw [spelling_eq, spelling_eq] at h
  have hparts : Agree (compileAlternatives a 0 (pieces '|' a.toList))
      (compileAlternatives b 0 (pieces '|' b.toList)) :=
    agree_compileAlternatives
      (fun i i' _ _ hs => agree_compileAlternative_of_words a b i i' hs) 0 0 h
  exact (agree_read a a 0).trans (hparts.trans (agree_read b b 0).symm)

/-! ### Touching up a text -/

/-- A blank between the two texts would stand at an end, beside a bar or beside a blank. -/
def Loose (s t : List Char) : Prop :=
  (∀ c ∈ s.getLast?, isBlank c = true ∨ c = '|') ∨ ∀ c ∈ t.head?, isBlank c = true ∨ c = '|'

/-- A small change to a text that a reader would not call a change of what is written. -/
inductive Retouch : List Char → List Char → Prop
  /-- a letter is made a capital -/
  | capital (s t : List Char) (c : Char) : Retouch (s ++ c :: t) (s ++ c.toUpper :: t)
  /-- a blank is put in at an end, beside a bar or beside a blank -/
  | blank (s t : List Char) {b : Char} (hb : isBlank b = true) (hloose : Loose s t) :
    Retouch (s ++ t) (s ++ b :: t)

/-- A blank beside the end of a text or another blank makes no further words. -/
theorem words_insert_blank {b : Char} (hb : isBlank b = true) {p q : List Char}
    (h : (∀ c ∈ p.getLast?, isBlank c = true) ∨ ∀ c ∈ q.head?, isBlank c = true) :
    words (p ++ b :: q) = words (p ++ q) := by
  rw [words_append_of_isBlank hb]
  rcases h with hp | hq
  · rcases List.eq_nil_or_concat p with rfl | ⟨front, c, rfl⟩
    · rfl
    · have hc : isBlank c = true := hp c (by simp)
      rw [List.concat_eq_append, words_concat_of_isBlank hc, List.append_assoc,
        List.singleton_append, words_append_of_isBlank hc]
  · cases q with
    | nil => rw [words_nil, List.append_nil, List.append_nil]
    | cons c q =>
      have hc : isBlank c = true := hq c rfl
      rw [words_append_of_isBlank hc, words_blank hc]

/-- What is touched up keeps its spelling. -/
theorem Retouch.spelling_eq {s t : List Char} (h : Retouch s t) : spelling s = spelling t := by
  cases h with
  | capital s t c =>
    have hsame : capitals (s ++ c :: t) = capitals (s ++ c.toUpper :: t) := by
      rw [capitals_append, capitals_append, capitals_cons, capitals_cons, toUpper_toUpper]
    rw [spelling, spelling, hsame]
  | @blank s t b hb hloose =>
    have hbar : b ≠ '|' := by
      rintro rfl
      cases hb
    obtain ⟨front, last, hs⟩ : ∃ front last, pieces '|' s = front ++ [last] :=
      ⟨_, _, (List.dropLast_concat_getLast (pieces_ne_nil '|' s)).symm⟩
    obtain ⟨first, back, ht, hcons⟩ := pieces_cons_of_ne hbar t
    -- beside a bar the piece is at its end
    have hwords : words (last ++ b :: first) = words (last ++ first) := by
      refine words_insert_blank hb (hloose.imp (fun hend c hc => ?_) fun hend c hc => ?_)
      · have hmem : last ∈ pieces '|' s := hs ▸ List.mem_append_right _ List.mem_cons_self
        refine (hend c ?_).resolve_right ?_
        · obtain ⟨u, rfl⟩ := suffix_of_pieces hs
          rw [List.getLast?_append, Option.mem_def.mp hc, Option.some_or]
          rfl
        · rintro rfl
          exact not_mem_of_mem_pieces hmem (List.mem_of_getLast? hc)
      · have hmem : first ∈ pieces '|' t := ht ▸ List.mem_cons_self
        refine (hend c ?_).resolve_right ?_
        · obtain ⟨u, rfl⟩ := prefix_of_pieces ht
          rw [List.head?_append, Option.mem_def.mp hc, Option.some_or]
          rfl
        · rintro rfl
          exact not_mem_of_mem_pieces hmem (List.mem_of_head? hc)
    rw [CronSchedule.spelling_eq, CronSchedule.spelling_eq, pieces_append_of_eq hs ht,
      pieces_append_of_eq hs hcons]
    simp [hwords]

/-- However often a text is touched up, and the changes taken back, it keeps its spelling. -/
theorem spelling_eq_of_eqvGen {s t : List Char} (h : Relation.EqvGen Retouch s t) :
    spelling s = spelling t := by
  induction h with
  | rel s t h => exact h.spelling_eq
  | refl s => rfl
  | symm s t _ ih => exact ih.symm
  | trans s t u _ _ ih ih' => exact ih.trans ih'

/-- Of two expressions that differ in the case of letters, and in blanks at the ends, beside bars
and beside other blanks, either both compile, and to the same alternatives, or neither does, and
for errors of one class. -/
theorem Pattern.compile_retouched {a b : String}
    (h : Relation.EqvGen Retouch a.toList b.toList) :
    (∃ p q, compile a = .ok p ∧ compile b = .ok q ∧ p.alternatives = q.alternatives) ∨
      ∃ e e', compile a = .error e ∧ compile b = .error e' ∧ e.kind = e'.kind := by
  have hread := agree_read_of_spelling (spelling_eq_of_eqvGen h)
  unfold compile
  generalize read a = r at hread
  generalize read b = r' at hread
  cases hread with
  | ok alternatives => exact .inl ⟨_, _, rfl, rfl, rfl⟩
  | error hkind => exact .inr ⟨_, _, rfl, rfl, hkind⟩

/-- Noon on the last day of the month, or every midnight, written with and without capitals and
blanks. -/
theorem Pattern.compile_retouched_lastDay :
    ∃ p q, compile "0 12 l * *|@daily" = .ok p ∧ compile "0 12 L * * | @daily" = .ok q ∧
      p.alternatives = q.alternatives := by
  have hbar : Loose "0 12 L * *".toList "|@daily".toList :=
    .inr fun c hc => .inr (Option.some.inj hc).symm
  have hbehind : Loose "0 12 L * * |".toList "@daily".toList :=
    .inl fun c hc => .inr (Option.some.inj hc).symm
  have hchain : Relation.EqvGen Retouch "0 12 l * *|@daily".toList "0 12 L * * | @daily".toList :=
    ((Relation.EqvGen.rel _ _ (.capital "0 12 ".toList " * *|@daily".toList 'l')).trans _ _ _
      (.rel _ _ (.blank _ _ (by decide) hbar))).trans _ _ _
      (.rel _ _ (.blank _ _ (by decide) hbehind))
  refine (Pattern.compile_retouched hchain).resolve_right ?_
  rintro ⟨e, e', he, -⟩
  have hok : (compile "0 12 l * *|@daily").toOption.isSome = true := by decide +kernel
  rw [he] at hok
  cases hok

end CronSchedule
