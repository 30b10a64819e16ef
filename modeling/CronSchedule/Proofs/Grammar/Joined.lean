import CronSchedule.Error
import CronSchedule.Proofs.Text.Cut

/-!
# Expressions joined with a bar

Two texts with a bar between them are read as one expression just where each of them is, and
the alternatives are those of the first and then those of the second.  Where one of them is
not read, the joined text is refused in the same class: a report names the whole expression
and counts the alternatives from its beginning, but the class is that of the one fault.

What is load-bearing are the ends.  The whole text is trimmed before it is cut, and a text
that is blank is refused in another way than a blank alternative.  Trimmed parts do not tell
the first, and the class does not tell the second, so reading is compared with compiling the
parts of the text as it stands, and these are the parts of the two texts in a row.

* `CompileError.kind` — the class in which an error of compiling is raised;
* `Agree` — the same success, or errors of the same class, with its laws;
* `compileAlternatives_append` — parts in a row are compiled one row after the other;
* `Pattern.agree_read` — reading agrees with compiling the parts of the text as it stands;
* `Pattern.agree_read_joined` — and so reading is compatible with joining;
* `Pattern.read_joined` — what becomes of a joined text, case by case.
-/

namespace CronSchedule

open Text

/-! ### Agreement up to the class of an error -/

/-- The class in which an error of compiling is raised, or the failure that has no class. -/
def CompileError.kind (e : CompileError) : Except Fault ErrorClass :=
  (Error.compile e).report.map Report.kind

namespace CompileError

@[simp] theorem kind_blank (expression : String) : (blank expression).kind = .ok .shape := rfl

@[simp] theorem kind_blankAlternative (expression : String) (index : Nat) :
    (blankAlternative expression index).kind = .ok .shape := rfl

@[simp] theorem kind_fieldCount (expression : String) (index count : Nat) (segment : List Char) :
    (fieldCount expression index count segment).kind = .ok .shape := rfl

@[simp] theorem kind_ofField (expression : String) (position : Int) (f : Field)
    (fault : FieldFault) : (ofField expression position f fault).kind =
      match fault with
      | .problem _ => .ok .field
      | .longNumeral => .error .unreadableNumeral := by
  cases fault <;> rfl

end CompileError

/-- The same success, or errors of the same class. -/
inductive Agree {α : Type} : Except CompileError α → Except CompileError α → Prop
  | ok (a : α) : Agree (.ok a) (.ok a)
  | error {e e' : CompileError} : e.kind = e'.kind → Agree (.error e) (.error e')

namespace Agree

variable {α β : Type} {r r' r'' : Except CompileError α} {a : α} {e : CompileError}

theorem symm (h : Agree r r') : Agree r' r := by
  cases h with
  | ok a => exact .ok a
  | error hkind => exact .error hkind.symm

theorem trans (h : Agree r r') (h' : Agree r' r'') : Agree r r'' := by
  cases h with
  | ok a => exact h'
  | error hkind =>
    cases h' with
    | error hkind' => exact .error (hkind.trans hkind')

theorem bind {k k' : α → Except CompileError β} (h : Agree r r')
    (hthen : ∀ a, Agree (k a) (k' a)) : Agree (r >>= k) (r' >>= k') := by
  cases h with
  | ok a => exact hthen a
  | error hkind => exact .error hkind

theorem map (f : α → β) (h : Agree r r') : Agree (r.map f) (r'.map f) := by
  cases h with
  | ok a => exact .ok (f a)
  | error hkind => exact .error hkind

theorem eq_ok (h : Agree r (.ok a)) : r = .ok a := by
  cases h with
  | ok => rfl

theorem exists_error (h : Agree r (.error e)) : ∃ e', r = .error e' ∧ e'.kind = e.kind := by
  cases h with
  | error hkind => exact ⟨_, rfl, hkind⟩

end Agree

/-! ### The place of an alternative -/

/-- The expression around a field and its position matter to a report only. -/
theorem agree_compileFields (expression expression' : String) (texts : List (Field × List Char)) :
    ∀ position position', Agree (compileFields expression position texts)
      (compileFields expression' position' texts) := by
  induction texts with
  | nil => exact fun _ _ => .ok []
  | cons x texts ih =>
    intro position position'
    obtain ⟨f, text⟩ := x
    rw [compileFields, compileFields]
    cases f.compile text with
    | error fault => exact .error (by rw [CompileError.kind_ofField, CompileError.kind_ofField])
    | ok m => exact (ih (position + 1) (position' + 1)).map _

/-- So do the expression around an alternative, its index, and blanks at its ends. -/
theorem agree_compileAlternative (expression expression' : String) (index index' : Nat)
    {segment segment' : List Char} (h : strip segment = strip segment') :
    Agree (compileAlternative expression index segment)
      (compileAlternative expression' index' segment') := by
  rw [compileAlternative, compileAlternative, h]
  dsimp only
  split
  · exact .error (by simp)
  · cases Layout.ofCount? (words (expandAlias (strip segment'))).length with
    | none => exact .error (by simp)
    | some layout => exact (agree_compileFields expression expression' _ 0 0).map _

theorem compileAlternatives_cons (expression : String) (index : Nat) (segment : List Char)
    (segments : List (List Char)) :
    compileAlternatives expression index (segment :: segments) =
      (do
        let a ← compileAlternative expression index segment
        let as ← compileAlternatives expression (index + 1) segments
        return a :: as) := by
  rw [compileAlternatives]
  cases compileAlternative expression index segment with
  | error e => rfl
  | ok a => cases compileAlternatives expression (index + 1) segments <;> rfl

/-- Alternatives of which each pair is compiled with the same success are so in a row, whatever
it is that each pair has in common. -/
theorem agree_compileAlternatives {κ : Type} {key : List Char → κ}
    {expression expression' : String}
    (hkey : ∀ (index index' : Nat) (s s' : List Char), key s = key s' →
      Agree (compileAlternative expression index s) (compileAlternative expression' index' s'))
    {segments : List (List Char)} :
    ∀ {segments' : List (List Char)} (index index' : Nat),
      segments.map key = segments'.map key →
      Agree (compileAlternatives expression index segments)
        (compileAlternatives expression' index' segments') := by
  induction segments with
  | nil =>
    intro segments' index index' h
    rw [List.map_eq_nil_iff.mp h.symm]
    exact .ok []
  | cons segment segments ih =>
    intro segments' index index' h
    obtain ⟨segment', rest, rfl, hsegment, hrest⟩ := List.map_eq_cons_iff.mp h.symm
    rw [compileAlternatives_cons, compileAlternatives_cons]
    exact (hkey index index' segment segment' hsegment.symm).bind
      fun a => (ih (index + 1) (index' + 1) hrest.symm).bind fun as => .ok (a :: as)

/-! ### Alternatives in a row -/

/-- Alternatives in a row are compiled one row after the other. -/
theorem compileAlternatives_append (expression : String) (segments segments' : List (List Char)) :
    ∀ index, compileAlternatives expression index (segments ++ segments') =
      (do
        let as ← compileAlternatives expression index segments
        let bs ← compileAlternatives expression (index + segments.length) segments'
        return as ++ bs) := by
  induction segments with
  | nil =>
    intro index
    exact (bind_pure _).symm
  | cons segment segments ih =>
    intro index
    have hindex : index + (segment :: segments).length = index + 1 + segments.length := by
      rw [List.length_cons]
      omega
    rw [List.cons_append, compileAlternatives_cons, compileAlternatives_cons, ih, hindex]
    simp only [bind_assoc, pure_bind, List.cons_append]

namespace Pattern

/-- Reading agrees with compiling the parts of the text as it stands. -/
theorem agree_read (expression around : String) (index : Nat) :
    Agree (read expression)
      (compileAlternatives around index (pieces '|' expression.toList)) := by
  have hparts : (pieces '|' (strip expression.toList)).map strip =
      (pieces '|' expression.toList).map strip := map_strip_pieces_strip (by decide) _
  have hcompile (segments segments' : List (List Char)) (start : Nat)
      (h : segments.map strip = segments'.map strip) :
      Agree (compileAlternatives expression start segments)
        (compileAlternatives around index segments') :=
    agree_compileAlternatives
      (fun i i' _ _ hs => agree_compileAlternative expression around i i' hs) start index h
  rw [read]
  split
  · rename_i hempty
    -- the text is one part, which is refused as a blank alternative
    rw [List.isEmpty_iff.mp hempty, pieces_nil] at hparts
    refine Agree.trans ?_ (hcompile _ _ 0 hparts)
    exact .error (by simp)
  · exact hcompile _ _ 0 hparts

/-- Reading is compatible with joining. -/
theorem agree_read_joined (a b : String) :
    Agree (read (a ++ "|" ++ b)) (do
      let as ← read a
      let bs ← read b
      return as ++ bs) := by
  have htext : (a ++ "|" ++ b).toList = a.toList ++ '|' :: b.toList := by
    rw [String.toList_append, String.toList_append, List.append_assoc]
    rfl
  have hread := agree_read (a ++ "|" ++ b) (a ++ "|" ++ b) 0
  rw [htext, pieces_append, compileAlternatives_append] at hread
  refine hread.trans (Agree.bind ?_ fun as => Agree.bind ?_ fun bs => .ok (as ++ bs))
  · exact (agree_read a (a ++ "|" ++ b) 0).symm
  · exact (agree_read b (a ++ "|" ++ b) _).symm

section

variable {a b : String} {as bs : List Alternative} {e : CompileError}

theorem read_joined_of_ok (ha : read a = .ok as) (hb : read b = .ok bs) :
    read (a ++ "|" ++ b) = .ok (as ++ bs) := by
  have hagree := agree_read_joined a b
  rw [ha, hb] at hagree
  exact hagree.eq_ok

theorem exists_error_of_left (ha : read a = .error e) :
    ∃ e', read (a ++ "|" ++ b) = .error e' ∧ e'.kind = e.kind := by
  have hagree := agree_read_joined a b
  rw [ha] at hagree
  exact hagree.exists_error

theorem exists_error_of_right (ha : read a = .ok as) (hb : read b = .error e) :
    ∃ e', read (a ++ "|" ++ b) = .error e' ∧ e'.kind = e.kind := by
  have hagree := agree_read_joined a b
  rw [ha, hb] at hagree
  exact hagree.exists_error

end

/-- Two texts joined with a bar are read exactly if both texts are, and the alternatives are
those of the first and then those of the second.  If one of them is not read, the error is of
the class of the first one's, or if the first one is read of the second one's. -/
theorem read_joined (a b : String) :
    ((∃ alternatives, read (a ++ "|" ++ b) = .ok alternatives) ↔
      (∃ as, read a = .ok as) ∧ ∃ bs, read b = .ok bs) ∧
    (∀ as bs, read a = .ok as → read b = .ok bs → read (a ++ "|" ++ b) = .ok (as ++ bs)) ∧
    (∀ e, read a = .error e → ∃ e', read (a ++ "|" ++ b) = .error e' ∧ e'.kind = e.kind) ∧
    ∀ as e, read a = .ok as → read b = .error e →
      ∃ e', read (a ++ "|" ++ b) = .error e' ∧ e'.kind = e.kind := by
  refine ⟨⟨?_, ?_⟩, fun _ _ => read_joined_of_ok, fun _ => exists_error_of_left,
    fun _ _ => exists_error_of_right⟩
  · rintro ⟨alternatives, hread⟩
    cases ha : read a with
    | error e =>
      obtain ⟨e', he', -⟩ := exists_error_of_left (b := b) ha
      rw [hread] at he'
      cases he'
    | ok as =>
      cases hb : read b with
      | error e =>
        obtain ⟨e', he', -⟩ := exists_error_of_right ha hb
        rw [hread] at he'
        cases he'
      | ok bs => exact ⟨⟨as, rfl⟩, ⟨bs, rfl⟩⟩
  · rintro ⟨⟨as, ha⟩, ⟨bs, hb⟩⟩
    exact ⟨as ++ bs, read_joined_of_ok ha hb⟩

end Pattern

end CronSchedule
