import CronSchedule.Proofs.Meaning.Item
import CronSchedule.Proofs.Text.Cut
import CronSchedule.Proofs.Text.Runs
import Mathlib.Data.List.Forall2

/-!
# What the readers of values, ranges and steps accept

A reader succeeds on the texts of its grammar, and on no others.  There is one exception, a
numeral that is too long to be read: a reader that comes to one stops there, even where the
text is of the grammar.  Where it stops depends on the order in which it goes through the
text, so the place is described along with the grammar.

* `Reads` — what a reader accepts, and where it stops, with the laws for readers in sequence;
* `Passes` — the same without regard to what is read;
* `Stops` — the first member of a list that does not pass stops the reading of the list;
* `Field.reads_readValue`, `Field.reads_readBase`, `Field.reads_readStep` — the readers of the
  parts of an item.
-/

namespace CronSchedule

open Text

/-! ### Readers -/

/-- The result is `stop` exactly when the text is such that reading stops, and else it is what
the grammar has for the text, if anything. -/
structure Reads {ε α : Type} (stop : ε) (result : Except ε α) (good : α → Prop) (long : Prop) :
    Prop where
  sound : ∀ {a}, result = .ok a → good a
  complete : ∀ {a}, good a → result = .ok a ∨ result = .error stop
  stops_iff : result = .error stop ↔ long

namespace Reads

variable {ε α β : Type} {stop : ε} {result : Except ε α} {good good' : α → Prop}
  {long long' : Prop}

theorem congr (h : Reads stop result good long) (hgood : ∀ a, good a ↔ good' a)
    (hlong : long ↔ long') : Reads stop result good' long' where
  sound hok := (hgood _).mp (h.sound hok)
  complete ha := h.complete ((hgood _).mpr ha)
  stops_iff := h.stops_iff.trans hlong

theorem ok (a : α) : Reads stop (.ok a) (· = a) False where
  sound hok := (Except.ok.inj hok).symm
  complete ha := .inl (ha ▸ rfl)
  stops_iff := ⟨fun h => (by cases h), False.elim⟩

theorem error {e : ε} (hne : e ≠ stop) :
    Reads stop (.error e : Except ε α) (fun _ => False) False where
  sound hok := by cases hok
  complete hfalse := hfalse.elim
  stops_iff := ⟨fun h => hne (Except.error.inj h), False.elim⟩

/-- A check that refuses with another error. -/
theorem ite_ok {p : Prop} [Decidable p] {e : ε} (hne : e ≠ stop) (a : α) :
    Reads stop (if p then .ok a else .error e : Except ε α) (fun b => b = a ∧ p) False := by
  split
  · rename_i hp
    exact (ok a).congr (fun b => (and_iff_left hp).symm) Iff.rfl
  · rename_i hp
    exact (error hne).congr (fun b => (iff_false_intro fun h => hp h.2).symm) Iff.rfl

theorem ite_error {p : Prop} [Decidable p] {e : ε} (hne : e ≠ stop) (a : α) :
    Reads stop (if p then .error e else .ok a : Except ε α) (fun b => b = a ∧ ¬ p) False := by
  rw [← ite_not]
  exact ite_ok hne a

theorem stopped (hlong : long) : Reads stop (.error stop : Except ε α) good long where
  sound hok := by cases hok
  complete _ := .inr rfl
  stops_iff := ⟨fun _ => hlong, fun _ => rfl⟩

/-- Of two readers in sequence the second runs only where the first has succeeded. -/
theorem bind {k : α → Except ε β} {goodThen : α → β → Prop} {longThen : α → Prop}
    (h : Reads stop result good long)
    (hthen : ∀ a, good a → Reads stop (k a) (goodThen a) (longThen a)) :
    Reads stop (result >>= k) (fun b => ∃ a, good a ∧ goodThen a b)
      (long ∨ ∃ a, good a ∧ longThen a) := by
  cases hresult : result with
  | ok a =>
    have ha : good a := h.sound hresult
    have hunique : ∀ {a'}, good a' → a' = a := by
      intro a' ha'
      rcases h.complete ha' with hok | hstop
      · exact Except.ok.inj (hok.symm.trans hresult)
      · rw [hresult] at hstop
        cases hstop
    have hgoes : ¬ long := by
      intro hlong
      have hstop := h.stops_iff.mpr hlong
      rw [hresult] at hstop
      cases hstop
    refine ⟨fun hok => ⟨a, ha, (hthen a ha).sound hok⟩, ?_, ?_⟩
    · rintro b ⟨a', ha', hb⟩
      obtain rfl := hunique ha'
      exact (hthen a' ha').complete hb
    · refine (hthen a ha).stops_iff.trans ⟨fun hlong => .inr ⟨a, ha, hlong⟩, ?_⟩
      rintro (hlong | ⟨a', ha', hlong⟩)
      · exact absurd hlong hgoes
      · obtain rfl := hunique ha'
        exact hlong
  | error e =>
    have hstopped : ∀ {a'}, good a' → e = stop := by
      intro a' ha'
      rcases h.complete ha' with hok | hstop
      · rw [hresult] at hok
        cases hok
      · exact Except.error.inj (hresult.symm.trans hstop)
    refine ⟨fun hok => (by cases hok), ?_, ?_⟩
    · rintro b ⟨a', ha', -⟩
      exact .inr (congrArg Except.error (hstopped ha'))
    · constructor
      · exact fun hstop => .inl (h.stops_iff.mp (hresult.trans
          (congrArg Except.error (Except.error.inj hstop))))
      · rintro (hlong | ⟨a', ha', -⟩)
        · exact congrArg Except.error (Except.error.inj (hresult.symm.trans
            (h.stops_iff.mpr hlong)))
        · exact congrArg Except.error (hstopped ha')

theorem map (f : α → β) (h : Reads stop result good long) :
    Reads stop (result.map f) (fun b => ∃ a, good a ∧ b = f a) long := by
  have hbind := h.bind fun a _ => (Reads.ok (f a) : Reads stop _ _ _)
  have hmap : result.map f = result >>= fun a => .ok (f a) := by cases result <;> rfl
  rw [hmap]
  refine hbind.congr (fun b => Iff.rfl) ⟨?_, .inl⟩
  rintro (hlong | ⟨a, -, hfalse⟩)
  · exact hlong
  · exact hfalse.elim

end Reads

/-- The result is `stop` exactly when the text is such that reading stops, and else there is
one exactly when the text is of the grammar. -/
structure Passes {ε α : Type} (stop : ε) (result : Except ε α) (good long : Prop) : Prop where
  sound : ∀ {a}, result = .ok a → good
  complete : good → (∃ a, result = .ok a) ∨ result = .error stop
  stops_iff : result = .error stop ↔ long

theorem Reads.passes {ε α : Type} {stop : ε} {result : Except ε α} {good : α → Prop} {long : Prop}
    (h : Reads stop result good long) : Passes stop result (∃ a, good a) long where
  sound hok := ⟨_, h.sound hok⟩
  complete := by
    rintro ⟨a, ha⟩
    exact (h.complete ha).imp_left fun hok => ⟨a, hok⟩
  stops_iff := h.stops_iff

namespace Passes

variable {ε ε' α β γ : Type} {stop : ε} {stop' : ε'} {result : Except ε α}
  {good good' long long' : Prop}

theorem congr (h : Passes stop result good long) (hgood : good ↔ good') (hlong : long ↔ long') :
    Passes stop result good' long' where
  sound hok := hgood.mp (h.sound hok)
  complete hgood' := h.complete (hgood.mpr hgood')
  stops_iff := h.stops_iff.trans hlong

theorem ok (a : α) : Passes stop (.ok a) True False where
  sound _ := trivial
  complete _ := .inl ⟨a, rfl⟩
  stops_iff := ⟨fun h => (by cases h), False.elim⟩

theorem error {e : ε} (hne : e ≠ stop) : Passes stop (.error e : Except ε α) False False where
  sound hok := by cases hok
  complete hfalse := hfalse.elim
  stops_iff := ⟨fun h => hne (Except.error.inj h), False.elim⟩

theorem map (f : α → β) (h : Passes stop result good long) :
    Passes stop (result.map f) good long := by
  cases result with
  | ok a =>
    refine ⟨fun _ => h.sound rfl, fun _ => .inl ⟨f a, rfl⟩, ⟨fun hstop => (by cases hstop), ?_⟩⟩
    intro hlong
    cases h.stops_iff.mpr hlong
  | error e =>
    refine ⟨fun hok => (by cases hok), fun hgood => .inr ?_, ?_⟩
    · rcases h.complete hgood with ⟨a, hok⟩ | hstop
      · cases hok
      · exact congrArg Except.error (Except.error.inj hstop)
    · rw [← h.stops_iff]
      exact ⟨fun h => congrArg Except.error (Except.error.inj h),
        fun h => congrArg Except.error (Except.error.inj h)⟩

/-- Where what follows a reader is read once the reader has succeeded, and its errors are
handed on, reading the whole stops at the first of the two that does not pass. -/
theorem followed {rest : Except ε' β} {whole : Except ε' γ} (wrap : ε → ε') (f : α → β → γ)
    (hwrap : ∀ e, wrap e = stop' ↔ e = stop)
    (herror : ∀ e, result = .error e → whole = .error (wrap e))
    (hok : ∀ a, result = .ok a → whole = rest.map (f a))
    (h : Passes stop result good long) (hrest : Passes stop' rest good' long') :
    Passes stop' whole (good ∧ good') (long ∨ good ∧ long') := by
  cases hresult : result with
  | ok a =>
    rw [hok a hresult]
    have hgood : good := h.sound hresult
    have hgoes : ¬ long := by
      intro hlong
      have hstop := h.stops_iff.mpr hlong
      rw [hresult] at hstop
      cases hstop
    refine (hrest.map (f a)).congr ⟨fun hrest => ⟨hgood, hrest⟩, And.right⟩ ⟨?_, ?_⟩
    · exact fun hlong => .inr ⟨hgood, hlong⟩
    · rintro (hlong | ⟨-, hlong⟩)
      · exact absurd hlong hgoes
      · exact hlong
  | error e =>
    rw [herror e hresult]
    rw [hresult] at h
    have hstop : good → e = stop := by
      intro hgood
      rcases h.complete hgood with ⟨a, hok⟩ | hstop
      · cases hok
      · exact Except.error.inj hstop
    have hlong : long ↔ e = stop :=
      h.stops_iff.symm.trans ⟨Except.error.inj, congrArg Except.error⟩
    refine ⟨fun hok => (by cases hok), ?_, ?_⟩
    · exact fun hgood => .inr (congrArg Except.error ((hwrap e).mpr (hstop hgood.1)))
    · constructor
      · exact fun h => .inl (hlong.mpr ((hwrap e).mp (Except.error.inj h)))
      · rintro (h | ⟨hgood, -⟩)
        · exact congrArg Except.error ((hwrap e).mpr (hlong.mp h))
        · exact congrArg Except.error ((hwrap e).mpr (hstop hgood))

end Passes

/-! ### Readers of lists -/

/-- A member of the list stops its reading, and those before it pass. -/
inductive Stops {α : Type} (good long : α → Prop) : List α → Prop
  | head {x : α} {xs : List α} : long x → Stops good long (x :: xs)
  | tail {x : α} {xs : List α} : good x → Stops good long xs → Stops good long (x :: xs)

theorem Stops.cons_iff {α : Type} {good long : α → Prop} {x : α} {xs : List α} :
    Stops good long (x :: xs) ↔ long x ∨ good x ∧ Stops good long xs := by
  constructor
  · intro h
    cases h with
    | head hlong => exact .inl hlong
    | tail hgood hstops => exact .inr ⟨hgood, hstops⟩
  · rintro (hlong | ⟨hgood, hstops⟩)
    · exact .head hlong
    · exact .tail hgood hstops

theorem Stops.exists_mem {α : Type} {good long : α → Prop} {xs : List α}
    (h : Stops good long xs) : ∃ x ∈ xs, long x := by
  induction h with
  | head hlong => exact ⟨_, List.mem_cons_self, hlong⟩
  | tail _ _ ih =>
    obtain ⟨x, hx, hlong⟩ := ih
    exact ⟨x, List.mem_cons_of_mem _ hx, hlong⟩

/-- A list is read member by member. -/
theorem Reads.mapM {ε α β : Type} {stop : ε} {read : α → Except ε β} {good : α → β → Prop}
    {long : α → Prop} (h : ∀ x, Reads stop (read x) (good x) (long x)) (xs : List α) :
    Reads stop (xs.mapM read) (List.Forall₂ good xs) (Stops (fun x => ∃ y, good x y) long xs) := by
  induction xs with
  | nil =>
    rw [List.mapM_nil]
    refine (Reads.ok []).congr (fun ys => ?_) ⟨False.elim, fun hstops => by cases hstops⟩
    constructor
    · rintro rfl
      exact .nil
    · intro hys
      cases hys
      rfl
  | cons x xs ih =>
    rw [List.mapM_cons]
    refine ((h x).bind fun y _ => ih.bind fun ys _ => Reads.ok (y :: ys)).congr (fun zs => ?_) ?_
    · constructor
      · rintro ⟨y, hy, ys, hys, rfl⟩
        exact .cons hy hys
      · intro hzs
        cases hzs with
        | cons hy hys => exact ⟨_, hy, _, hys, rfl⟩
    · rw [Stops.cons_iff]
      constructor
      · rintro (hlong | ⟨y, hy, hstops | ⟨ys, -, hfalse⟩⟩)
        · exact .inl hlong
        · exact .inr ⟨⟨y, hy⟩, hstops⟩
        · exact hfalse.elim
      · rintro (hlong | ⟨⟨y, hy⟩, hstops⟩)
        · exact .inl hlong
        · exact .inr ⟨y, hy, .inl hstops⟩

/-! ### Values -/

/-- No name of a domain is a run of digits. -/
theorem Domain.named?_of_isDigit {f : Field} {run : List Char} (hne : run ≠ [])
    (hrun : ∀ c ∈ run, c.isDigit = true) : f.domain.named? run = none := by
  rw [Domain.named?, Option.map_eq_none_iff, List.find?_eq_none]
  intro entry hentry hname
  obtain ⟨c, hc⟩ := List.exists_mem_of_ne_nil _ hne
  have hdigit := List.any_eq_false.mp (f.wellNamed_domain.not_digit entry hentry) c
    ((eq_of_beq hname) ▸ hc)
  exact hdigit (hrun c hc)

/-- A name of the domain is found, with its value. -/
theorem Domain.named?_of_mem {f : Field} {entry : String × Int} (hentry : entry ∈ f.domain.names) :
    f.domain.named? entry.1.toList = some entry.2 := by
  rw [Domain.named?, Option.map_eq_some_iff]
  cases hfind : f.domain.names.find? fun other => other.1.toList == entry.1.toList with
  | none => exact absurd (beq_self_eq_true _) (List.find?_eq_none.mp hfind entry hentry)
  | some other =>
    have hname := List.find?_some hfind
    exact ⟨other, rfl, f.wellNamed_domain.unique _ (List.mem_of_find?_eq_some hfind) _ hentry
      (eq_of_beq hname)⟩

namespace Field

/-- A numeral is read and handed on, unless it is too long. -/
theorem reads_numeral {α : Type} {digits : List Char} {check : Nat → Except FieldFault α}
    {good : Nat → α → Prop} (hcheck : ∀ n, Reads .longNumeral (check n) (good n) False)
    (problem : FieldProblem) :
    Reads .longNumeral
      (if isAsciiNumeral digits then
        match asciiNumeral? digits with
        | none => .error .longNumeral
        | some n => check n
      else .error (.problem problem))
      (fun a => ∃ n, Numeral digits n ∧ good n a) (Overlong digits) := by
  split
  · rename_i hdigits
    cases hread : asciiNumeral? digits with
    | none =>
      exact .stopped ⟨(isAsciiNumeral_eq_true_iff.mp hdigits).2,
        asciiNumeral?_eq_none_iff.mp hread⟩
    | some n =>
      have hnumeral := numeral_of_asciiNumeral? hdigits hread
      refine (hcheck n).congr (fun a => ⟨fun ha => ⟨n, hnumeral, ha⟩, ?_⟩) ⟨False.elim, fun hlong => ?_⟩
      · rintro ⟨m, hm, ha⟩
        rwa [hm.unique hnumeral] at ha
      · rw [asciiNumeral?_eq_none_iff.mpr hlong.2] at hread
        cases hread
  · rename_i hdigits
    rw [isAsciiNumeral_eq_true_iff] at hdigits
    refine (Reads.error (by simp)).congr (fun a => ⟨False.elim, ?_⟩) ⟨False.elim, ?_⟩
    · rintro ⟨n, hn, -⟩
      exact hdigits ⟨hn.1, hn.2.1⟩
    · exact fun hlong => hdigits ⟨hlong.ne_nil, hlong.1⟩

/-- A value is a name or a numeral of the domain. -/
theorem reads_readValue (f : Field) (token : List Char) :
    Reads .longNumeral (readValue f.domain token) (Writes f.domain token)
      (Overlong (upper (strip token))) := by
  rw [readValue]
  split
  · rename_i n hnamed
    have hwrites : Writes f.domain token n :=
      writes_of_readValue (by rw [readValue, hnamed])
    refine (Reads.ok n).congr (fun m => ?_) ⟨False.elim, fun hlong => ?_⟩
    · constructor
      · rintro rfl
        exact hwrites
      · exact fun hm => hm.unique hwrites
    · rw [Domain.named?_of_isDigit hlong.ne_nil hlong.1] at hnamed
      cases hnamed
  · rename_i hnamed
    have hcheck (n : Nat) : Reads FieldFault.longNumeral
        (if f.domain.contains n then .ok (n : Int) else .error (.problem (.outOfRange n token)))
        (fun m => m = n ∧ f.domain.low ≤ n ∧ n ≤ f.domain.high) False :=
      (Reads.ite_ok (by simp) _).congr (fun m => by simp [Domain.contains]) Iff.rfl
    refine (reads_numeral hcheck (.value token)).congr (fun m => ?_) Iff.rfl
    constructor
    · rintro ⟨n, hn, rfl, hlow, hhigh⟩
      exact .numeral hn hlow hhigh
    · intro hwrites
      cases hwrites with
      | name hentry hname =>
        rw [hname, Domain.named?_of_mem hentry] at hnamed
        cases hnamed
      | numeral hnumeral hlow hhigh => exact ⟨_, hnumeral, rfl, hlow, hhigh⟩

end Field

/-! ### Ranges -/

/-- Reading the base of an item stops at a value, or in a range at the first end, or at the
last where the first is a value. -/
inductive BaseStops (f : Field) : List Char → Prop
  | value {text : List Char} : Overlong (upper (strip text)) → BaseStops f text
  | first {left right : List Char} : Overlong (upper (strip left)) → '-' ∉ right →
      BaseStops f (left ++ '-' :: right)
  | last {left right : List Char} {n : Int} : Writes f.domain left n →
      Overlong (upper (strip right)) → BaseStops f (left ++ '-' :: right)

/-- A token that is too long holds none of the signs. -/
theorem not_mem_sign_of_overlong {token : List Char} (h : Overlong (upper (strip token))) {c : Char}
    (hc : c ∈ ['-', '/', '*', ',', 'L']) : c ∉ token := by
  intro hmem
  have hcapital : isBlank c = false ∧ upperChar c = [c] ∧ c.isDigit = false := by
    simp only [List.mem_cons, List.not_mem_nil, or_false] at hc
    rcases hc with rfl | rfl | rfl | rfl | rfl <;> decide
  have hdigit := h.1 c (mem_upper_strip hmem hcapital.1 hcapital.2.1)
  rw [hcapital.2.2] at hdigit
  cases hdigit

theorem BaseStops.ne_star {f : Field} {base : List Char} (h : BaseStops f base) :
    base ≠ ['*'] := by
  intro hbase
  have hdash (s t : List Char) : s ++ '-' :: t ≠ ['*'] := by
    intro hst
    have hmem : '-' ∈ ['*'] := hst ▸ List.mem_append_right _ List.mem_cons_self
    simp at hmem
  cases h with
  | value hlong =>
    exact not_mem_sign_of_overlong hlong (by decide) (hbase ▸ List.mem_singleton_self '*')
  | first => exact hdash _ _ hbase
  | last => exact hdash _ _ hbase

namespace Field

variable {f : Field}

/-- A range is read end by end. -/
theorem reads_readRange (f : Field) (text : List Char) :
    Reads .longNumeral (readRange f.domain text)
      (fun x => ∃ left right, text = left ++ '-' :: right ∧ Writes f.domain left x.1 ∧
        Writes f.domain right x.2 ∧ x.1 ≤ x.2)
      (∃ left right, text = left ++ '-' :: right ∧ '-' ∉ left ∧ '-' ∉ right ∧
        (Overlong (upper (strip left)) ∨
          ∃ n, Writes f.domain left n ∧ Overlong (upper (strip right)))) := by
  have hdash : '-' ∈ ['-', '/', '*', ','] := by decide
  rw [readRange]
  split
  · rename_i left right hpieces
    have htext : left ++ '-' :: right = text := by
      rw [← join_pieces '-' text, hpieces]
      simp [List.intercalate]
    have hleft : '-' ∉ left := not_mem_of_mem_pieces (s := text) (hpieces ▸ List.mem_cons_self)
    have hright : '-' ∉ right :=
      not_mem_of_mem_pieces (s := text) (hpieces ▸ List.mem_cons_of_mem _ List.mem_cons_self)
    have hcheck (first last : Int) : Reads FieldFault.longNumeral
        (if last < first then .error (.problem (.reversedRange text first last))
          else .ok (first, last)) (fun x => x = (first, last) ∧ first ≤ last) False :=
      (Reads.ite_error (by simp) _).congr (fun x => by rw [Int.not_lt]) Iff.rfl
    refine ((reads_readValue f left).bind fun first _ => (reads_readValue f right).bind
      fun last _ => hcheck first last).congr (fun x => ?_) ?_
    · constructor
      · rintro ⟨first, hfirst, last, hlast, rfl, hle⟩
        exact ⟨left, right, htext.symm, hfirst, hlast, hle⟩
      · rintro ⟨left', right', htext', hfirst, hlast, hle⟩
        obtain ⟨rfl, rfl⟩ :=
          append_sep_inj hleft (hfirst.not_mem_sign hdash) (htext.trans htext')
        exact ⟨x.1, hfirst, x.2, hlast, rfl, hle⟩
    · constructor
      · rintro (hlong | ⟨n, hn, hlong | ⟨m, -, hfalse⟩⟩)
        · exact ⟨left, right, htext.symm, hleft, hright, .inl hlong⟩
        · exact ⟨left, right, htext.symm, hleft, hright, .inr ⟨n, hn, hlong⟩⟩
        · exact hfalse.elim
      · rintro ⟨left', right', htext', hleft', -, hlong⟩
        obtain ⟨rfl, rfl⟩ := append_sep_inj hleft hleft' (htext.trans htext')
        rcases hlong with hlong | ⟨n, hn, hlong⟩
        · exact .inl hlong
        · exact .inr ⟨n, hn, .inl hlong⟩
  · -- a text with one dash has two parts
    rename_i hpieces
    refine (Reads.error (by simp)).congr (fun x => ⟨False.elim, ?_⟩) ⟨False.elim, ?_⟩
    · rintro ⟨left, right, rfl, hfirst, hlast, -⟩
      exact hpieces _ _ (pieces_append_sep (hfirst.not_mem_sign hdash) (hlast.not_mem_sign hdash))
    · rintro ⟨left, right, rfl, hleft, hright, -⟩
      exact hpieces _ _ (pieces_append_sep hleft hright)

/-- The base of an item is read as all of the domain, a range or a value. -/
theorem reads_readBase (f : Field) (base : List Char) :
    Reads .longNumeral (readBase f.domain base) (fun x => Spans f.domain base x.1 x.2)
      (BaseStops f base) := by
  have hdash : '-' ∈ ['-', '/', '*', ','] := by decide
  have hdashL : '-' ∈ ['-', '/', '*', ',', 'L'] := by decide
  rw [readBase]
  split
  · rename_i hall
    subst hall
    refine (Reads.ok _).congr (fun x => ?_) ⟨False.elim, fun hstops => ?_⟩
    · constructor
      · rintro rfl
        exact .all
      · intro hspans
        obtain ⟨hfirst, hlast⟩ := hspans.unique .all
        exact Prod.ext hfirst hlast
    · exact hstops.ne_star rfl
  · rename_i hall
    split
    · rename_i hmem
      refine (reads_readRange f base).congr (fun x => ?_) ?_
      · constructor
        · rintro ⟨left, right, rfl, hfirst, hlast, hle⟩
          exact .range hfirst hlast hle
        · intro hspans
          obtain ⟨first, last⟩ := x
          cases hspans with
          | all => exact absurd rfl hall
          | value hvalue => exact absurd hmem (hvalue.not_mem_sign hdash)
          | range hfirst hlast hle => exact ⟨_, _, rfl, hfirst, hlast, hle⟩
      · constructor
        · rintro ⟨left, right, rfl, -, hright, hlong | ⟨n, hn, hlong⟩⟩
          · exact .first hlong hright
          · exact .last hn hlong
        · intro hstops
          cases hstops with
          | value hlong => exact absurd hmem (not_mem_sign_of_overlong hlong hdashL)
          | first hlong hright =>
            exact ⟨_, _, rfl, not_mem_sign_of_overlong hlong hdashL, hright, .inl hlong⟩
          | last hn hlong =>
            exact ⟨_, _, rfl, hn.not_mem_sign hdash, not_mem_sign_of_overlong hlong hdashL,
              .inr ⟨_, hn, hlong⟩⟩
    · rename_i hmem
      refine ((reads_readValue f base).map fun n => (n, n)).congr (fun x => ?_) ?_
      · constructor
        · rintro ⟨n, hn, rfl⟩
          exact .value hn
        · intro hspans
          obtain ⟨first, last⟩ := x
          cases hspans with
          | all => exact absurd rfl hall
          | value hvalue => exact ⟨_, hvalue, rfl⟩
          | range => exact absurd (List.mem_append_right _ List.mem_cons_self) hmem
      · constructor
        · exact .value
        · intro hstops
          cases hstops with
          | value hlong => exact hlong
          | first => exact absurd (List.mem_append_right _ List.mem_cons_self) hmem
          | last => exact absurd (List.mem_append_right _ List.mem_cons_self) hmem

/-! ### Steps -/

/-- A step is a numeral that is not zero; a dash before it is looked over until it is read. -/
theorem reads_readStep (text item : List Char) :
    Reads .longNumeral (readStep text item)
      (fun step => ∃ k : Nat, Numeral text k ∧ 0 < k ∧ step = k)
      (∃ digits, (text = digits ∨ text = '-' :: digits) ∧ Overlong digits) := by
  have hdash : ∀ digits : List Char, ¬ ∀ c ∈ '-' :: digits, c.isDigit = true := by
    intro digits hdigits
    cases hdigits '-' List.mem_cons_self
  have hcheck (step : Int) : Reads FieldFault.longNumeral
      (if step ≤ 0 then .error (.problem (.stepNotPositive step item)) else .ok step)
      (fun a => a = step ∧ 0 < step) False :=
    (Reads.ite_error (by simp) _).congr (fun a => by rw [Int.not_le]) Iff.rfl
  unfold readStep
  split
  rename_i negative digits hsplit
  have hsign : negative = true ∧ text = '-' :: digits ∨
      negative = false ∧ text = digits ∧ ∀ rest, text ≠ '-' :: rest := by
    split at hsplit
    · obtain ⟨rfl, rfl⟩ := Prod.mk.inj hsplit
      exact .inl ⟨rfl, rfl⟩
    · rename_i hplain
      obtain ⟨rfl, rfl⟩ := Prod.mk.inj hsplit
      exact .inr ⟨rfl, rfl, fun rest h => hplain rest h⟩
  refine (reads_numeral (fun n => hcheck (if negative then -(n : Int) else n)) (.step item)).congr
    (fun a => ?_) ?_
  · rcases hsign with ⟨rfl, rfl⟩ | ⟨rfl, rfl, -⟩
    · constructor
      · rintro ⟨n, -, rfl, hpos⟩
        simp only [if_true] at hpos
        omega
      · rintro ⟨k, hk, -⟩
        exact absurd hk.2.1 (hdash digits)
    · constructor
      · rintro ⟨n, hn, rfl, hpos⟩
        exact ⟨n, hn, Int.natCast_pos.mp hpos, rfl⟩
      · rintro ⟨k, hk, hpos, rfl⟩
        exact ⟨k, hk, rfl, Int.natCast_pos.mpr hpos⟩
  · rcases hsign with ⟨rfl, rfl⟩ | ⟨rfl, rfl, hplain⟩
    · constructor
      · exact fun hlong => ⟨digits, .inr rfl, hlong⟩
      · rintro ⟨digits', rfl | htext, hlong⟩
        · exact absurd hlong.1 (hdash digits)
        · obtain rfl := (List.cons.inj htext).2
          exact hlong
    · constructor
      · exact fun hlong => ⟨_, .inl rfl, hlong⟩
      · rintro ⟨digits', rfl | htext, hlong⟩
        · exact hlong
        · exact absurd htext (hplain digits')

end Field

end CronSchedule
