import CronSchedule.Proofs.Settings.Precedence
import CronSchedule.Proofs.Settings.Reread
import CronSchedule.Proofs.Text.Integers

/-!
# Bad settings and complaints

Entries that describe no settings are to be answered with a complaint about settings, and with no
other error.  It is not plain that they are, since a value goes through two readers of integers with
different guards, and since a complaint shows what it is about: the names that are unknown, which
are put in order, or a value in its written form.

So another error escapes in three places.  A key that is no text has no place among unknown names.
A text that looks like an integer to the guard of a numeric setting, and is none, cannot be read.
And an integer with too many digits cannot be written into the complaint about it.  The second and
the third count only where nothing before them is complained of.

* `Escapes` — the result is an error that is no complaint, with its laws for results in sequence;
* `Setting.Breaks`, `Setting.escapes_coerce_iff` — the values that cannot be read or complained of;
* `Entries.BreaksOff`, `Settings.escapes_ofEntries_iff` — the entries that come to such a place;
* `Settings.IsSettled`, `Settings.isSettled_ofEntries_iff` — all others are settled: they are
  accepted as settings that can be used, or complained of;
* `Settings.isSettled_load_iff` — and so are those of a file and an environment.
-/

namespace CronSchedule

open Text

/-! ### Errors that escape -/

/-- The result is an error that is no complaint about settings. -/
def Escapes {α : Type} (r : Except Error α) : Prop :=
  ∃ e, r = .error e ∧ ∀ complaint, e ≠ .settings complaint

namespace Escapes

variable {α β : Type} {r : Except Error α}

@[simp] theorem ok_iff {a : α} : Escapes (.ok a) ↔ False := by simp [Escapes]

theorem error_iff {e : Error} :
    Escapes (.error e : Except Error α) ↔ ∀ complaint, e ≠ .settings complaint := by
  simp [Escapes]

@[simp] theorem settings_iff {complaint : SettingsError} :
    Escapes (.error (.settings complaint) : Except Error α) ↔ False :=
  iff_false_intro fun h => error_iff.mp h complaint rfl

@[simp] theorem fault_iff {f : Fault} : Escapes (.error (.fault f) : Except Error α) ↔ True :=
  iff_true_intro (error_iff.mpr nofun)

theorem bind_iff {f : α → Except Error β} :
    Escapes (r >>= f) ↔ Escapes r ∨ ∃ a, r = .ok a ∧ Escapes (f a) := by
  cases r with
  | ok a => simp [ok_bind]
  | error e =>
    show Escapes (.error e) ↔ _
    simp [error_iff]

theorem map_iff {f : α → β} : Escapes (r.map f) ↔ Escapes r := by
  cases r with
  | ok a => simp [Except.map]
  | error e => simp [Except.map, error_iff]

/-- What goes through a list in order escapes exactly if it does so at some member, behind others
that it goes through. -/
theorem foldlM_iff {f : β → α → Except Error β} {xs : List α} {b : β} :
    Escapes (xs.foldlM f b) ↔ ∃ before x after b', xs = before ++ x :: after ∧
      before.foldlM f b = .ok b' ∧ Escapes (f b' x) := by
  induction xs generalizing b with
  | nil =>
    rw [List.foldlM_nil]
    refine ⟨fun h => absurd h ok_iff.mp, ?_⟩
    rintro ⟨before, x, after, b', h, -⟩
    cases before <;> cases h
  | cons x xs ih =>
    rw [List.foldlM_cons, bind_iff]
    constructor
    · rintro (hfirst | ⟨b₁, hb₁, hrest⟩)
      · exact ⟨[], x, xs, b, rfl, rfl, hfirst⟩
      · obtain ⟨before, y, after, b', rfl, hbefore, hy⟩ := ih.mp hrest
        refine ⟨x :: before, y, after, b', rfl, ?_, hy⟩
        rw [List.foldlM_cons, hb₁]
        exact hbefore
    · rintro ⟨before, y, after, b', hxs, hbefore, hy⟩
      cases before with
      | nil =>
        obtain ⟨rfl, -⟩ := List.cons.inj hxs
        obtain rfl := Except.ok.inj hbefore
        exact .inl hy
      | cons z before =>
        obtain ⟨rfl, rfl⟩ := List.cons.inj hxs
        rw [List.foldlM_cons] at hbefore
        obtain ⟨b₁, hb₁, hbefore⟩ := bind_eq_ok_iff.mp hbefore
        exact .inr ⟨b₁, hb₁, ih.mpr ⟨before, y, after, b', rfl, hbefore, hy⟩⟩

end Escapes

theorem SettingsError.escapes_raised_iff {α : Type} {complaint : SettingsError} :
    Escapes (.error complaint.raised : Except Error α) ↔ complaint.isWritable = false := by
  unfold raised
  cases complaint.isWritable <;> simp

/-! ### Values -/

/-- Whatever is read from a text can be written. -/
theorem isWritable_readText (s : String) : (readText s).isWritable = true := by
  unfold readText
  dsimp only
  split
  · next word hword =>
    have hwords : ∀ word ∈ textWords, word.2.isWritable = true := by decide
    exact hwords word (List.mem_of_find?_eq_some hword)
  · split
    · next hinteger => exact isWritable_of_integer? hinteger
    · rfl

namespace Setting

variable {t : Setting} {v w : Value}

/-- The value given for the setting can neither be read as what it says nor complained of: it seems
an integer for a numeric setting and is none, or it may not be given and cannot be written. -/
inductive Breaks (t : Setting) : Value → Prop
  | unreadable {s : String} : t.isNumeric = true → SeemsInteger (strip s.toList) →
      Breaks t (.text s)
  | unwritable {v : Value} : t.admits v = false → v.isWritable = false → Breaks t v

theorem Breaks.seems_or_unwritable (h : t.Breaks v) :
    (∃ s, v = .text s ∧ SeemsInteger (strip s.toList)) ∨ v.isWritable = false := by
  cases h with
  | unreadable _ hseems => exact .inl ⟨_, rfl, hseems⟩
  | unwritable _ hwritable => exact .inr hwritable

theorem isWritable_complaint (t : Setting) (v : Value) :
    (t.complaint v).isWritable = v.isWritable := by
  cases t <;> rfl

/-- Reading a value escapes exactly if it seems an integer and is none. -/
theorem escapes_interpret_iff :
    Escapes (t.interpret v) ↔
      t.isNumeric = true ∧ ∃ s, v = .text s ∧ SeemsInteger (strip s.toList) := by
  unfold interpret
  cases v with
  | text s =>
    simp only [Value.text.injEq, exists_eq_left']
    split
    · next hguard =>
      simp only [Bool.and_eq_true, Bool.not_eq_true', List.isEmpty_eq_false_iff,
        List.all_eq_true] at hguard
      obtain ⟨⟨hnumeric, hne⟩, hdigits⟩ := hguard
      rw [← integer?_eq_none_iff hne hdigits, and_iff_right hnumeric]
      cases integer? (strip s.toList) <;> simp
    · next hguard =>
      refine iff_of_false (by simp) fun ⟨hnumeric, hseems⟩ => hguard ?_
      have hne := hseems.ne_nil
      simpa [hnumeric, hne] using hseems.1
  | _ => simp

/-- What is read from a value is the value, or can be written. -/
theorem eq_or_isWritable_of_interpret (h : t.interpret v = .ok w) :
    w = v ∨ w.isWritable = true := by
  unfold interpret at h
  cases v with
  | text s =>
    dsimp only at h
    split at h
    · split at h
      · next hinteger =>
        obtain rfl := Except.ok.inj h
        exact .inr (isWritable_of_integer? hinteger)
      · cases h
    · obtain rfl := Except.ok.inj h
      exact .inr (isWritable_readText s)
  | ragged s =>
    obtain rfl := Except.ok.inj h
    exact .inr rfl
  | _ => exact .inl (Except.ok.inj h).symm

/-- A value that cannot be written is no text, and is read as what it is. -/
theorem interpret_of_unwritable (h : v.isWritable = false) : t.interpret v = .ok v := by
  cases v with
  | text s => cases h
  | ragged s => cases h
  | _ => rfl

theorem coerce_eq_bind (t : Setting) (v : Value) :
    t.coerce v = t.interpret v >>= fun w =>
      if t.admits w then .ok w else .error (t.complaint w).raised := by
  unfold coerce
  cases t.interpret v <;> rfl

/-- Reading a value for a setting escapes exactly if it can neither be read nor complained of. -/
theorem escapes_coerce_iff : Escapes (t.coerce v) ↔ t.Breaks v := by
  rw [coerce_eq_bind, Escapes.bind_iff]
  constructor
  · rintro (hread | ⟨w, hw, hcheck⟩)
    · obtain ⟨hnumeric, s, rfl, hseems⟩ := escapes_interpret_iff.mp hread
      exact .unreadable hnumeric hseems
    · split at hcheck
      · exact absurd hcheck Escapes.ok_iff.mp
      · next hadmits =>
        rw [SettingsError.escapes_raised_iff, isWritable_complaint] at hcheck
        rcases eq_or_isWritable_of_interpret hw with rfl | hwritable
        · exact .unwritable (Bool.eq_false_iff.mpr hadmits) hcheck
        · rw [hcheck] at hwritable
          cases hwritable
  · rintro (⟨hnumeric, hseems⟩ | ⟨hadmits, hwritable⟩)
    · exact .inl (escapes_interpret_iff.mpr ⟨hnumeric, _, rfl, hseems⟩)
    · refine .inr ⟨v, interpret_of_unwritable hwritable, ?_⟩
      rw [if_neg (Bool.eq_false_iff.mp hadmits), SettingsError.escapes_raised_iff,
        isWritable_complaint]
      exact hwritable

/-- A number that a setting may be given is an integer, or nothing. -/
theorem null_or_int_of_admits (ht : t.isNumeric = true) (h : t.admits v = true) :
    v = .null ∨ ∃ n : Int, v = .int n := by
  cases v with
  | null => exact .inl rfl
  | int n => exact .inr ⟨n, rfl⟩
  | _ => cases t <;> simp [isNumeric, admits] at ht h

end Setting

/-! ### Entries -/

theorem exists_mem_of_mapM_option {α β : Type} {f : α → Option β} {l : List α} {bs : List β}
    (h : l.mapM f = some bs) {a : α} (ha : a ∈ l) : ∃ b ∈ bs, f a = some b := by
  have hread := forall₂_of_mapM_option h
  clear h
  induction hread with
  | nil => cases ha
  | @cons x b _ _ hxb _ ih =>
    rcases List.mem_cons.mp ha with rfl | ha
    · exact ⟨b, List.mem_cons_self .., hxb⟩
    · obtain ⟨b', hb', hab'⟩ := ih ha
      exact ⟨b', List.mem_cons_of_mem b hb', hab'⟩

/-- A key among others that is neither a text nor a ragged one leaves the unknown names without an
order. -/
theorem unknownNames_eq_none_iff {es : Entries Value Value} :
    unknownNames es = none ↔ ∃ e ∈ es, (∀ s, e.1 ≠ .text s) ∧ ∀ s, e.1 ≠ .ragged s := by
  unfold unknownNames
  simp only [bind, Option.bind_eq_none_iff, pure, reduceCtorEq, imp_false]
  rw [← Option.eq_none_iff_forall_ne_some, mapM_option_eq_none_iff]
  refine exists_congr fun e => and_congr_right fun _ => ?_
  cases e.1 <;> simp

/-- Where no name is unknown, a key that is a text names a setting. -/
theorem exists_entrySetting?_of_known {es : Entries Value Value} (h : unknownNames es = some [])
    {e : Value × Value} (he : e ∈ es) {s : String} (hs : e.1 = .text s) :
    ∃ t, entrySetting? e = some t := by
  unfold unknownNames at h
  obtain ⟨names, hnames, h⟩ := Option.bind_eq_some_iff.mp h
  have hsorted := Option.some.inj h
  have hnone := List.length_eq_zero_iff.mp
    ((List.length_mergeSort _).symm.trans (congrArg List.length hsorted))
  obtain ⟨name, hname, hread⟩ := exists_mem_of_mapM_option hnames he
  have hknown := List.filter_eq_nil_iff.mp hnone name hname
  rw [hs] at hread
  obtain rfl := Option.some.inj hread
  have hcharacters : characters? (symbols s) = some s.toList := characters?_eq_some_iff.mpr rfl
  rw [hcharacters, Option.bind_some, String.ofList_toList, Option.isNone_iff_eq_none] at hknown
  unfold entrySetting?
  rw [hs]
  exact Option.ne_none_iff_exists'.mp hknown

namespace Draft

variable {es : Entries Value Value} {d : Draft}

/-- Reading an entry into a draft escapes exactly if the value breaks off for the setting that the
entry names; and if it names none. -/
theorem escapes_read_iff {e : Value × Value} :
    Escapes (d.read e) ↔ ∀ t, entrySetting? e = some t → t.Breaks e.2 := by
  unfold read
  cases hname : entrySetting? e with
  | none => simp
  | some t => simp [Escapes.map_iff, Setting.escapes_coerce_iff]

/-- Every setting of a draft that is read has a value of a kind that it may be given. -/
theorem admits_of_foldlM_read (h : es.foldlM read {} = .ok d) (t : Setting) :
    t.admits (d.get t) = true := by
  have hgets := gets_of_foldlM_read h t
  cases hlast : lastValue? es t with
  | some v =>
    rw [hlast] at hgets
    exact Setting.admits_of_coerce hgets
  | none =>
    rw [hlast, Setting.Gets.none_iff] at hgets
    rw [hgets]
    cases t <;> rfl

/-- The number of a setting is not positive, and has too many digits to be complained of. -/
def Misses (d : Draft) (t : Setting) : Prop :=
  ∃ n : Int, d.get t = .int n ∧ n ≤ 0 ∧ Text.isWritable n = false

variable {t : Setting}

/-- A number that misses its complaint is given as it is, and not as a text. -/
theorem exists_unwritable_of_misses (h : es.foldlM read {} = .ok d) (hmisses : d.Misses t) :
    ∃ e ∈ es, e.2.isWritable = false := by
  obtain ⟨n, hn, hle, hunwritable⟩ := hmisses
  have hgets := gets_of_foldlM_read h t
  rw [hn] at hgets
  cases hlast : lastValue? es t with
  | none =>
    rw [hlast, Setting.Gets.none_iff] at hgets
    cases t <;> cases hgets
    exact absurd hle (by decide)
  | some v =>
    rw [hlast, Setting.Gets.some_iff, Setting.coerce_eq_ok_iff] at hgets
    obtain ⟨e, he, hv⟩ := List.mem_filterMap.mp (List.mem_of_getLast? hlast)
    obtain ⟨-, rfl⟩ := (Option.ite_none_right_eq_some.mp hv).imp_right Option.some.inj
    refine ⟨e, he, ?_⟩
    rcases Setting.eq_or_isWritable_of_interpret hgets.1 with hsame | hwritable
    · rw [← hsame]
      exact hunwritable
    · rw [Value.isWritable, hunwritable] at hwritable
      cases hwritable

theorem Misses.not_passes (h : d.Misses t) :
    ¬ (d.get t = .null ∨ (d.get t).isPositive? = some true) := by
  obtain ⟨n, hn, hle, -⟩ := h
  simpa [hn, Value.isPositive?] using hle

/-- The complaint about a number that is not positive escapes exactly if it cannot be written. -/
theorem escapes_refusal_iff (ht : t.isNumeric = true) (hadmits : t.admits (d.get t) = true)
    (hfails : ¬ (d.get t = .null ∨ (d.get t).isPositive? = some true)) :
    Escapes (.error (t.refusal (d.get t)) : Except Error Settings) ↔ d.Misses t := by
  rw [not_or] at hfails
  obtain ⟨n, hn⟩ := (t.null_or_int_of_admits ht hadmits).resolve_left hfails.1
  have hle : n ≤ 0 := by simpa [hn, Value.isPositive?] using hfails.2
  have hrefusal : t.refusal (d.get t) = (SettingsError.notPositive t (.int n)).raised := by
    rw [hn]
    rfl
  rw [hrefusal, SettingsError.escapes_raised_iff]
  constructor
  · exact fun h => ⟨n, hn, hle, h⟩
  · rintro ⟨m, hm, -, h⟩
    obtain rfl := Value.int.inj (hn.symm.trans hm)
    exact h

/-- Checking the two numbers of a draft escapes exactly if the first of them that fails the check
cannot be complained of. -/
theorem escapes_settings_iff (hadmits : ∀ t : Setting, t.admits (d.get t) = true) :
    Escapes d.settings ↔ d.Misses .maxScanTicks ∨
      (d.maxScanTicks = .null ∨ d.maxScanTicks.isPositive? = some true) ∧
        d.Misses .searchHorizonDays := by
  have hdays : d.searchHorizonDays ≠ .null := fun hnull => by
    have h : Setting.searchHorizonDays.admits d.searchHorizonDays = true := hadmits _
    rw [hnull] at h
    cases h
  unfold settings
  split
  · next hticks =>
    have hmisses : ¬ d.Misses .maxScanTicks := fun h => h.not_passes hticks
    rw [or_iff_right hmisses, and_iff_right hticks]
    split
    · next hpos => exact iff_of_false Escapes.ok_iff.mp fun h => h.not_passes (.inr hpos)
    · next hpos =>
      exact escapes_refusal_iff (t := .searchHorizonDays) rfl (hadmits _) (not_or.mpr ⟨hdays, hpos⟩)
  · next hticks =>
    rw [or_iff_left fun h => hticks h.1]
    exact escapes_refusal_iff (t := .maxScanTicks) rfl (hadmits _) hticks

end Draft

namespace Settings

/-- Reading the entries comes to a place that is not complained of. -/
inductive BreaksOff (es : Entries Value Value) : Prop
  /-- a key is no text, ragged or not -/
  | key {e : Value × Value} : e ∈ es → (∀ s, e.1 ≠ .text s) → (∀ s, e.1 ≠ .ragged s) → BreaksOff es
  /-- no name is unknown, and the first entry that is not accepted breaks off for its setting -/
  | value {before after : Entries Value Value} {e : Value × Value} {d : Draft} :
      unknownNames es = some [] → es = before ++ e :: after →
      before.foldlM Draft.read {} = .ok d → (∀ t, entrySetting? e = some t → t.Breaks e.2) →
      BreaksOff es
  /-- all entries are accepted, and the limit on ticks misses its complaint -/
  | ticks {d : Draft} : es.foldlM Draft.read {} = .ok d → d.Misses .maxScanTicks → BreaksOff es
  /-- all entries and the limit on ticks are accepted, and the horizon misses its complaint -/
  | days {d : Draft} : es.foldlM Draft.read {} = .ok d →
      (d.maxScanTicks = .null ∨ d.maxScanTicks.isPositive? = some true) →
      d.Misses .searchHorizonDays → BreaksOff es

/-- Where entries are read no name is unknown. -/
theorem unknownNames_of_foldlM_read {es : Entries Value Value} {d : Draft}
    (h : es.foldlM Draft.read {} = .ok d) : unknownNames es = some [] := by
  refine unknownNames_eq_nil fun e he => ?_
  obtain ⟨t, v, hname, -⟩ := Draft.exists_foldlM_read_iff.mp ⟨d, h⟩ e he
  exact Option.isSome_of_eq_some hname

/-- Reading entries as settings escapes exactly if it comes to a place that is not complained of. -/
theorem escapes_ofEntries_iff {es : Entries Value Value} :
    Escapes (ofEntries es) ↔ BreaksOff es := by
  unfold ofEntries
  cases hunknown : unknownNames es with
  | none =>
    obtain ⟨e, he, htext, hragged⟩ := unknownNames_eq_none_iff.mp hunknown
    exact iff_of_true (Escapes.fault_iff.mpr trivial) (.key he htext hragged)
  | some names =>
    have hkeys : ¬ ∃ e ∈ es, (∀ s, e.1 ≠ .text s) ∧ ∀ s, e.1 ≠ .ragged s := by
      rw [← unknownNames_eq_none_iff, hunknown]
      exact nofun
    cases names with
    | cons name names =>
      -- the complaint about the names comes first
      refine iff_of_false Escapes.settings_iff.mp ?_
      rintro (⟨he, htext, hragged⟩ | ⟨hnone, -⟩ | ⟨hread, -⟩ | ⟨hread, -⟩)
      · exact hkeys ⟨_, he, htext, hragged⟩
      · rw [hunknown] at hnone
        cases hnone
      · rw [unknownNames_of_foldlM_read hread] at hunknown
        cases hunknown
      · rw [unknownNames_of_foldlM_read hread] at hunknown
        cases hunknown
    | nil =>
      show Escapes (es.foldlM Draft.read {} >>= Draft.settings) ↔ _
      rw [Escapes.bind_iff, Escapes.foldlM_iff]
      constructor
      · rintro (⟨before, e, after, d, hes, hbefore, he⟩ | ⟨d, hread, hcheck⟩)
        · exact .value hunknown hes hbefore (Draft.escapes_read_iff.mp he)
        · rcases (Draft.escapes_settings_iff (Draft.admits_of_foldlM_read hread)).mp hcheck with
            hticks | ⟨hticks, hdays⟩
          · exact .ticks hread hticks
          · exact .days hread hticks hdays
      · rintro (⟨he, htext, hragged⟩ | ⟨-, hes, hbefore, he⟩ | ⟨hread, hmisses⟩ |
          ⟨hread, hticks, hmisses⟩)
        · exact absurd ⟨_, he, htext, hragged⟩ hkeys
        · exact .inl ⟨_, _, _, _, hes, hbefore, Draft.escapes_read_iff.mpr he⟩
        · refine .inr ⟨_, hread, ?_⟩
          exact (Draft.escapes_settings_iff (Draft.admits_of_foldlM_read hread)).mpr (.inl hmisses)
        · refine .inr ⟨_, hread, ?_⟩
          exact (Draft.escapes_settings_iff (Draft.admits_of_foldlM_read hread)).mpr
            (.inr ⟨hticks, hmisses⟩)

/-- Entries under texts do not break off where all values can be written, and no text among them
seems an integer. -/
theorem not_breaksOff_of_plain {es : Entries Value Value} (hkeys : ∀ e ∈ es, ∃ s, e.1 = .text s)
    (hwritable : ∀ e ∈ es, e.2.isWritable = true)
    (hseems : ∀ e ∈ es, ∀ s, e.2 = .text s → ¬ SeemsInteger (strip s.toList)) :
    ¬ BreaksOff es := by
  have hmisses {d : Draft} {t : Setting} (hread : es.foldlM Draft.read {} = .ok d) :
      ¬ d.Misses t := by
    intro h
    obtain ⟨e, he, hunwritable⟩ := Draft.exists_unwritable_of_misses hread h
    rw [hwritable e he] at hunwritable
    cases hunwritable
  rintro (⟨he, htext, -⟩ | ⟨hknown, hes, -, hbreaks⟩ | ⟨hread, h⟩ | ⟨hread, -, h⟩)
  · obtain ⟨s, hs⟩ := hkeys _ he
    exact htext s hs
  · have he := hes ▸ List.mem_append_right _ (List.mem_cons_self ..)
    obtain ⟨s, hs⟩ := hkeys _ he
    obtain ⟨t, ht⟩ := exists_entrySetting?_of_known hknown he hs
    rcases (hbreaks t ht).seems_or_unwritable with ⟨s, hvalue, hseem⟩ | hunwritable
    · exact hseems _ he s hvalue hseem
    · rw [hwritable _ he] at hunwritable
      cases hunwritable
  · exact hmisses hread h
  · exact hmisses hread h

/-! ### Settled results -/

/-- The settings have values that a call can use. -/
structure IsUsable (s : Settings) : Prop where
  zone : s.defaultTimezone = .null ∨ (∃ t, s.defaultTimezone = .text t) ∨
    ∃ t, s.defaultTimezone = .ragged t
  seconds : ∃ b, s.matchSeconds = .bool b
  ticks : s.maxScanTicks = .null ∨ ∃ n : Int, 0 < n ∧ s.maxScanTicks = .int n
  days : ∃ n : Int, 0 < n ∧ s.searchHorizonDays = .int n

/-- The result is settings that can be used, or a complaint about settings. -/
structure IsSettled (result : Except Error Settings) : Prop where
  usable : ∀ s, result = .ok s → s.IsUsable
  told : ∀ e, result = .error e → ∃ complaint, e = .settings complaint

theorem isSettled_iff_not_escapes {result : Except Error Settings}
    (h : ∀ s, result = .ok s → s.IsUsable) : IsSettled result ↔ ¬ Escapes result := by
  constructor
  · rintro ⟨-, htold⟩ ⟨e, he, hother⟩
    obtain ⟨complaint, rfl⟩ := htold e he
    exact hother complaint rfl
  · intro hescapes
    refine ⟨h, fun e he => Classical.byContradiction fun hother => hescapes ⟨e, he, ?_⟩⟩
    exact fun complaint hcomplaint => hother ⟨complaint, hcomplaint⟩

/-- Settings that are accepted can be used. -/
theorem isUsable_of_ofEntries {es : Entries Value Value} {s : Settings}
    (h : ofEntries es = .ok s) : s.IsUsable := by
  have hadmits := admits_of_ofEntries h
  refine ⟨?_, ?_, ?_, exists_days_of_ofEntries h⟩
  · have hzone : Setting.defaultTimezone.admits s.defaultTimezone = true := hadmits _
    cases hvalue : s.defaultTimezone with
    | null => exact .inl rfl
    | text t => exact .inr (.inl ⟨t, rfl⟩)
    | ragged t => exact .inr (.inr ⟨t, rfl⟩)
    | _ =>
      rw [hvalue] at hzone
      cases hzone
  · have hseconds : Setting.matchSeconds.admits s.matchSeconds = true := hadmits _
    cases hvalue : s.matchSeconds with
    | bool b => exact ⟨b, rfl⟩
    | _ =>
      rw [hvalue] at hseconds
      cases hseconds
  · refine s.ticks_pos.imp_right fun hpos => ?_
    rcases Setting.maxScanTicks.null_or_int_of_admits rfl (hadmits _) with hnull | ⟨n, hn⟩
    · rw [show s.maxScanTicks = .null from hnull] at hpos
      cases hpos
    · rw [show s.maxScanTicks = .int n from hn] at hpos
      exact ⟨n, of_decide_eq_true (Option.some.inj hpos), hn⟩

/-- Entries are settled exactly if they do not break off. -/
theorem isSettled_ofEntries_iff {es : Entries Value Value} :
    IsSettled (ofEntries es) ↔ ¬ BreaksOff es := by
  rw [isSettled_iff_not_escapes fun s => isUsable_of_ofEntries, escapes_ofEntries_iff]

variable {files : FileSource} {path : Option String} {environment : Environment}

/-- Loading escapes exactly if it does for the file that counts, or if the entries of the file with
those of the variables break off. -/
theorem escapes_load_iff :
    Escapes (load files path environment) ↔
      (∃ file, PathInForce environment path file ∧ file ≠ "" ∧ Escapes (files.entries file)) ∨
        ∃ es, SectionInForce files path environment es ∧
          BreaksOff (Entries.merge es (underNames (variableValues environment))) := by
  simp only [← and_assoc, ← filePath?_eq_some_iff, sectionInForce_iff]
  unfold load
  cases hpath : filePath? path environment with
  | some file =>
    dsimp only
    rw [Escapes.bind_iff]
    simp only [Option.some.injEq, exists_eq_left', ← escapes_ofEntries_iff]
    rfl
  | none =>
    simp only [reduceCtorEq, false_and, exists_const, false_or, exists_eq_left,
      ← escapes_ofEntries_iff]
    rfl

/-- What is loaded is settled exactly if the file that counts is read or complained of, and its
entries with those of the variables do not break off. -/
theorem isSettled_load_iff :
    IsSettled (load files path environment) ↔
      (∀ file, PathInForce environment path file → file ≠ "" → ¬ Escapes (files.entries file)) ∧
        ∀ es, SectionInForce files path environment es →
          ¬ BreaksOff (Entries.merge es (underNames (variableValues environment))) := by
  have husable (s : Settings) (h : load files path environment = .ok s) : s.IsUsable := by
    obtain ⟨es, -, hes⟩ := load_eq_ok_iff.mp h
    exact isUsable_of_ofEntries hes
  rw [isSettled_iff_not_escapes husable, escapes_load_iff, not_or]
  simp only [not_exists, not_and]

end Settings

end CronSchedule
