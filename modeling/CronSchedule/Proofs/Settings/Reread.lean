import CronSchedule.Proofs.Settings.Accepted
import CronSchedule.Proofs.Text.Cut

/-!
# Settings that are read again

Settings can be written down as entries under their names, and entries are read as settings.  A
text among them is read as what it says, whoever wrote it: so the name of a zone comes back
without the blanks at its ends, and comes back as something else, or not at all, where it is a
word for a truth value or for nothing, or a numeral.

What is load-bearing is that whatever is read from a text stands for itself.  So reading what has
been read changes nothing, and settings come back as they are exactly when their zone stands for
itself; of the other three settings, no text is a value that they may be given.

* `Value.StandsForItself` — values that are read as what they are;
* `Setting.coerce_eq_self_iff`, `Setting.coerce_of_coerce` — what is read again;
* `Settings.coerce_get_of_ofEntries` — settings that have been accepted;
* `Settings.ofEntries_entries` — settings that have been put together by hand.
-/

namespace CronSchedule

open Text

/-! ### Values that stand for themselves -/

/-- What is read from the value is the value: a text has no blanks at its ends, and is neither one
of the words, in capitals or not, nor a numeral. -/
def Value.StandsForItself : Value → Prop
  | .text t => strip t.toList = t.toList ∧
      (∀ word ∈ textWords, word.1.toList ≠ lower t.toList) ∧ integer? t.toList = none
  | .ragged s => stripSymbols s = s
  | _ => True

/-- Whatever is read from a text stands for itself. -/
theorem standsForItself_readText (s : String) : (readText s).StandsForItself := by
  cases hword : textWords.find? fun word => word.1.toList == lower (strip s.toList) with
  | some word =>
    have hwords : ∀ word ∈ textWords, word.2.StandsForItself := by
      simp [textWords, Value.StandsForItself]
    simp only [readText, hword]
    exact hwords word (List.mem_of_find?_eq_some hword)
  | none =>
    cases hinteger : integer? (strip s.toList) with
    | some n =>
      simp only [readText, hword, hinteger]
      trivial
    | none =>
      have hnone : ∀ word ∈ textWords, word.1.toList ≠ lower (strip s.toList) := by
        simpa using hword
      simp only [readText, hword, hinteger, Value.StandsForItself, String.toList_ofList,
        strip_strip]
      exact ⟨trivial, hnone, trivial⟩

theorem readText_eq_self_iff {t : String} :
    readText t = .text t ↔ (Value.text t).StandsForItself := by
  constructor
  · intro h
    exact h ▸ standsForItself_readText t
  · rintro ⟨hstrip, hwords, hinteger⟩
    have hnone : textWords.find? (fun word => word.1.toList == lower t.toList) = none := by
      simpa using hwords
    simp only [readText, hstrip, hnone, hinteger, String.ofList_toList]

/-! ### Values that have been read -/

namespace Setting

variable {t : Setting} {v w : Value}

theorem coerce_eq_ok_iff : t.coerce v = .ok w ↔ t.interpret v = .ok w ∧ t.admits w = true := by
  unfold coerce
  cases t.interpret v with
  | error e => simp
  | ok w' =>
    simp only [Except.ok.injEq]
    constructor
    · intro h
      split at h
      · next hadmits =>
        obtain rfl := Except.ok.inj h
        exact ⟨rfl, hadmits⟩
      · cases h
    · rintro ⟨rfl, hadmits⟩
      rw [if_pos hadmits]

theorem standsForItself_of_coerce (h : t.coerce v = .ok w) : w.StandsForItself := by
  obtain ⟨hread, -⟩ := coerce_eq_ok_iff.mp h
  unfold interpret at hread
  cases v with
  | text s =>
    simp only at hread
    split at hread
    · -- a number for a numeric setting
      cases hinteger : integer? (strip s.toList) with
      | some n =>
        rw [hinteger] at hread
        obtain rfl := Except.ok.inj hread
        trivial
      | none =>
        rw [hinteger] at hread
        cases hread
    · obtain rfl := Except.ok.inj hread
      exact standsForItself_readText s
  | ragged s =>
    obtain rfl := Except.ok.inj hread
    exact stripSymbols_stripSymbols s
  | _ =>
    obtain rfl := Except.ok.inj hread
    trivial

/-- A value of a kind that the setting may be given is read as what it is exactly if it stands for
itself. -/
theorem coerce_eq_self_iff (hadmits : t.admits v = true) :
    t.coerce v = .ok v ↔ v.StandsForItself := by
  refine ⟨standsForItself_of_coerce, fun h => coerce_eq_ok_iff.mpr ⟨?_, hadmits⟩⟩
  cases v with
  | text s =>
    -- no number may be given as a text
    cases t with
    | defaultTimezone => exact congrArg Except.ok (readText_eq_self_iff.mpr h)
    | _ => cases hadmits
  | ragged s => exact congrArg (Except.ok ∘ Value.ragged) h
  | _ => rfl

/-- No text is a value that another setting than the zone may be given. -/
theorem standsForItself_of_admits (hne : t ≠ .defaultTimezone) (hadmits : t.admits v = true) :
    v.StandsForItself := by
  cases v with
  | text s => cases t <;> first | exact absurd rfl hne | cases hadmits
  | ragged s => cases t <;> first | exact absurd rfl hne | cases hadmits
  | _ => trivial

/-- What has been read is read again as what it is. -/
theorem coerce_of_coerce (h : t.coerce v = .ok w) : t.coerce w = .ok w :=
  (coerce_eq_self_iff (admits_of_coerce h)).mpr (standsForItself_of_coerce h)

end Setting

namespace Settings

variable {s : Settings}

/-- The settings with the zone replaced. -/
def inZone (s : Settings) (zone : Value) : Settings := { s with defaultTimezone := zone }

theorem get_inZone (s : Settings) (zone : Value) (t : Setting) :
    (s.inZone zone).get t = if t = .defaultTimezone then zone else s.get t := by
  cases t <;> rfl

/-- Settings that have been accepted are read again as what they are. -/
theorem coerce_get_of_ofEntries {es : Entries Value Value} (h : ofEntries es = .ok s)
    (t : Setting) : t.coerce (s.get t) = .ok (s.get t) := by
  rcases exists_coerce_or_default h t with ⟨v, hcoerce⟩ | hdefault
  · exact Setting.coerce_of_coerce hcoerce
  · rw [hdefault]
    cases t <;> rfl

end Settings

/-! ### Settings written down and read -/

namespace Draft

theorem get?_entries (d : Draft) (t : Setting) : Entries.get? d.entries t.name = some (d.get t) := by
  cases t <;> rfl

theorem distinct_entries (d : Draft) : d.entries.Distinct := by
  show (Setting.all.map Setting.name).Nodup
  decide

theorem isSome_ofName?_of_mem_entries (d : Draft) :
    ∀ e ∈ d.entries, (Setting.ofName? e.1).isSome = true :=
  List.forall_mem_map.mpr fun t _ => by rw [Setting.ofName?_name, Option.isSome_some]

end Draft

namespace Settings

variable {s : Settings}

/-- Settings that are written down and read come back in the zone that is read from their zone;
where none is, they are not accepted. -/
theorem ofEntries_entries_eq (h : ∀ t : Setting, t.admits (s.get t) = true) :
    ofEntries (underNames s.entries) =
      (Setting.defaultTimezone.coerce s.defaultTimezone).map s.inZone := by
  cases hzone : Setting.defaultTimezone.coerce s.defaultTimezone with
  | ok zone =>
    refine ofEntries_underNames_eq_ok s.distinct_entries s.isSome_ofName?_of_mem_entries ?_
    intro t
    rw [s.get?_entries t, Setting.Gets.some_iff]
    by_cases hother : t = .defaultTimezone
    · rw [get_inZone, if_pos hother, hother]
      exact hzone
    · rw [get_inZone, if_neg hother]
      exact (Setting.coerce_eq_self_iff (h t)).mpr (Setting.standsForItself_of_admits hother (h t))
  | error e =>
    have hnames : unknownNames (underNames s.entries) = some [] :=
      unknownNames_eq_nil (List.forall_mem_map.mpr s.isSome_ofName?_of_mem_entries)
    -- the zone comes first
    have hread : (underNames s.entries).foldlM Draft.read {} = .error e := by
      show (Draft.read {} (.text "default_timezone", s.defaultTimezone) >>= _) = _
      rw [show Draft.read {} (.text "default_timezone", s.defaultTimezone) =
        (Setting.defaultTimezone.coerce s.defaultTimezone).map _ from rfl, hzone]
      rfl
    unfold ofEntries
    rw [hnames, hread]
    rfl

/-- Settings with values of the kinds they may be given are written down and read as what they are
exactly if their zone stands for itself. -/
theorem ofEntries_entries (h : ∀ t : Setting, t.admits (s.get t) = true) :
    ofEntries (underNames s.entries) =
        (Setting.defaultTimezone.coerce s.defaultTimezone).map s.inZone ∧
      (ofEntries (underNames s.entries) = .ok s ↔ s.defaultTimezone.StandsForItself) := by
  have heq := ofEntries_entries_eq h
  have hzone : Setting.defaultTimezone.coerce s.defaultTimezone = .ok s.defaultTimezone ↔
      s.defaultTimezone.StandsForItself := Setting.coerce_eq_self_iff (h .defaultTimezone)
  refine ⟨heq, ?_⟩
  rw [heq, ← hzone]
  constructor
  · intro hread
    cases hcoerce : Setting.defaultTimezone.coerce s.defaultTimezone with
    | ok zone =>
      rw [hcoerce] at hread
      rw [← Except.ok.inj hread]
      rfl
    | error e =>
      rw [hcoerce] at hread
      cases hread
  · intro hread
    rw [hread]
    rfl

/-- Universal time and a limit on ticks come back as they are. -/
theorem ofEntries_entries_universal :
    let s : Settings :=
      { defaultTimezone := .text "UTC", maxScanTicks := .int 100, ticks_pos := .inr rfl }
    (∀ t : Setting, t.admits (s.get t) = true) ∧ ofEntries (underNames s.entries) = .ok s := by
  intro s
  have h : ∀ t : Setting, t.admits (s.get t) = true := fun t => by cases t <;> rfl
  exact ⟨h, (ofEntries_entries h).2.mpr ⟨by decide, by decide, by decide⟩⟩

/-- A zone whose name is a word for nothing comes back as no zone. -/
theorem ofEntries_entries_ne_of_word :
    let s : Settings := { defaultTimezone := .text "none" }
    (∀ t : Setting, t.admits (s.get t) = true) ∧ ofEntries (underNames s.entries) = .ok {} ∧
      ofEntries (underNames s.entries) ≠ .ok s := by
  intro s
  have h : ∀ t : Setting, t.admits (s.get t) = true := fun t => by cases t <;> rfl
  have hread : ofEntries (underNames s.entries) = .ok {} := by
    rw [ofEntries_entries_eq h]
    rfl
  refine ⟨h, hread, fun hsame => ?_⟩
  rw [hread] at hsame
  have hzone := congrArg (fun s : Settings => s.defaultTimezone) (Except.ok.inj hsame)
  cases hzone

end Settings

end CronSchedule
