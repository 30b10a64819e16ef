import CronSchedule.Proofs.Enumerate.Window
import CronSchedule.Settings.Sources

/-!
# Entries that are accepted as settings

Entries are read one after the other into a draft that starts with the defaults.  So a setting
gets what its last entry says, or else keeps its default, and every value that comes out is of a
kind that the setting may be given.

* `Setting.Gets` — what a setting gets from a value that is given for it, if any;
* `lastValue?`, `Draft.gets_of_foldlM_read` — what each setting gets from entries, with
  `lastValue?_underNames` for entries under names none of which occurs twice;
* `Settings.ofEntries_eq_ok_iff` — settings that are accepted are the draft that is read;
* `Settings.admits_of_ofEntries` — settings that are accepted have values of the kinds they may be
  given, `Settings.exists_days_of_ofEntries` — among them a positive number of days.
-/

namespace CronSchedule

/-! ### Single entries -/

theorem Setting.ofName?_eq_some_iff {name : String} {s : Setting} :
    ofName? name = some s ↔ name = s.name :=
  ⟨fun h => (name_of_ofName? h).symm, fun h => h ▸ ofName?_name s⟩

/-- An entry that is read names a setting and says something of a kind that it may be given. -/
theorem Draft.read_eq_ok_iff {d d' : Draft} {e : Value × Value} :
    d.read e = .ok d' ↔
      ∃ s v, entrySetting? e = some s ∧ s.coerce e.2 = .ok v ∧ d.set s v = d' := by
  unfold read
  cases entrySetting? e with
  | none => simp
  | some s => cases hcoerce : s.coerce e.2 <;> simp [Except.map, hcoerce]

/-- What a setting has in place of an old value: what the value says that is given for it, and the
old value where none is given. -/
def Setting.Gets (t : Setting) (given : Option Value) (old new : Value) : Prop :=
  match given with
  | some v => t.coerce v = .ok new
  | none => new = old

namespace Setting.Gets

variable {t : Setting} {given : Option Value} {old new v : Value}

@[simp] theorem some_iff : t.Gets (some v) old new ↔ t.coerce v = .ok new := Iff.rfl

@[simp] theorem none_iff : t.Gets none old new ↔ new = old := Iff.rfl

theorem unique {new' : Value} (h : t.Gets given old new) (h' : t.Gets given old new') :
    new = new' := by
  cases given with
  | some v => exact Except.ok.inj (h.symm.trans h')
  | none => exact h.trans h'.symm

end Setting.Gets

/-! ### Several entries -/

/-- The value that entries give for a setting: that of the last one that names it. -/
def lastValue? (es : Entries Value Value) (t : Setting) : Option Value :=
  (es.filterMap fun e => if entrySetting? e = some t then some e.2 else none).getLast?

theorem lastValue?_cons (e : Value × Value) (es : Entries Value Value) (t : Setting) :
    lastValue? (e :: es) t =
      (lastValue? es t).or (if entrySetting? e = some t then some e.2 else none) := by
  unfold lastValue?
  by_cases h : entrySetting? e = some t
  · simp only [List.filterMap_cons, if_pos h, List.getLast?_cons]
    cases (es.filterMap _).getLast? <;> rfl
  · simp only [List.filterMap_cons, if_neg h, Option.or_none]

/-- Entries under names, none of which occurs twice, give what is read under the name. -/
theorem lastValue?_underNames {es : Entries String Value} (h : es.Distinct) (t : Setting) :
    lastValue? (underNames es) t = Entries.get? es t.name := by
  induction es with
  | nil => rfl
  | cons e es ih =>
    obtain ⟨hnew, hrest⟩ := List.nodup_cons.mp h
    have hnamed : entrySetting? (.text e.1, e.2) = some t ↔ e.1 = t.name :=
      Setting.ofName?_eq_some_iff
    rw [underNames, List.map_cons, lastValue?_cons, ← underNames, ih hrest, Entries.get?_cons]
    by_cases he : e.1 = t.name
    · rw [if_pos (hnamed.mpr he), if_pos (beq_iff_eq.mpr he),
        Entries.get?_eq_none_iff.mpr (he ▸ hnew), Option.none_or]
    · rw [if_neg (mt hnamed.mp he), if_neg (mt beq_iff_eq.mp he), Option.or_none]

namespace Draft

variable {es : Entries Value Value} {d d' : Draft}

/-- A setting gets what its last entry says, and keeps its value where no entry names it. -/
theorem gets_of_foldlM_read (h : es.foldlM read d = .ok d') (t : Setting) :
    t.Gets (lastValue? es t) (d.get t) (d'.get t) := by
  induction es generalizing d with
  | nil =>
    cases h
    rfl
  | cons e es ih =>
    rw [List.foldlM_cons] at h
    obtain ⟨between, hfirst, hrest⟩ := bind_eq_ok_iff.mp h
    have hlater := ih hrest
    rw [lastValue?_cons]
    cases hlast : lastValue? es t with
    | some v =>
      rw [hlast] at hlater
      exact hlater
    | none =>
      rw [hlast, Setting.Gets.none_iff] at hlater
      obtain ⟨s, v, hname, hcoerce, rfl⟩ := read_eq_ok_iff.mp hfirst
      rw [get_set] at hlater
      by_cases hs : s = t
      · subst hs
        simpa [hname, hlater] using hcoerce
      · simpa [hname, hs] using hlater

/-- Entries are read when each of them names a setting and says something that the setting may be
given. -/
theorem exists_foldlM_read_iff :
    (∃ d', es.foldlM read d = .ok d') ↔
      ∀ e ∈ es, ∃ s v, entrySetting? e = some s ∧ s.coerce e.2 = .ok v := by
  induction es generalizing d with
  | nil => exact ⟨fun _ => List.forall_mem_nil _, fun _ => ⟨d, rfl⟩⟩
  | cons e es ih =>
    rw [List.forall_mem_cons]
    constructor
    · rintro ⟨d', h⟩
      rw [List.foldlM_cons] at h
      obtain ⟨between, hfirst, hrest⟩ := bind_eq_ok_iff.mp h
      obtain ⟨s, v, hname, hcoerce, -⟩ := read_eq_ok_iff.mp hfirst
      exact ⟨⟨s, v, hname, hcoerce⟩, ih.mp ⟨d', hrest⟩⟩
    · rintro ⟨⟨s, v, hname, hcoerce⟩, hrest⟩
      obtain ⟨d', hd'⟩ := ih.mpr hrest
      refine ⟨d', ?_⟩
      rw [List.foldlM_cons, read_eq_ok_iff.mpr ⟨s, v, hname, hcoerce, rfl⟩]
      exact hd'

end Draft

/-! ### Accepted settings -/

/-- Where everything is read as something that is dropped, nothing is left to be sorted. -/
theorem sorted_filter_mapM_eq_nil {α β : Type} {l : List α} {f : α → Option β} {keep : β → Bool}
    {le : β → β → Bool} (h : ∀ a ∈ l, ∃ b, f a = some b ∧ keep b = false) :
    ((l.mapM f).bind fun bs => some ((bs.filter keep).mergeSort le)) = some [] := by
  have hdropped : ∃ bs, l.mapM f = some bs ∧ bs.filter keep = [] := by
    induction l with
    | nil => exact ⟨[], rfl, rfl⟩
    | cons a l ih =>
      obtain ⟨⟨b, hread, hkeep⟩, hrest⟩ := List.forall_mem_cons.mp h
      obtain ⟨bs, hmapM, hnil⟩ := ih hrest
      refine ⟨b :: bs, ?_, ?_⟩
      · rw [List.mapM_cons, hread, hmapM]
        rfl
      · rw [List.filter_cons_of_neg (Bool.eq_false_iff.mp hkeep), hnil]
  obtain ⟨bs, hmapM, hnil⟩ := hdropped
  rw [hmapM, Option.bind_some, hnil, List.mergeSort_nil]

/-- Where every entry names a setting no name is unknown. -/
theorem unknownNames_eq_nil {es : Entries Value Value}
    (h : ∀ e ∈ es, (entrySetting? e).isSome = true) : unknownNames es = some [] := by
  refine sorted_filter_mapM_eq_nil fun e he => ?_
  have hsome := h e he
  obtain ⟨key, v⟩ := e
  cases key with
  | text name =>
    have hcharacters : Text.characters? (Text.symbols name) = some name.toList :=
      Text.characters?_eq_some_iff.mpr rfl
    refine ⟨Text.symbols name, rfl, ?_⟩
    rw [hcharacters, Option.bind_some, String.ofList_toList]
    exact Option.isNone_eq_false_iff.mpr hsome
  | _ => cases hsome

namespace Settings

variable {es : Entries Value Value} {accepted : Settings}

/-- Settings that are accepted are the draft that is read from the entries. -/
theorem ofEntries_eq_ok_iff :
    ofEntries es = .ok accepted ↔ es.foldlM Draft.read {} = .ok accepted.toDraft := by
  have hknown (h : unknownNames es = some []) :
      ofEntries es = es.foldlM Draft.read {} >>= Draft.settings := by
    unfold ofEntries
    rw [h]
  constructor
  · intro h
    have hnames : unknownNames es = some [] := by
      unfold ofEntries at h
      cases hunknown : unknownNames es with
      | none =>
        rw [hunknown] at h
        cases h
      | some names =>
        rw [hunknown] at h
        cases names with
        | nil => rfl
        | cons name names => cases h
    rw [hknown hnames] at h
    obtain ⟨d, hd, hsettings⟩ := bind_eq_ok_iff.mp h
    rw [hd, Draft.settings_eq_ok_iff.mp hsettings]
  · intro h
    have hnamed (e : Value × Value) (he : e ∈ es) : (entrySetting? e).isSome = true := by
      obtain ⟨s, v, hname, -⟩ := Draft.exists_foldlM_read_iff.mp ⟨_, h⟩ e he
      exact Option.isSome_of_eq_some hname
    rw [hknown (unknownNames_eq_nil hnamed), h]
    exact Draft.settings_eq_ok_iff.mpr rfl

/-- A setting that is accepted from entries under names, none of which occurs twice, has what the
entry under its name says, or else its default. -/
theorem gets_of_ofEntries_underNames {es : Entries String Value} (hdistinct : es.Distinct)
    (h : ofEntries (underNames es) = .ok accepted) (t : Setting) :
    t.Gets (Entries.get? es t.name) (Draft.get {} t) (accepted.get t) := by
  rw [← lastValue?_underNames hdistinct]
  exact Draft.gets_of_foldlM_read (ofEntries_eq_ok_iff.mp h) t

/-- Where each of these entries names a setting, this tells the settings that are accepted. -/
theorem ofEntries_underNames_eq_ok {es : Entries String Value} (hdistinct : es.Distinct)
    (hnames : ∀ e ∈ es, (Setting.ofName? e.1).isSome = true)
    (h : ∀ t : Setting, t.Gets (Entries.get? es t.name) (Draft.get {} t) (accepted.get t)) :
    ofEntries (underNames es) = .ok accepted := by
  obtain ⟨d, hd⟩ : ∃ d, (underNames es).foldlM Draft.read {} = .ok d := by
    refine Draft.exists_foldlM_read_iff.mpr (List.forall_mem_map.mpr fun e he => ?_)
    obtain ⟨s, hs⟩ := Option.isSome_iff_exists.mp (hnames e he)
    have hget := Entries.get?_of_mem hdistinct he
    have hgiven := h s
    rw [Setting.ofName?_eq_some_iff.mp hs] at hget
    rw [hget] at hgiven
    exact ⟨s, accepted.get s, hs, hgiven⟩
  rw [ofEntries_eq_ok_iff, hd]
  refine congrArg Except.ok (Draft.ext fun t => ?_)
  have hread := Draft.gets_of_foldlM_read hd t
  rw [lastValue?_underNames hdistinct] at hread
  exact hread.unique (h t)

/-- Whatever is accepted for a setting has been read from an entry, or is its default. -/
theorem exists_coerce_or_default (h : ofEntries es = .ok accepted) (t : Setting) :
    (∃ v, t.coerce v = .ok (accepted.get t)) ∨ accepted.get t = Draft.get {} t := by
  have hread := Draft.gets_of_foldlM_read (ofEntries_eq_ok_iff.mp h) t
  cases hlast : lastValue? es t with
  | some v =>
    rw [hlast] at hread
    exact .inl ⟨v, hread⟩
  | none =>
    rw [hlast] at hread
    exact .inr hread

/-- Every setting that is accepted has a value of a kind that it may be given: its default has, and
so has whatever is read from an entry. -/
theorem admits_of_ofEntries (h : ofEntries es = .ok accepted) (t : Setting) :
    t.admits (accepted.get t) = true := by
  rcases exists_coerce_or_default h t with ⟨v, hcoerce⟩ | hdefault
  · exact Setting.admits_of_coerce hcoerce
  · rw [hdefault]
    cases t <;> rfl

/-- The horizon of settings that are accepted is a positive number of days. -/
theorem exists_days_of_ofEntries (h : ofEntries es = .ok accepted) :
    ∃ days : Int, 0 < days ∧ accepted.searchHorizonDays = .int days := by
  have hadmits : Setting.admits .searchHorizonDays accepted.searchHorizonDays = true :=
    admits_of_ofEntries h .searchHorizonDays
  have hpos := accepted.days_pos
  cases hvalue : accepted.searchHorizonDays with
  | int days =>
    rw [hvalue] at hpos
    exact ⟨days, of_decide_eq_true (Option.some.inj hpos), rfl⟩
  | _ =>
    rw [hvalue] at hadmits
    cases hadmits

/-- Any positive number of days is accepted for the horizon, with everything else by default. -/
theorem ofEntries_searchHorizonDays {days : Int} (hpos : 0 < days) :
    ofEntries [(.text "search_horizon_days", .int days)] =
      .ok { searchHorizonDays := .int days, days_pos := congrArg some (decide_eq_true hpos) } :=
  ofEntries_eq_ok_iff.mpr rfl

/-- Without entries everything has its default. -/
theorem ofEntries_nil : ofEntries [] = .ok {} := ofEntries_eq_ok_iff.mpr rfl

end Settings

end CronSchedule
