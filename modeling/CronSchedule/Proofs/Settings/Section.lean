import CronSchedule.Proofs.Settings.Keys

/-!
# The entries that a document gives

A file describes settings by a map, whole or under one key of a greater map, or by nothing at all.
Every other document describes none and is to be refused, so that no file is taken for settings by
mistake.

What fails is that a document is asked first whether it counts as absent, and only then whether it
is a map.  False, a zero, and an empty text, list, set or row of bytes count as absent, and are
taken for an empty file.  No other document is: all that count as present are told apart by their
kinds, and of those that do not, nothing and the empty map describe no entries anyway.

Neither where a file stands nor how its text is read matters here: the reader of documents may give
any value.

* `Value.Describes` — the entries that a document describes;
* `Value.IsOverlooked` — the documents that count as absent, and are neither nothing nor a map;
* `Value.IsAnsweredBy` — a document is answered with its entries, or refused where it has none;
* `documentEntries_isAnsweredBy_iff` — which documents are answered so;
* `FileSource.entries_isAnsweredBy_iff` — and which files.
-/

namespace CronSchedule

namespace Value

/-- The entries that a document describes: those of its section, or its own where it has no section;
and none where there is nothing. -/
inductive Describes : Value → Entries Value Value → Prop
  | inSection {whole es : Entries Value Value} :
      Entries.get? whole sectionKey = some (map es) → Describes (map whole) es
  | whole {es : Entries Value Value} : Entries.get? es sectionKey = none → Describes (map es) es
  | nothing : Describes null []

/-- The document counts as absent, and is neither nothing nor a map. -/
inductive IsOverlooked : Value → Prop
  | false : IsOverlooked (bool false)
  | zero : IsOverlooked (int 0)
  | floatZero {x : Decimal.Binary64} : x.isZero = true → IsOverlooked (float x)
  | emptyText : IsOverlooked (text "")
  | emptyRagged : IsOverlooked (ragged [])
  | emptyBytes : IsOverlooked (bytes [])
  | emptyList : IsOverlooked (list [])
  | emptySet : IsOverlooked (set [])

/-- The document is answered with the entries that it describes, and refused where it describes
none. -/
structure IsAnsweredBy (v : Value) (result : Except Error (Entries Value Value)) : Prop where
  described : ∀ es, result = .ok es ↔ v.Describes es
  refused : (∀ es, ¬ v.Describes es) → ∃ e : SettingsError, result = .error (.settings e)

theorem isOverlooked_iff {v : Value} :
    v.IsOverlooked ↔ v.isTruthy = false ∧ v ≠ null ∧ ∀ es, v ≠ map es := by
  constructor
  · intro h
    cases h with
    | floatZero hzero => simp [isTruthy, hzero]
    | _ => simp [isTruthy]
  · rintro ⟨habsent, hnull, hmap⟩
    cases v with
    | null => exact absurd rfl hnull
    | map es => exact absurd rfl (hmap es)
    | bool b =>
      obtain rfl : b = _ := habsent
      exact .false
    | int n =>
      obtain rfl : n = 0 := by simpa [isTruthy] using habsent
      exact .zero
    | float x => exact .floatZero (by simpa [isTruthy] using habsent)
    | text s =>
      obtain rfl : s = "" := by simpa [isTruthy] using habsent
      exact .emptyText
    | ragged s =>
      obtain rfl : s = [] := by simpa [isTruthy] using habsent
      exact .emptyRagged
    | bytes octets =>
      obtain rfl : octets = [] := by simpa [isTruthy] using habsent
      exact .emptyBytes
    | list items =>
      obtain rfl : items = [] := by simpa [isTruthy] using habsent
      exact .emptyList
    | set items =>
      obtain rfl : items = [] := by simpa [isTruthy] using habsent
      exact .emptySet
    | date d => cases habsent
    | moment d => cases habsent
    | pair v w => cases habsent

/-- Only nothing and maps describe entries. -/
theorem Describes.cases_kind {v : Value} {es : Entries Value Value} (h : v.Describes es) :
    v = null ∨ ∃ whole, v = map whole := by
  cases h with
  | inSection => exact .inr ⟨_, rfl⟩
  | whole => exact .inr ⟨_, rfl⟩
  | nothing => exact .inl rfl

/-- A document describes its entries in one way only. -/
theorem Describes.unique {v : Value} {es es' : Entries Value Value} (h : v.Describes es)
    (h' : v.Describes es') : es = es' := by
  cases h with
  | inSection hsome =>
    rcases h' with hsome' | hnone
    · exact map.inj (Option.some.inj (hsome.symm.trans hsome'))
    · exact absurd (hnone.symm.trans hsome) (Option.some_ne_none _).symm
  | whole hnone =>
    rcases h' with hsome | -
    · exact absurd (hnone.symm.trans hsome) (Option.some_ne_none _).symm
    · rfl
  | nothing =>
    cases h'
    rfl

theorem isAnsweredBy_ok {v : Value} {es : Entries Value Value} (h : v.Describes es) :
    v.IsAnsweredBy (.ok es) where
  described es' := by
    constructor
    · intro hsame
      exact Except.ok.inj hsame ▸ h
    · intro h'
      rw [h.unique h']
  refused hnone := absurd h (hnone es)

theorem isAnsweredBy_refusal {v : Value} (hnone : ∀ es, ¬ v.Describes es) (e : SettingsError) :
    v.IsAnsweredBy (.error (.settings e)) where
  described es := iff_of_false nofun (hnone es)
  refused _ := ⟨e, rfl⟩

end Value

/-! ### Documents -/

/-- A document that counts as absent is taken for an empty one. -/
theorem documentEntries_of_absent {name : String} {v : Value} (h : v.isTruthy = false) :
    documentEntries name v = .ok [] := by
  unfold documentEntries
  rw [if_pos (by rw [h]; rfl)]

/-- A document that counts as present and is no map is refused. -/
theorem documentEntries_of_present {name : String} {v : Value} (h : v.isTruthy = true)
    (hmap : ∀ es, v ≠ .map es) :
    documentEntries name v = .error (.settings (.fileNotAMapping name)) := by
  unfold documentEntries
  rw [if_neg (by rw [h]; exact Bool.false_ne_true)]
  split
  · exact absurd rfl (hmap _)
  · rfl

/-- A map is answered with the entries that it describes, and refused where its section is no
map. -/
theorem isAnsweredBy_map (name : String) (es : Entries Value Value) :
    (Value.map es).IsAnsweredBy (documentEntries name (.map es)) := by
  cases es with
  | nil =>
    rw [documentEntries_of_absent rfl]
    exact Value.isAnsweredBy_ok (.whole rfl)
  | cons e rest =>
    unfold documentEntries
    rw [if_neg (by simp [Value.isTruthy])]
    dsimp only
    split
    · next hnone => exact Value.isAnsweredBy_ok (.whole hnone)
    · next inner hinner => exact Value.isAnsweredBy_ok (.inSection hinner)
    · next other hother hsome =>
      refine Value.isAnsweredBy_refusal (fun es hes => ?_) _
      rcases hes with hsection | hnone
      · exact hother _ (Option.some.inj (hsome.symm.trans hsection))
      · exact Option.some_ne_none _ (hsome.symm.trans hnone)

/-- A document is answered with the entries that it describes, or refused where it describes none,
exactly if it is not overlooked. -/
theorem documentEntries_isAnsweredBy_iff (name : String) (v : Value) :
    v.IsAnsweredBy (documentEntries name v) ↔ ¬ v.IsOverlooked := by
  rw [Value.isOverlooked_iff]
  constructor
  · rintro ⟨hdescribed, -⟩ ⟨habsent, hnull, hmap⟩
    rcases ((hdescribed []).mp (documentEntries_of_absent habsent)).cases_kind with h | ⟨whole, h⟩
    · exact hnull h
    · exact hmap whole h
  · intro hseen
    by_cases hmap : ∃ es, v = .map es
    · obtain ⟨es, rfl⟩ := hmap
      exact isAnsweredBy_map name es
    by_cases hnull : v = .null
    · subst hnull
      rw [documentEntries_of_absent rfl]
      exact Value.isAnsweredBy_ok .nothing
    · -- what is neither is present, and describes nothing
      rw [not_exists] at hmap
      have hpresent : v.isTruthy = true :=
        Bool.of_not_eq_false fun habsent => hseen ⟨habsent, hnull, hmap⟩
      rw [documentEntries_of_present hpresent hmap]
      refine Value.isAnsweredBy_refusal (fun es hes => ?_) _
      rcases hes.cases_kind with hnull' | ⟨whole, hwhole⟩
      · exact hnull hnull'
      · exact hmap whole hwhole

/-! ### Files -/

/-- The file at a path is answered with the entries that its document describes, or refused where
the document describes none, exactly if the document is not overlooked; an overlooked one passes for
an empty file. -/
theorem FileSource.entries_isAnsweredBy_iff {files : FileSource} {path : String}
    {text : List Char} {v : Value} (hread : files.read path = .ok text)
    (hparse : files.parse text = .ok v) :
    (v.IsAnsweredBy (files.entries path) ↔ ¬ v.IsOverlooked) ∧
      (v.IsOverlooked → files.entries path = .ok []) := by
  have hentries : files.entries path = documentEntries (pathName path) v := by
    unfold FileSource.entries
    rw [hread, ok_bind, hparse]
  rw [hentries]
  refine ⟨documentEntries_isAnsweredBy_iff (pathName path) v, fun hoverlooked => ?_⟩
  exact documentEntries_of_absent (Value.isOverlooked_iff.mp hoverlooked).1

/-- A file that is a map without a section gives the entries of the map. -/
theorem FileSource.entries_withoutSection :
    let files : FileSource := { table := [("/etc/app.yaml", "{a: 1}".toUTF8)] }
    let whole : Entries Value Value := [(.text "a", .int 1)]
    files.read "/etc/app.yaml" = .ok "{a: 1}".toList ∧
      files.parse "{a: 1}".toList = .ok (.map whole) ∧
      files.entries "/etc/app.yaml" = .ok whole := by
  intro files whole
  have hread : files.read "/etc/app.yaml" = .ok "{a: 1}".toList := rfl
  have hparse : files.parse "{a: 1}".toList = .ok (.map whole) := rfl
  have hseen : ¬ (Value.map whole).IsOverlooked := nofun
  have hanswered := (entries_isAnsweredBy_iff hread hparse).1.mpr hseen
  exact ⟨hread, hparse, (hanswered.described whole).mpr (.whole rfl)⟩

/-- An empty list is no map, and passes for an empty file. -/
theorem FileSource.entries_emptyList :
    let files : FileSource := { table := [("c.yaml", "[]".toUTF8)] }
    files.read "c.yaml" = .ok "[]".toList ∧ files.parse "[]".toList = .ok (.list []) ∧
      files.entries "c.yaml" = .ok [] ∧
      ¬ (Value.list []).IsAnsweredBy (files.entries "c.yaml") := by
  intro files
  have hentries : files.entries "c.yaml" = .ok [] := rfl
  refine ⟨rfl, rfl, hentries, fun hanswered => ?_⟩
  rw [hentries] at hanswered
  cases (hanswered.described []).mp rfl

end CronSchedule
