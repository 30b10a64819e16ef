import CronSchedule.Proofs.Settings.Accepted

/-!
# Keys of a file

The entries that a file gives are those of a map, whose keys are values of any kind.  Different
values may be one key, such as 1 and 1.0, but a text is one key with itself only.  So entries in
which no key occurs twice give each setting one value at most, and variables that are written over
them replace it.

That no key occurs twice is asked of the reader of documents, for the whole document and for its
section.  `Yaml.parse` answers it: it puts a map together by writing, and takes no plain scalar for
a map.

* `Entries.Apart` — no key occurs twice, and `Entries.apart_merge` — writing keeps it so;
* `Entries.get?_merge_underNames` — what is read behind the writing of entries under names;
* `lastValue?_eq_get?` — the value that is given for a setting is the one under its name;
* `DocumentReader.KeepsKeysApart` — what is asked of a reader, and `Yaml.keepsKeysApart_parse`;
* `FileSource.apart_of_entries` — no key of a file's entries occurs twice;
* `Settings.ofEntries_eq_ok_iff_gets` — what is accepted of such entries.
-/

namespace CronSchedule

/-! ### Keys that occur once -/

namespace Entries

variable {κ ν : Type} [BEq κ]

/-- No key occurs twice. -/
def Apart (es : Entries κ ν) : Prop := (es.map (·.1)).Pairwise fun k k' => (k == k') = false

/-- Writing keeps the keys, and puts one that is new behind them. -/
theorem keys_put (es : Entries κ ν) (k : κ) (v : ν) :
    (put es k v).map (·.1) =
      if es.any (·.1 == k) then es.map (·.1) else es.map (·.1) ++ [k] := by
  induction es with
  | nil => rfl
  | cons e es ih =>
    unfold put
    cases he : e.1 == k with
    | true => simp [he]
    | false =>
      simp only [Bool.false_eq_true, if_false, List.map_cons, ih, List.any_cons, he, Bool.false_or]
      split <;> rfl

theorem apart_put {es : Entries κ ν} (h : es.Apart) (k : κ) (v : ν) : Apart (put es k v) := by
  unfold Apart
  rw [keys_put]
  split
  · exact h
  · next hnew =>
    refine List.pairwise_append.mpr ⟨h, List.pairwise_singleton _ k, ?_⟩
    intro k' hk' _ hk
    obtain rfl := List.mem_singleton.mp hk
    obtain ⟨e, he, rfl⟩ := List.mem_map.mp hk'
    exact Bool.eq_false_iff.mpr fun heq => hnew (List.any_eq_true.mpr ⟨e, he, heq⟩)

theorem apart_merge {es : Entries κ ν} (h : es.Apart) (later : Entries κ ν) :
    Apart (merge es later) := by
  induction later generalizing es with
  | nil => exact h
  | cons e later ih => exact ih (apart_put h e.1 e.2)

theorem apart_nil : Apart ([] : Entries κ ν) := List.Pairwise.nil

theorem apart_ofList (pairs : List (κ × ν)) : Apart (ofList pairs) := apart_merge apart_nil pairs

/-- What holds of all values, those that are written included, holds of them behind the writing. -/
theorem forall_merge {P : ν → Prop} {es later : Entries κ ν} (h : ∀ e ∈ es, P e.2)
    (hlater : ∀ e ∈ later, P e.2) : ∀ e ∈ merge es later, P e.2 := by
  induction later generalizing es with
  | nil => exact h
  | cons e later ih =>
    obtain ⟨hvalue, hrest⟩ := List.forall_mem_cons.mp hlater
    have hput : ∀ es : Entries κ ν, (∀ e ∈ es, P e.2) → ∀ f ∈ put es e.1 e.2, P f.2 := by
      intro es hes
      induction es with
      | nil => exact List.forall_mem_singleton.mpr hvalue
      | cons f es ih =>
        obtain ⟨hf, hes⟩ := List.forall_mem_cons.mp hes
        unfold put
        split
        · exact List.forall_mem_cons.mpr ⟨hvalue, hes⟩
        · exact List.forall_mem_cons.mpr ⟨hf, ih hes⟩
    exact ih (hput es h) hrest

/-- Where the keys that are written have a property, all keys have it behind the writing exactly if
all have it before. -/
theorem forall_keys_merge_iff {Q : κ → Prop} {es later : Entries κ ν}
    (hlater : ∀ e ∈ later, Q e.1) :
    (∀ k ∈ (merge es later).map (·.1), Q k) ↔ ∀ k ∈ es.map (·.1), Q k := by
  induction later generalizing es with
  | nil => exact Iff.rfl
  | cons e later ih =>
    obtain ⟨hkey, hrest⟩ := List.forall_mem_cons.mp hlater
    show (∀ k ∈ (merge (put es e.1 e.2) later).map (·.1), Q k) ↔ _
    rw [ih hrest, keys_put]
    split
    · exact Iff.rfl
    · rw [List.forall_mem_append]
      exact and_iff_left (List.forall_mem_singleton.mpr hkey)

end Entries

/-! ### Texts as keys -/

/-- A text is one key with itself only. -/
theorem Value.beq_text_iff {v : Value} {s : String} : (v == text s) = true ↔ v = text s := by
  show sameKey v (text s) = true ↔ _
  cases v with
  | float x =>
    unfold sameKey
    cases (float x).whole? <;> simp [whole?]
  | _ => simp [sameKey, whole?]

namespace Entries

variable {es : Entries Value Value}

/-- Texts under texts. -/
def ofTexts (texts : List (String × String)) : Entries Value Value :=
  texts.map fun e => (.text e.1, .text e.2)

/-- Entries of texts are known by comparison. -/
theorem eq_ofTexts_of_beq {texts : List (String × String)} (h : (es == ofTexts texts) = true) :
    es = ofTexts texts := by
  induction texts generalizing es with
  | nil =>
    cases es with
    | nil => rfl
    | cons e es => cases h
  | cons e texts ih =>
    cases es with
    | nil => cases h
    | cons f es =>
      obtain ⟨hfirst, hrest⟩ := (Bool.and_eq_true _ _).mp h
      obtain ⟨hkey, hvalue⟩ := (Bool.and_eq_true _ _).mp hfirst
      have hf : f = (.text e.1, .text e.2) :=
        Prod.ext (Value.beq_text_iff.mp hkey) (Value.beq_text_iff.mp hvalue)
      rw [hf, ih hrest]
      rfl

/-- What is read under a text behind a write under a text. -/
theorem get?_put_text (es : Entries Value Value) (s s' : String) (v : Value) :
    get? (put es (.text s) v) (.text s') = if s = s' then some v else get? es (.text s') := by
  induction es with
  | nil =>
    rw [put, get?_cons, get?_nil]
    simp only [Value.beq_text_iff, Value.text.injEq]
  | cons e es ih =>
    unfold put
    split
    · next he =>
      rw [get?_cons, get?_cons, Value.beq_text_iff.mp he]
      simp only [Value.beq_text_iff, Value.text.injEq]
      split <;> rfl
    · next he =>
      rw [get?_cons, get?_cons, ih]
      by_cases hs : s = s'
      · subst hs
        rw [if_pos rfl, if_neg he, if_pos rfl]
      · rw [if_neg hs, if_neg hs]

/-- What is read under a text behind the writing of entries under names, none of which occurs
twice. -/
theorem get?_merge_underNames {given : Entries String Value} (hgiven : given.Distinct)
    (es : Entries Value Value) (s : String) :
    get? (merge es (underNames given)) (.text s) = (get? given s).or (get? es (.text s)) := by
  induction given generalizing es with
  | nil => rfl
  | cons e given ih =>
    obtain ⟨hnew, hrest⟩ := List.nodup_cons.mp hgiven
    show get? (merge (put es (.text e.1) e.2) (underNames given)) (.text s) = _
    rw [ih hrest, get?_put_text, get?_cons]
    by_cases hs : e.1 = s
    · subst hs
      rw [get?_eq_none_iff.mpr hnew, if_pos rfl, if_pos (beq_self_eq_true _), Option.none_or,
        Option.some_or]
    · rw [if_neg hs, if_neg (mt beq_iff_eq.mp hs)]

/-- Where no key occurs twice, an entry under a text is the one that is read. -/
theorem Apart.get?_of_mem_text (h : es.Apart) {e : Value × Value} (he : e ∈ es) {s : String}
    (hs : e.1 = .text s) : get? es (.text s) = some e.2 := by
  induction es with
  | nil => cases he
  | cons f es ih =>
    obtain ⟨hnew, hrest⟩ := List.pairwise_cons.mp h
    rw [get?_cons]
    rcases List.mem_cons.mp he with rfl | he
    · rw [if_pos (Value.beq_text_iff.mpr hs)]
    · have happart : (f.1 == e.1) = false := hnew e.1 (List.mem_map_of_mem he)
      rw [← hs, happart, if_neg Bool.false_ne_true, hs, ih hrest he]

end Entries

/-- An entry names a setting by a text that is the name of the setting. -/
theorem entrySetting?_eq_some_iff {e : Value × Value} {t : Setting} :
    entrySetting? e = some t ↔ e.1 = .text t.name := by
  unfold entrySetting?
  cases e.1 with
  | text name => rw [Setting.ofName?_eq_some_iff, Value.text.injEq]
  | _ => simp

/-- Where no key occurs twice, the value that is given for a setting is the one under its name. -/
theorem lastValue?_eq_get? {es : Entries Value Value} (h : es.Apart) (t : Setting) :
    lastValue? es t = Entries.get? es (.text t.name) := by
  cases hlast : lastValue? es t with
  | some v =>
    have hmem : v ∈ es.filterMap fun e => if entrySetting? e = some t then some e.2 else none :=
      List.mem_of_getLast? hlast
    obtain ⟨e, he, hv⟩ := List.mem_filterMap.mp hmem
    obtain ⟨hname, rfl⟩ := (Option.ite_none_right_eq_some.mp hv).imp_right Option.some.inj
    exact (h.get?_of_mem_text he (entrySetting?_eq_some_iff.mp hname)).symm
  | none =>
    have hnone := List.filterMap_eq_nil_iff.mp (List.getLast?_eq_none_iff.mp hlast)
    refine (Option.map_eq_none_iff.mpr (List.find?_eq_none.mpr fun e he hsame => ?_)).symm
    have hname := entrySetting?_eq_some_iff.mpr (Value.beq_text_iff.mp hsame)
    exact Option.some_ne_none _ ((if_pos hname).symm.trans (hnone e he))

/-! ### Maps of a document -/

/-- The reader keeps keys apart: no key occurs twice in a map that is the document, nor in one that
stands behind a key of it. -/
structure DocumentReader.KeepsKeysApart (parse : DocumentReader) : Prop where
  document {text : List Char} {es : Entries Value Value} : parse text = .ok (.map es) → es.Apart
  behindKey {text : List Char} {whole es : Entries Value Value} {k : Value} :
    parse text = .ok (.map whole) → (k, .map es) ∈ whole → es.Apart

namespace Yaml

/-- A date and a time are never a map. -/
theorem timestamp?_ne_map (s : List Char) (es : List (Value × Value)) :
    timestamp? s ≠ some (.ok (.map es)) := by
  have htime (time : ClockTime) (date : Date) : time.on date ≠ .ok (.map es) := by
    unfold ClockTime.on
    split
    · exact fun h => by cases h
    · split <;> exact fun h => by cases h
  intro h
  unfold timestamp? at h
  obtain ⟨⟨date, rest⟩, -, h⟩ := Option.bind_eq_some_iff.mp h
  dsimp only at h
  split at h
  · split at h
    · cases h
    · split at h <;> cases h
  · obtain ⟨behind, -, h⟩ := Option.bind_eq_some_iff.mp h
    obtain ⟨time, -, h⟩ := Option.bind_eq_some_iff.mp h
    exact htime time date (Option.some.inj h)

/-- A plain scalar is never a map. -/
theorem resolve_ne_map (s : List Char) (es : List (Value × Value)) :
    resolve s ≠ .ok (.map es) := by
  have hmap {α : Type} (r : Except Refusal α) (f : α → Value) (hf : ∀ a, f a ≠ .map es) :
      r.map f ≠ .ok (.map es) := by
    cases r with
    | error refusal => exact fun h => by cases h
    | ok a => exact fun h => hf a (Except.ok.inj h)
  unfold resolve
  dsimp only
  split
  · exact fun h => by cases h
  split
  · exact fun h => by cases h
  split
  · exact hmap _ _ fun n h => by cases h
  split
  · exact hmap _ _ fun x h => by cases h
  split
  · exact fun h => by cases h
  split
  · exact fun h => by cases h
  split
  · exact fun h => by cases h
  split
  · next hresult => exact fun h => timestamp?_ne_map s es (h ▸ hresult)
  · exact fun h => by cases h

theorem map_eq_ok_iff {ε α β : Type} {r : Except ε α} {f : α → β} {b : β} :
    r.map f = .ok b ↔ ∃ a, r = .ok a ∧ f a = b := by
  cases r <;> simp [Except.map]

theorem both_eq_ok_iff {α β : Type} {a : Except DeepRefusal α} {b : Except DeepRefusal β}
    {x : α} {y : β} : both a b = .ok (x, y) ↔ a = .ok x ∧ b = .ok y := by
  cases a <;> cases b <;> simp [both]

namespace Node

/-- The entries of a map of a document are written one after the other. -/
theorem exists_pairs_of_deepValue {n : Node} {es : List (Value × Value)}
    (h : n.deepValue = .ok (.map es)) :
    ∃ nodes pairs, entryValues nodes = .ok pairs ∧ es = Entries.ofList pairs := by
  cases n with
  | plain s =>
    rw [deepValue] at h
    cases hs : resolve s with
    | error refusal =>
      rw [hs] at h
      cases h
    | ok v =>
      rw [hs] at h
      exact absurd (hs.trans (congrArg Except.ok (Except.ok.inj h))) (resolve_ne_map s es)
  | quoted s =>
    rw [deepValue] at h
    unfold Value.ofSymbols at h
    split at h <;> cases h
  | list items =>
    rw [deepValue] at h
    obtain ⟨vs, -, hlist⟩ := map_eq_ok_iff.mp h
    cases hlist
  | map entries =>
    rw [deepValue] at h
    obtain ⟨pairs, hpairs, hmap⟩ := map_eq_ok_iff.mp h
    exact ⟨entries, pairs, hpairs, (Value.map.inj hmap).symm⟩
  | unmergeable =>
    rw [deepValue] at h
    cases h

/-- No key of a map of a document occurs twice. -/
theorem apart_of_deepValue {n : Node} {es : List (Value × Value)}
    (h : n.deepValue = .ok (.map es)) : Entries.Apart es := by
  obtain ⟨nodes, pairs, -, rfl⟩ := exists_pairs_of_deepValue h
  exact Entries.apart_ofList pairs

theorem deepValue_of_mem_entryValues {nodes : List (Node × Node)} {pairs : List (Value × Value)}
    (h : entryValues nodes = .ok pairs) : ∀ e ∈ pairs, ∃ m : Node, m.deepValue = .ok e.2 := by
  induction nodes generalizing pairs with
  | nil =>
    rw [entryValues] at h
    obtain rfl := Except.ok.inj h
    exact List.forall_mem_nil _
  | cons node nodes ih =>
    obtain ⟨k, m⟩ := node
    unfold entryValues at h
    obtain ⟨⟨⟨key, v⟩, rest⟩, hboth, rfl⟩ := map_eq_ok_iff.mp h
    obtain ⟨hfirst, hrest⟩ := both_eq_ok_iff.mp hboth
    obtain ⟨-, hv⟩ := both_eq_ok_iff.mp hfirst
    refine List.forall_mem_cons.mpr ⟨⟨m, ?_⟩, ih hrest⟩
    -- only the depth of a refusal is changed
    unfold lowered at hv
    split at hv
    · exact hv
    · exact hv
    · cases hm : m.deepValue with
      | error refusal =>
        rw [hm] at hv
        cases hv
      | ok w =>
        rw [hm] at hv
        exact hv

/-- The values of a map of a document are values of nodes. -/
theorem exists_deepValue_of_mem {n : Node} {es : List (Value × Value)}
    (h : n.deepValue = .ok (.map es)) : ∀ e ∈ es, ∃ m : Node, m.deepValue = .ok e.2 := by
  obtain ⟨nodes, pairs, hpairs, rfl⟩ := exists_pairs_of_deepValue h
  exact Entries.forall_merge (P := fun v => ∃ m : Node, m.deepValue = .ok v)
    (List.forall_mem_nil _) (deepValue_of_mem_entryValues hpairs)

end Node

/-- In maps that are read no key occurs twice. -/
theorem keepsKeysApart_parse : DocumentReader.KeepsKeysApart parse := by
  have hnode {text : List Char} {v : Value} (h : parse text = .ok v) :
      ∃ n : Node, n.deepValue = .ok v := by
    unfold parse at h
    split at h
    · next node _ =>
      unfold Node.value at h
      cases hvalue : node.unmerged.deepValue with
      | error refusal =>
        rw [hvalue] at h
        cases h
      | ok w =>
        rw [hvalue] at h
        obtain rfl := Except.ok.inj h
        exact ⟨_, hvalue⟩
    · cases h
  constructor
  · intro text es h
    obtain ⟨n, hn⟩ := hnode h
    exact Node.apart_of_deepValue hn
  · intro text whole k es h he
    obtain ⟨n, hn⟩ := hnode h
    obtain ⟨m, hm⟩ := Node.exists_deepValue_of_mem hn _ he
    exact Node.apart_of_deepValue hm

end Yaml

/-! ### Files -/

/-- The entries that a document gives are those of the document, or of its section, or none. -/
theorem documentEntries_eq_ok {name : String} {document : Value} {es : Entries Value Value}
    (h : documentEntries name document = .ok es) :
    es = [] ∨ document = .map es ∨
      ∃ whole, document = .map whole ∧ Entries.get? whole sectionKey = some (.map es) := by
  unfold documentEntries at h
  split at h
  · exact .inl (Except.ok.inj h).symm
  · split at h
    · split at h
      · obtain rfl := Except.ok.inj h
        exact .inr (.inl rfl)
      · next hsection =>
        obtain rfl := Except.ok.inj h
        exact .inr (.inr ⟨_, rfl, hsection⟩)
      · cases h
    · cases h

/-- No key of a file's entries occurs twice. -/
theorem FileSource.apart_of_entries {files : FileSource} (hreader : files.parse.KeepsKeysApart)
    {path : String} {es : Entries Value Value} (h : files.entries path = .ok es) : es.Apart := by
  unfold FileSource.entries at h
  obtain ⟨text, -, h⟩ := bind_eq_ok_iff.mp h
  cases hparse : files.parse text with
  | error refusal =>
    rw [hparse] at h
    cases h
  | ok document =>
    rw [hparse] at h
    rcases documentEntries_eq_ok h with rfl | rfl | ⟨whole, rfl, hsection⟩
    · exact Entries.apart_nil
    · exact hreader.document hparse
    · obtain ⟨e, he, hsame⟩ := Option.map_eq_some_iff.mp hsection
      obtain ⟨k, v⟩ := e
      obtain rfl : v = .map es := hsame
      exact hreader.behindKey hparse (List.mem_of_find?_eq_some he)

/-! ### Settings -/

/-- Of entries in which no key occurs twice settings are accepted where every key is the name of a
setting, and every setting has what the entry under its name says, or else its default. -/
theorem Settings.ofEntries_eq_ok_iff_gets {es : Entries Value Value} (h : es.Apart)
    {accepted : Settings} :
    ofEntries es = .ok accepted ↔ (∀ k ∈ es.map (·.1), ∃ t : Setting, k = .text t.name) ∧
      ∀ t : Setting,
        t.Gets (Entries.get? es (.text t.name)) (Draft.get {} t) (accepted.get t) := by
  rw [ofEntries_eq_ok_iff]
  constructor
  · intro hread
    refine ⟨List.forall_mem_map.mpr fun e he => ?_, fun t => ?_⟩
    · obtain ⟨t, v, hname, -⟩ := Draft.exists_foldlM_read_iff.mp ⟨_, hread⟩ e he
      exact ⟨t, entrySetting?_eq_some_iff.mp hname⟩
    · rw [← lastValue?_eq_get? h]
      exact Draft.gets_of_foldlM_read hread t
  · rintro ⟨hnames, hgets⟩
    obtain ⟨d, hd⟩ : ∃ d, es.foldlM Draft.read {} = .ok d := by
      refine Draft.exists_foldlM_read_iff.mpr fun e he => ?_
      obtain ⟨t, ht⟩ := hnames e.1 (List.mem_map_of_mem he)
      have hgiven := hgets t
      rw [h.get?_of_mem_text he ht] at hgiven
      exact ⟨t, _, entrySetting?_eq_some_iff.mpr ht, hgiven⟩
    rw [hd]
    refine congrArg Except.ok (Draft.ext fun t => ?_)
    have hread := Draft.gets_of_foldlM_read hd t
    rw [lastValue?_eq_get? h] at hread
    exact hread.unique (hgets t)

end CronSchedule
