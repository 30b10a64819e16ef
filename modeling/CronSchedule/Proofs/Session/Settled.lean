import CronSchedule.Proofs.Session.Overridden
import CronSchedule.Proofs.Settings.Complaints

/-!
# Bad settings in a session

Settings reach a session from a file and an environment when they are loaded, and from the overrides
of a call that configures.  Both are read as entries in the end, so what is known of entries is
known of them: the result is settings that can be used or a complaint, unless reading comes to a
place that is not complained of.

* `Call.isSettled_configure_iff` — a call that configures with overrides;
* `Settings.isSettled_iff` — all ways in which settings come.
-/

namespace CronSchedule

open Call (outcome)

/-- A call that configures with overrides is settled exactly if the settings that it is based on are
had or complained of, and the overrides do not break off behind their entries. -/
theorem Call.isSettled_configure_iff {host : Host} {s : Session} {given : Option Settings}
    {overrides : Entries String Value} (hname : Entries.get? overrides baseName = none)
    (hne : overrides ≠ []) :
    Settings.IsSettled (outcome (configure given overrides) host s).1 ↔
      ¬ Escapes (basis host s given) ∧ ∀ previous, basis host s given = .ok previous →
        ¬ Settings.BreaksOff (underNames (Entries.merge previous.entries overrides)) := by
  have hover (previous : Settings) : overridden previous overrides =
      Settings.ofEntries (underNames (Entries.merge previous.entries overrides)) :=
    if_neg (by rwa [List.isEmpty_iff])
  rw [outcome_configure_fst hname]
  simp only [hover]
  rw [Settings.isSettled_iff_not_escapes, Escapes.bind_iff, not_or]
  · simp only [not_exists, not_and, Settings.escapes_ofEntries_iff]
  · intro new hnew
    obtain ⟨previous, -, hread⟩ := bind_eq_ok_iff.mp hnew
    exact Settings.isUsable_of_ofEntries hread

namespace Settings

/-- Whatever settings come from, the result is settings that can be used or a complaint, exactly if
reading comes to no place that is not complained of: for the entries of a map, for those of a file
and of an environment, and for overrides. -/
theorem isSettled_iff (es : Entries Value Value) (files : FileSource) (path : Option String)
    (environment : Environment) (host : Host) (s : Session) (given : Option Settings)
    (overrides : Entries String Value) :
    (IsSettled (ofEntries es) ↔ ¬ BreaksOff es) ∧
      (IsSettled (load files path environment) ↔
        (∀ file, PathInForce environment path file → file ≠ "" → ¬ Escapes (files.entries file)) ∧
          ∀ fromFile, SectionInForce files path environment fromFile →
            ¬ BreaksOff (Entries.merge fromFile (underNames (variableValues environment)))) ∧
      (Entries.get? overrides Call.baseName = none → overrides ≠ [] →
        (IsSettled (outcome (Call.configure given overrides) host s).1 ↔
          ¬ Escapes (Call.basis host s given) ∧
            ∀ previous, Call.basis host s given = .ok previous →
              ¬ BreaksOff (underNames (Entries.merge previous.entries overrides)))) :=
  ⟨isSettled_ofEntries_iff, isSettled_load_iff, Call.isSettled_configure_iff⟩

/-- A limit in the digits of another script is settled. -/
theorem isSettled_iff_arabicLimit :
    let overrides : Entries String Value := [("max_scan_ticks", .text " ٥ ")]
    Entries.get? overrides Call.baseName = none ∧ overrides ≠ [] ∧
      IsSettled (outcome (Call.configure (some {}) overrides) {} {}).1 := by
  intro overrides
  have hne : overrides ≠ [] := List.cons_ne_nil _ _
  refine ⟨rfl, hne, ((isSettled_iff [] {} none [] {} {} (some {}) overrides).2.2 rfl hne).mpr
    ⟨Escapes.ok_iff.mp, fun previous hprevious => ?_⟩⟩
  obtain rfl := Except.ok.inj hprevious
  have hes : underNames (Entries.merge (Draft.entries {}) overrides) =
      [(.text "default_timezone", .null), (.text "match_seconds", .bool false),
        (.text "max_scan_ticks", .text " ٥ "), (.text "search_horizon_days", .int 1464)] := rfl
  rw [hes]
  have hhorizon : Text.isWritable 1464 = true :=
    Text.isWritable_of_integer? (s := "1464".toList) rfl
  have hlimit : ¬ Text.SeemsInteger (Text.strip " ٥ ".toList) := by
    rw [show Text.strip " ٥ ".toList = ['٥'] from rfl]
    rintro ⟨-, ⟨c, hc, hnone⟩ | hlong⟩
    · obtain rfl := List.mem_singleton.mp hc
      exact absurd hnone (by decide)
    · exact absurd hlong (by decide)
  refine not_breaksOff_of_plain (by simp) (by simp [Value.isWritable, hhorizon]) ?_
  intro e he s hs
  simp only [List.mem_cons, List.not_mem_nil, or_false] at he
  rcases he with rfl | rfl | rfl | rfl <;> cases hs
  exact hlimit

/-- A superscript looks like a digit and is none: reading it for the limit ends in an error that is
no complaint. -/
theorem ofEntries_superscript :
    let es : Entries Value Value := [(.text "max_scan_ticks", .text "²")]
    ofEntries es = .error (.fault .unreadableNumeral) ∧ ¬ IsSettled (ofEntries es) := by
  intro es
  have hes : ofEntries es = .error (.fault .unreadableNumeral) := by
    unfold ofEntries
    rw [unknownNames_eq_nil (by decide)]
    rfl
  refine ⟨hes, fun h => ?_⟩
  obtain ⟨complaint, hcomplaint⟩ := h.told _ hes
  cases hcomplaint

end Settings

end CronSchedule
