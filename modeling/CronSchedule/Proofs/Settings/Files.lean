import CronSchedule.Settings.Sources

/-!
# Files that are read

A path is followed part by part, and every part has to be a directory but the last.  For a file this
asks for nothing, as all that stands on the way to a file is a directory.  So a file is read by its
own name, be it in the directory in which paths start, or at a name with a root anywhere else.

* `LeadsDown` — a part that goes up nowhere and is short enough for a name;
* `FileTree.walk_eq_file`, `FileTree.walk_up_down` — paths that lead down, and up and down again;
* `FileTree.read_eq_ok` — a file is read by its own name.
-/

namespace CronSchedule

/-! ### Paths that lead down -/

/-- The part leads down, and is short enough for the name of a file. -/
structure LeadsDown (part : List Char) : Prop where
  down : part ≠ ['.', '.']
  short : isOverlong part = false

theorem Place.step_of_leadsDown {place : Place} {part : List Char} (h : LeadsDown part) :
    place.step part = place ++ [part] := if_neg h.down

theorem Place.foldl_step {parts : List (List Char)} (h : ∀ part ∈ parts, LeadsDown part)
    (place : Place) : parts.foldl Place.step place = place ++ parts := by
  induction parts generalizing place with
  | nil => exact (List.append_nil place).symm
  | cons part parts ih =>
    obtain ⟨hpart, hrest⟩ := List.forall_mem_cons.mp h
    rw [List.foldl_cons, ih hrest, step_of_leadsDown hpart, List.append_assoc]
    rfl

/-! ### Where paths lead -/

namespace FileTree

variable {files : FileTree} {place : Place} {part : List Char} {bytes : ByteArray}

theorem walk_of_isDirectory (hpart : LeadsDown part)
    (h : files.isDirectory (place ++ [part]) = true) (rest : List (List Char)) :
    files.walk place (part :: rest) = files.walk (place ++ [part]) rest := by
  rw [walk, Place.step_of_leadsDown hpart, hpart.short, h]
  simp

/-- A path that goes up and comes back leads on from where it was. -/
theorem walk_up_down (hpart : LeadsDown part) (h : files.isDirectory (place ++ [part]) = true)
    (rest : List (List Char)) :
    files.walk (place ++ [part]) (['.', '.'] :: part :: rest) =
      files.walk (place ++ [part]) rest := by
  have hup : files.walk (place ++ [part]) (['.', '.'] :: part :: rest) =
      files.walk place (part :: rest) := by
    rw [walk, Place.step, if_pos rfl, List.dropLast_concat, if_neg (by decide), if_pos (by simp)]
  rw [hup, walk_of_isDirectory hpart h]

/-- Paths start in a directory. -/
theorem isDirectory_pathStart (files : FileTree) (path : List Char) :
    files.isDirectory (pathStart files.directory path) = true := by
  have hstart : pathStart files.directory path <+: files.directory := by
    unfold pathStart
    split
    · exact List.prefix_rfl
    · exact List.nil_prefix
  rw [isDirectory, List.isPrefixOf_iff_prefix.mpr hstart]
  rfl

/-- What stands on the way to a file is a directory. -/
theorem isDirectory_of_file? {rest : List (List Char)} (hrest : rest ≠ [])
    (hfile : files.file? (place ++ rest) = some bytes) : files.isDirectory place = true := by
  obtain ⟨file, hfind, -⟩ := Option.map_eq_some_iff.mp hfile
  have hsame := List.find?_some hfind
  have hplace : placeOf files.directory file.1.toList = place ++ rest := eq_of_beq hsame
  have hlonger : place.length < (place ++ rest).length := by
    rw [List.length_append]
    exact Nat.lt_add_of_pos_right (List.length_pos_iff.mpr hrest)
  refine Bool.or_eq_true_iff.mpr (.inr (List.any_eq_true.mpr
    ⟨file, List.mem_of_find?_eq_some hfind, ?_⟩))
  dsimp only
  rw [hplace, List.isPrefixOf_iff_prefix.mpr (List.prefix_append place rest),
    decide_eq_true hlonger]
  rfl

/-- A path that leads down to a place at which a file stands, and no directory, leads to it. -/
theorem walk_eq_file {parts : List (List Char)} (hparts : ∀ part ∈ parts, LeadsDown part)
    (hne : parts ≠ []) (hfile : files.file? (place ++ parts) = some bytes)
    (hfree : files.isDirectory (place ++ parts) = false) :
    files.walk place parts = .file bytes := by
  induction parts generalizing place with
  | nil => exact absurd rfl hne
  | cons part rest ih =>
    obtain ⟨hpart, hrest⟩ := List.forall_mem_cons.mp hparts
    by_cases hlast : rest = []
    · subst hlast
      rw [walk, Place.step_of_leadsDown hpart, hpart.short, hfree, hfile]
      simp [hpart.down]
    · rw [List.append_cons] at hfile hfree
      rw [walk_of_isDirectory hpart (isDirectory_of_file? hlast hfile)]
      exact ih hrest hlast hfile hfree

/-- A file is read by its own name, wherever it stands. -/
theorem read_eq_ok {name : String} {text : String}
    (hparts : ∀ part ∈ pathParts name.toList, LeadsDown part)
    (hnull : '\x00' ∉ name.toList) (hshort : (pathName name).utf8ByteSize ≤ pathLimit)
    (hfile : files.file? (placeOf files.directory name.toList) = some bytes)
    (hfree : files.isDirectory (placeOf files.directory name.toList) = false)
    (htext : String.fromUTF8? bytes = some text) :
    files.read name = .ok (unifyLineEnds text.toList) := by
  unfold placeOf at hfile hfree
  rw [Place.foldl_step hparts] at hfile hfree
  have hne : pathParts name.toList ≠ [] := by
    intro hnil
    rw [hnil, List.append_nil, isDirectory_pathStart] at hfree
    cases hfree
  have htarget : files.target name = .file bytes := by
    rw [target, if_neg (by simpa using hnull), if_neg (Nat.not_lt.mpr hshort)]
    exact walk_eq_file hparts hne hfile hfree
  rw [read, htarget]
  dsimp only
  rw [htext]

/-- A file in another directory, and a path that comes back to the one it starts in. -/
example :
    let files : FileTree :=
      { table := [("/etc/a.yaml", "1".toUTF8), ("b.yaml", "2".toUTF8)], directory := [['w']] }
    files.read "/etc/a.yaml" = .ok ['1'] ∧ files.read "../w/b.yaml" = .ok ['2'] :=
  ⟨rfl, rfl⟩

end FileTree

end CronSchedule
