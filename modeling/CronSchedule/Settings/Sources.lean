import CronSchedule.Settings.Coerce
import CronSchedule.Settings.Files
import CronSchedule.Yaml.Document

/-!
# Where settings come from

Settings are merged from the entries of a file and, over them, the variables of the
environment; a setting that neither gives has its default.

What the text of a file says is for a reader of documents to tell, which is a parameter here.
`Yaml.parse` is the one that is taken where none is named; it reads a part of the notation.

* `environmentEntries` — what the variables give;
* `DocumentReader`, `FileSource` — files, and how their texts are read;
* `FileSource.entries` — what a file gives, and `writtenEntries` — that in written form;
* `Settings.load` — the settings of both.
-/

namespace CronSchedule

open Text

/-- The variables of an environment, in order of first arrival. -/
abbrev Environment := Entries String String

/-! ### Variables -/

/-- How the names of variables that give settings start. -/
def variableStem : String := "CRONMATCH_"

/-- The variable that names the file. -/
def fileVariable : String := "CRONMATCH_CONFIG"

/-- The setting a variable gives: the name of a setting behind the stem, in any case. -/
def variableSetting? (name : String) : Option Setting :=
  let stem := variableStem.toList
  if name = fileVariable ∨ ¬ stem.isPrefixOf name.toList then none
  else Setting.ofName? (String.ofList (lower (name.toList.drop stem.length)))

/-- What the variables give, each setting by the last variable for it. -/
def environmentEntries (environment : Environment) : Entries String String :=
  Entries.ofList <| environment.filterMap fun e =>
    (variableSetting? e.1).map fun s => (s.name, e.2)

/-! ### Files -/

/-- A reader of documents: the value of a text, or why it has none. -/
abbrev DocumentReader := List Char → Except Yaml.Refusal Value

/-- Files from which settings may come, with the reader of their texts. -/
structure FileSource extends FileTree where
  parse : DocumentReader := Yaml.parse

/-- Files by name alone start in `workPlace`, and `Yaml.parse` reads them. -/
instance : Coe FileTable FileSource := ⟨fun table => { table }⟩

/-- The key under which a file may hold the settings among other things. -/
def sectionKey : Value := .text "cronmatch"

/-- The entries that a document gives: those of the section if there is one, or else all
of them.  A document that is empty in any way gives none. -/
def documentEntries (name : String) (document : Value) : Except Error (Entries Value Value) :=
  if !document.isTruthy then .ok []
  else
    match document with
    | .map entries =>
      match Entries.get? entries sectionKey with
      | none => .ok entries
      | some (.map entries) => .ok entries
      | some _ => .error (.settings (.sectionNotAMapping name))
    | _ => .error (.settings (.fileNotAMapping name))

/-- What the file at a path gives. -/
def FileSource.entries (files : FileSource) (path : String) :
    Except Error (Entries Value Value) := do
  let name := pathName path
  let text ← files.read path
  match files.parse text with
  | .error refusal => throw (refusal.error name)
  | .ok document => documentEntries name document

/-- Entries in written form, ascending, as far as all of them can be written. -/
def writtenEntries (es : Entries Value Value) : Except Error (List (String × String)) :=
  if es.all fun e => e.1.isWritable && e.2.isWritable then
    let pairs := es.map fun e => (e.1.written, e.2.written)
    .ok (pairs.mergeSort fun a b => a.1 < b.1 || (a.1 == b.1 && a.2 ≤ b.2))
  else .error (.fault .unwritableNumeral)

/-! ### Both -/

/-- Entries under names as entries under values. -/
def underNames (es : Entries String Value) : Entries Value Value :=
  es.map fun e => (.text e.1, e.2)

/-- The path of the file in force: the one given, or else the one that the environment
names.  The empty path stands for no file. -/
def filePath? (path : Option String) (environment : Environment) : Option String :=
  (path.or (Entries.get? environment fileVariable)).filter (· != "")

/-- The settings of a file and of an environment. -/
def Settings.load (files : FileSource) (path : Option String) (environment : Environment) :
    Except Error Settings := do
  let fromFile ← match filePath? path environment with
    | some path => files.entries path
    | none => pure []
  let fromVariables := (environmentEntries environment).map fun e => (e.1, Value.text e.2)
  Settings.ofEntries (Entries.merge fromFile (underNames fromVariables))

end CronSchedule
