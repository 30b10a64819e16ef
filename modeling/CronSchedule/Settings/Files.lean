import CronSchedule.Error
import CronSchedule.Text.Pieces

/-!
# Files by name

The files of a host are a table of names and bytes.  A name with a root stands for itself, and any
other starts from one directory, as paths do.  Every directory on the way to a file, or to the
directory in which paths start, exists.

* `pathName` — the name under which messages show a path;
* `Place`, `placeOf` — where a name leads to;
* `FileTree.walk` — what stands at the end of a path;
* `FileTree.read` — the text of the file there.
-/

namespace CronSchedule

open Text

/-! ### Paths -/

/-- The parts of a path.  Empty parts and the part `.` do not count. -/
def pathParts (path : List Char) : List (List Char) :=
  (pieces '/' path).filter fun part => !part.isEmpty && part != ['.']

/-- The slashes a path starts with: two stay two, more are one. -/
def pathRoot : List Char → List Char
  | '/' :: '/' :: '/' :: _ => ['/']
  | '/' :: '/' :: _ => ['/', '/']
  | '/' :: _ => ['/']
  | _ => []

/-- The name of a path; what is left of the directory itself is `.`. -/
def pathName (path : String) : String :=
  let name := pathRoot path.toList ++ List.intercalate ['/'] (pathParts path.toList)
  if name.isEmpty then "." else String.ofList name

/-- The names of the directories on the way from the topmost one to a file or a directory, and its
own name behind them. -/
abbrev Place := List (List Char)

/-- The place one step from a place: `..` is the directory above, and the topmost one is its own. -/
def Place.step (place : Place) (part : List Char) : Place :=
  if part = ['.', '.'] then place.dropLast else place ++ [part]

/-- Where a path starts: in the topmost directory if it has a root, or else in the one given. -/
def pathStart (directory : Place) (path : List Char) : Place :=
  if (pathRoot path).isEmpty then directory else []

/-- The place that a name stands for. -/
def placeOf (directory : Place) (name : List Char) : Place :=
  (pathParts name).foldl Place.step (pathStart directory name)

/-! ### Tables -/

/-- Files by name, with the bytes they hold. -/
abbrev FileTable := List (String × ByteArray)

/-- The directory in which paths start where no other is named. -/
def workPlace : Place := ["tmp".toList, "work".toList]

/-- Files, and the directory in which names and paths without a root start. -/
structure FileTree where
  table : FileTable := []
  directory : Place := workPlace

/-- What a path leads to. -/
inductive Target where
  | file (bytes : ByteArray)
  | directory
  | nothing
  /-- the path, or a name on the way, is longer than any may be -/
  | tooLong

/-- The most bytes that the name of a file may have. -/
def nameLimit : Nat := 255

/-- The most bytes that a path may have. -/
def pathLimit : Nat := 4095

/-- Whether a part of a path is too long to be a name. -/
def isOverlong (part : List Char) : Bool := nameLimit < (String.ofList part).utf8ByteSize

namespace FileTree

/-- The file at a place. -/
def file? (files : FileTree) (place : Place) : Option ByteArray :=
  (files.table.find? fun file => placeOf files.directory file.1.toList == place).map (·.2)

/-- Whether a place is a directory: it is on the way to a file, or to where paths start. -/
def isDirectory (files : FileTree) (place : Place) : Bool :=
  place.isPrefixOf files.directory || files.table.any fun file =>
    let whole := placeOf files.directory file.1.toList
    place.isPrefixOf whole && place.length < whole.length

/-- What the parts of a path lead to, from a directory on. -/
def walk (files : FileTree) : Place → List (List Char) → Target
  | _, [] => .directory
  | place, part :: rest =>
    let next := place.step part
    if isOverlong part then .tooLong
    else if part = ['.', '.'] || files.isDirectory next then walk files next rest
    else
      match files.file? next with
      | some bytes => if rest.isEmpty then .file bytes else .nothing
      | none => .nothing

/-- What a path leads to.  No name has a null character in it. -/
def target (files : FileTree) (path : String) : Target :=
  if path.toList.contains '\x00' then .nothing
  else if pathLimit < (pathName path).utf8ByteSize then .tooLong
  else files.walk (pathStart files.directory path.toList) (pathParts path.toList)

end FileTree

/-! ### Texts -/

/-- A text with every line ended by a line feed alone. -/
def unifyLineEnds : List Char → List Char
  | '\r' :: '\n' :: s => '\n' :: unifyLineEnds s
  | '\r' :: s => '\n' :: unifyLineEnds s
  | c :: s => c :: unifyLineEnds s
  | [] => []

/-- The text of the file at a path. -/
def FileTree.read (files : FileTree) (path : String) : Except Error (List Char) :=
  match files.target path with
  | .nothing => .error (.settings (.fileNotFound (pathName path)))
  | .directory => .error (.fault .isDirectory)
  | .tooLong => .error (.fault .nameTooLong)
  | .file bytes =>
    match String.fromUTF8? bytes with
    | none => .error (.fault .notUtf8)
    | some text => .ok (unifyLineEnds text.toList)

end CronSchedule
