import LanguageServer.Path
import LanguageServer.Percent

/-!
# Files

A tree of files and directories, as a value.

* `Files`: the entries, by the names on the way from the root;
* `Files.locate?`: where a path leads, going up for `..`;
* `Files.readText`: the text of a file, or why there is none.
-/

namespace LanguageServer

/-- What stands at a place in the tree. -/
inductive Entry
  | directory
  | file (bytes : List UInt8)
  deriving DecidableEq, Repr

/-- A tree of files; the root is always there. -/
structure Files where
  entries : List (List String × Entry)
  deriving Inhabited

/-- Why a file has no text. -/
inductive ReadError
  | missing
  | notADirectory
  | isADirectory
  | notText
  deriving DecidableEq, Repr

namespace Files

/-- The tree with some entries, and with the directories on the way to them. -/
def withParents (entries : List (List String × Entry)) : Files :=
  let places := entries.map (·.1)
  let parents := places.flatMap fun place => (List.range place.length).map fun n => place.take n
  let directories := parents.eraseDups.filter fun p => !p.isEmpty && !places.contains p
  ⟨directories.map (·, .directory) ++ entries⟩

/-- What stands at a place. -/
def entry? (fs : Files) (place : List String) : Option Entry :=
  if place.isEmpty then some .directory
  else (fs.entries.find? (·.1 == place)).map (·.2)

/-- One name on the way; only a directory leads on. -/
def enter (fs : Files) (place : List String) (piece : List Char) :
    Except ReadError (List String) :=
  match fs.entry? place with
  | none => .error .missing
  | some (.file _) => .error .notADirectory
  | some .directory =>
    if Path.isIdle piece then .ok place
    else if piece == ['.', '.'] then .ok place.dropLast
    else .ok (place ++ [String.ofList piece])

/-- Where an absolute path leads. -/
def locate (fs : Files) (p : Path) : Except ReadError (List String) :=
  if p.isAbsolute && !p.text.toList.contains (Char.ofNat 0) then
    (p.text.toList.splitOn '/').foldlM fs.enter []
  else .error .missing

/-- What a path leads to. -/
def find? (fs : Files) (p : Path) : Option Entry :=
  match fs.locate p with
  | .ok place => fs.entry? place
  | .error _ => none

/-- Whether a path leads to a file. -/
def isFile (fs : Files) (p : Path) : Bool :=
  match fs.find? p with
  | some (.file _) => true
  | _ => false

/-- The text of a file. -/
def readText (fs : Files) (p : Path) : Except ReadError String :=
  match fs.locate p with
  | .error e => .error e
  | .ok place =>
    match fs.entry? place with
    | none => .error .missing
    | some .directory => .error .isADirectory
    | some (.file bytes) =>
      match Percent.ofBytes? bytes with
      | some text => .ok text
      | none => .error .notText

/-- The names in a directory, each with what it stands for. -/
def list? (fs : Files) (p : Path) : Option (List (String × Entry)) :=
  match fs.locate p with
  | .error _ => none
  | .ok place =>
    if fs.entry? place == some .directory then
      some (fs.entries.filterMap fun (at_, e) =>
        match at_.getLast? with
        | some name => if at_.dropLast == place then some (name, e) else none
        | none => none)
    else none

end Files

end LanguageServer
