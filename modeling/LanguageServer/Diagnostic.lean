import LanguageServer.Position

/-!
# Diagnostics

* `Diagnostic`: a problem at a place, with others that explain it;
* `CompilerError`: a problem that ends the compilation;
* `Report`: what a compilation reports;
* `Diagnostic.fullMessage`: the message with those of the explanations, indented by depth;
* `Diagnostic.inFile`: the problems to show in a file.
-/

namespace LanguageServer

/-- How serious a problem is. -/
inductive Level
  | error
  | warning
  | information
  | hint
  | optimizationNotice
  | failedOptimization
  deriving DecidableEq, Repr, Inhabited

/-- A problem. One without a file cannot be shown at its place. -/
structure Diagnostic where
  level : Level
  message : String
  range : Range
  file : Option Uri
  explanations : List Diagnostic
  deriving Inhabited

/-- A problem that ends the compilation. -/
structure CompilerError where
  message : String
  range : Range
  file : Option Uri
  deriving DecidableEq, Repr

/-- The error as a problem like others. -/
def CompilerError.toDiagnostic (e : CompilerError) : Diagnostic :=
  { level := .error, message := e.message, range := e.range, file := e.file, explanations := [] }

/-- What a compilation reports: problems at a place, and problems without one. -/
structure Report where
  diagnostics : List Diagnostic := []
  unplaced : List (Level × String) := []
  deriving Inhabited

namespace Report

/-- The report with one more problem. -/
def add (r : Report) (d : Diagnostic) : Report := { r with diagnostics := r.diagnostics ++ [d] }

/-- The report with one more problem that has no place. -/
def addUnplaced (r : Report) (level : Level) (message : String) : Report :=
  { r with unplaced := r.unplaced ++ [(level, message)] }

/-- Whether an error was reported; explanations do not count. -/
def hasErrors (r : Report) : Bool :=
  r.diagnostics.any (·.level == .error) || r.unplaced.any (·.1 == .error)

end Report

namespace Diagnostic

mutual

/-- The messages that explain a problem, each on a line of its own. -/
def explain (indent : Nat) : Diagnostic → String
  | ⟨_, _, _, _, explanations⟩ => explainAll indent explanations

/-- The messages of a list of explanations, each with its own. -/
def explainAll (indent : Nat) : List Diagnostic → String
  | [] => ""
  | d :: ds =>
    "\n" ++ String.ofList (List.replicate indent ' ') ++ " -> " ++ d.message ++
      explain (indent + 2) d ++ explainAll indent ds

end

/-- The message of a problem with those that explain it. -/
def fullMessage (d : Diagnostic) : String := d.message ++ d.explain 0

mutual

/-- The problems of a file: this one, and its explanations. An explanation at the same place in the
same file is left out, with its own. -/
def inFile (file : Uri) : Diagnostic → List Diagnostic
  | ⟨level, message, range, own, explanations⟩ =>
    (if own == some file then [⟨level, message, range, own, explanations⟩] else []) ++
      explanationsInFile file range own explanations

/-- The problems of a file among the explanations of a problem. -/
def explanationsInFile (file : Uri) (range : Range) (own : Option Uri) :
    List Diagnostic → List Diagnostic
  | [] => []
  | d :: ds =>
    (if d.range != range || d.file != own then inFile file d else []) ++
      explanationsInFile file range own ds

end

/-- The problems of a file among all. -/
def allInFile (file : Uri) (ds : List Diagnostic) : List Diagnostic := ds.flatMap (inFile file)

end Diagnostic

end LanguageServer
