import LanguageServer.Program
import LanguageServer.Text.Buffer
import LanguageServer.Source

/-!
# Open documents

* `Language`: the languages that documents can have;
* `Analysis`: the outcome of the last compilation of a document;
* `Document`: a document with its text, its version and its analysis;
* `DocumentError`: why a document cannot be registered.
-/

namespace LanguageServer

/-- Why a document cannot be registered. -/
inductive DocumentError
  | unknownLanguage (id : String)
  | fileNotFound (path : Path)
  | unreadable (path : Path) (reason : ReadError)
  deriving DecidableEq, Repr

/-- The wording of an error. -/
def DocumentError.message : DocumentError → String
  | .unknownLanguage id => "Unknown language \"" ++ id ++ "\""
  | .fileNotFound path => "File not found: \"" ++ path.text ++ "\""
  | .unreadable path reason =>
    "failed to read file " ++ path.text ++ ": " ++ FileProvider.failure reason

/-- The languages that documents can have. -/
inductive Language
  | source
  deriving DecidableEq, Repr, Inhabited

namespace Language

/-- The name under which editors know a language. -/
def id : Language → String
  | .source => Keyword.languageId

/-- The language of a name or of an extension. -/
def ofId (id : String) : Except DocumentError Language :=
  if id == Keyword.languageId || id == Keyword.sourceExtension then .ok .source
  else .error (.unknownLanguage id)

end Language

/-- The outcome of a compilation for one document. `version` is that of the text it started from, and
`directories` are those it searched for imports. -/
structure Analysis where
  version : Option Int := none
  tokens : List Token := []
  syntaxTree : SourceFile := {}
  program : Program := {}
  directories : List Path := []
  deriving Inhabited

/-- A document. It has no text if the editor did not send it and it is no file, and no version until
the editor reports one. -/
structure Document where
  uri : Uri
  language : Language
  text : Option String
  version : Option Int
  analysis : Analysis
  deriving Inhabited

/-- Whether a version comes before another; no version comes before all of them. -/
def versionLt : Option Int → Option Int → Bool
  | none, some _ => true
  | some a, some b => a < b
  | _, none => false

namespace Document

/-- A document that was not compiled yet. -/
def fresh (uri : Uri) (language : Language) (text : Option String) : Document :=
  { uri, language, text, version := none, analysis := {} }

/-- The document with a new analysis, unless that was made from an older version than the present
one. -/
def storeAnalysis? (d : Document) (a : Analysis) : Option Document :=
  if versionLt a.version d.analysis.version then none else some { d with analysis := a }

/-- The editor opened the document. -/
def opened (d : Document) (text : String) (version : Int) : Document :=
  { d with text := some text, version := some version }

/-- The editor changed the document. -/
def changed (d : Document) (changes : List Text.Change) (version : Int) : Document :=
  { d with text := some (Text.applyAll changes (d.text.getD "")), version := some version }

/-- The editor saved the document, and perhaps sent its text. The version stays. -/
def saved (d : Document) (text : Option String) : Document :=
  match text with
  | none => d
  | some text => { d with text := some text }

end Document

end LanguageServer
