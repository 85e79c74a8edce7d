import LanguageServer.Diagnostic
import LanguageServer.ParseCache
import LanguageServer.Project
import LanguageServer.Source

/-!
# The compiler

Tokenizer, parser and type checker behind one interface. The server knows no more of a compiler than
this: it has a state of its own, it reads texts through providers, it shares a cache of parses with
other compilations, and it may crash.

* `Variables`, `TokenizerOptions`, `Optimization`: switches;
* `SourceProvider`: where texts come from;
* `CompilerSettings`: what a compilation is told besides the names of its files;
* `Crash`, `CompilationFailure`: how a call may fail;
* `Compiler`: the interface.
-/

namespace LanguageServer

/-- The names defined for the conditions by which a source leaves out parts of itself. -/
structure Variables where
  names : List String
  deriving DecidableEq, Repr

namespace Variables

/-- Those of a regular build: none. -/
def normal : Variables := ⟨[]⟩

/-- One more name. -/
def define (v : Variables) (name : String) : Variables :=
  if v.names.contains name then v else ⟨v.names ++ [name]⟩

/-- Whether a name is defined. -/
def isDefined (v : Variables) (name : String) : Bool := v.names.contains name

end Variables

/-- What a tokenizer keeps besides the tokens of the language. -/
structure TokenizerOptions where
  comments : Bool
  blanks : Bool
  deriving DecidableEq, Repr

/-- How hard a compiler works on its output. -/
inductive Optimization
  | none
  | all
  deriving DecidableEq, Repr

/-- A source of texts: what a path may stand for, and the text, if this source has it. The file that
asks is given if there is one. -/
structure SourceProvider where
  candidates : String → Option Uri → List Uri
  load : String → Option Uri → Loaded

/-- What a compilation is told besides the names of its files. Providers are asked in order; `imports`
are imported by every file; `version?` tells which files are open, and how old their texts are. -/
structure CompilerSettings where
  optimization : Optimization
  everything : Bool
  defined : Variables
  providers : List SourceProvider
  imports : List String
  functions : List ExternalFunction
  constants : List ExternalConstant
  tokenizer : TokenizerOptions
  version? : Uri → Option Int

/-- A crash of the compiler, with a message if it left one. -/
structure Crash where
  message : Option String
  deriving DecidableEq, Repr

/-- What is said about a crash. -/
def Crash.text (c : Crash) : String := c.message.getD "compiler panicked"

/-- Why a compilation has no program: the source is so wrong that it was given up, or the compiler
crashed. -/
inductive CompilationFailure
  | aborted (e : CompilerError)
  | crashed (c : Crash)

/-- What a call into the compiler leaves behind: its state, what it reported so far, and its result, if
it did not crash. -/
structure Call (σ α : Type) where
  state : σ
  report : Report
  result : Except Crash α

/-- What a compilation leaves behind. -/
structure CompilationCall (σ : Type) where
  state : σ
  cache : ParseCache
  report : Report
  result : Except CompilationFailure Program

/-- A compiler with a state of its own. -/
structure Compiler (σ : Type) where
  /-- Compiles files and everything they import. -/
  compile : List Uri → CompilerSettings → ParseCache → σ → CompilationCall σ
  /-- Splits a text into tokens. -/
  tokenize : String → Variables → Uri → TokenizerOptions → σ → Call σ (List Token)
  /-- Makes a syntax tree of tokens, and adds to what was reported before. -/
  parse : List Token → Uri → Report → σ → Call σ SourceFile

end LanguageServer
