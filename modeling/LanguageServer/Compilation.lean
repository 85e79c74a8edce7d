import LanguageServer.Compiler
import LanguageServer.Store
import LanguageServer.Protocol.Message

/-!
# Compiling a document

A compilation reads the store when it starts, calls the compiler, and stores its outcome unless the
document was closed or has a newer one; then it publishes the problems of every file it compiled.

* `Job`, `Store.job?`: what is read at the start;
* `Job.settings`: what the compiler is told: open documents come before files;
* `Job.run`: the call, and the outcome, if the compiler did not crash;
* `Store.accept?`, `Outcome.announcements`: storing and publishing;
* `compileDocument`: all of it at one moment.
-/

namespace LanguageServer

/-! ### The start -/

/-- What a compilation reads when it starts: the document with its version, text and last analysis,
and the names of all open documents. -/
structure Job where
  document : Uri
  version : Int
  files : List Uri
  text : Option String
  previous : Analysis
  deriving Inhabited

/-- The compilation of a document, if that is open. A document without a version counts as version
zero. -/
def Store.job? (s : Store) (uri : Uri) : Option Job :=
  (s.find? uri).map fun d =>
    { document := uri
      version := d.version.getD 0
      files := s.documents.map (·.uri)
      text := d.text
      previous := d.analysis }

/-! ### The call -/

/-- What came out of a call: the new analysis, what was reported, and the files to publish it in. -/
structure Outcome where
  analysis : Analysis
  report : Report
  files : List Uri
  deriving Inhabited

/-- The open documents as a source of texts. -/
def Store.provider (s : Store) : SourceProvider := ⟨Source.bufferCandidates, s.load⟩

/-- The files as a source of texts. -/
def FileProvider.provider (p : FileProvider) (fs : Files) : SourceProvider :=
  ⟨p.candidates, p.load fs⟩

/-- What the compiler is told. Everything is compiled, not only what is used, comments are kept for
documentation, and unsaved texts come before files. -/
def compilerSettings (fs : Files) (s : Store) (project : Project) : CompilerSettings :=
  { optimization := .none
    everything := true
    defined := .normal
    providers := [s.provider, (FileProvider.mk project.directories).provider fs]
    imports := project.imports
    functions := project.functions
    constants := project.constants
    tokenizer := { comments := true, blanks := false }
    version? := s.version? }

namespace Job

/-- The previous analysis under the version of this compilation. -/
def keepPrevious (j : Job) (project : Project) : Analysis :=
  { j.previous with version := some j.version, directories := project.directories }

/-- The analysis of a compiled program. A tree with nothing in it leaves the previous one in place,
and so do the tokens if the program lacks the file. -/
def analysisOf (j : Job) (project : Project) (program : Program) : Analysis :=
  let (tokens, tree) :=
    match program.file? j.document with
    | some parsed => (parsed.tokens, parsed.syntaxTree)
    | none => (j.previous.tokens, {})
  { version := some j.version
    tokens
    syntaxTree := if tree.isEmpty then j.previous.syntaxTree else tree
    program
    directories := project.directories }

/-- The outcome of a compiled program: all its files are published. -/
def compiledOutcome (j : Job) (project : Project) (report : Report) (program : Program) : Outcome :=
  { analysis := j.analysisOf project program
    report
    files := program.files.map (·.file) }

/-- The outcome of a compilation that was given up: the error is reported, and the document and the
file of the error are published. -/
def abortedOutcome (j : Job) (project : Project) (report : Report) (e : CompilerError) : Outcome :=
  { analysis := j.keepPrevious project
    report := report.add e.toDiagnostic
    files := j.document :: (e.file.filter (· != j.document)).toList }

/-- The outcome of a document that is no file: it has tokens and a tree, and the program stays. -/
def parsedOutcome (j : Job) (project : Project) (report : Report) (tokens : List Token)
    (tree : SourceFile) : Outcome :=
  { analysis :=
      { version := some j.version
        tokens
        syntaxTree := tree
        program := j.previous.program
        directories := project.directories }
    report
    files := [j.document] }

/-- A compilation of files: the state of the compiler, the cache, and the outcome, if the compiler did
not crash. -/
def runFile {σ : Type} (j : Job) (c : Compiler σ) (settings : CompilerSettings) (project : Project)
    (cache : ParseCache) (state : σ) : σ × ParseCache × Except Crash Outcome :=
  let call := c.compile j.files settings cache state
  let result := match call.result with
    | .ok program => .ok (j.compiledOutcome project call.report program)
    | .error (.aborted e) => .ok (j.abortedOutcome project call.report e)
    | .error (.crashed crash) => .error crash
  (call.state, call.cache, result)

/-- A compilation of a single text. -/
def runText {σ : Type} (j : Job) (c : Compiler σ) (settings : CompilerSettings) (project : Project)
    (text : String) (state : σ) : σ × Except Crash Outcome :=
  let tokens := c.tokenize text settings.defined j.document settings.tokenizer state
  match tokens.result with
  | .error crash => (tokens.state, .error crash)
  | .ok ts =>
    let tree := c.parse ts j.document tokens.report tokens.state
    (tree.state, tree.result.map (j.parsedOutcome project tree.report ts))

/-- The call into the compiler. A document that is a file is compiled with everything that is open;
any other is only parsed, if it has a text. -/
def run {σ : Type} (j : Job) (c : Compiler σ) (settings : CompilerSettings) (project : Project)
    (cache : ParseCache) (state : σ) : σ × ParseCache × Except Crash Outcome :=
  if j.document.isFile then j.runFile c settings project cache state
  else
    match j.text with
    | none => (state, cache, .ok ⟨j.keepPrevious project, {}, []⟩)
    | some text =>
      let (state, result) := j.runText c settings project text state
      (state, cache, result)

end Job

/-! ### The outcome -/

/-- The store with a new analysis, unless the document is closed or has a newer one. -/
def Store.accept? (s : Store) (uri : Uri) (a : Analysis) : Option Store :=
  (s.find? uri).bind fun d => (d.storeAnalysis? a).map fun d => s.update uri fun _ => d

/-- The messages that publish what was reported, one per compiled file, with the versions that a store
has for them. -/
def Outcome.announcements (o : Outcome) (s : Store) : List Outgoing :=
  o.files.filterMap fun file =>
    Outgoing.publish? file (problemsIn file o.report.diagnostics) ((s.find? file).bind (·.version))

/-- The message about a crash of the compiler. -/
def Crash.alert (c : Crash) : Outgoing := .alert .error ("BBLang CompilerPanic: " ++ c.text)

/-- What follows a call: the store afterwards, and the messages to send. An outcome that the store
refuses is not published. -/
def afterCall (s : Store) (uri : Uri) : Except Crash Outcome → Store × List Outgoing
  | .error crash => (s, [crash.alert])
  | .ok outcome =>
    match s.accept? uri outcome.analysis with
    | none => (s, [])
    | some s => (s, outcome.announcements s)

/-- What a compilation leaves behind: the store, the cache, the state of the compiler, the messages to
send, and the version that was compiled, if the document is open. -/
structure Compiled (σ : Type) where
  store : Store
  cache : ParseCache
  state : σ
  messages : List Outgoing
  version : Option Int

/-- The compilation of a document from beginning to end, with nothing in between. -/
def compileDocument {σ : Type} (c : Compiler σ) (fs : Files) (clientSettings : Json) (uri : Uri)
    (store : Store) (cache : ParseCache) (state : σ) : Compiled σ :=
  match store.job? uri with
  | none => ⟨store, cache, state, [], none⟩
  | some job =>
    let project := Project.discover fs job.files clientSettings
    let (state, cache, result) :=
      job.run c (compilerSettings fs store project) project cache state
    let (store, messages) := afterCall store uri result
    ⟨store, cache, state, messages, some job.version⟩

end LanguageServer
