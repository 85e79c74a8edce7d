import LanguageServer.Compilation

/-!
# Attempts

A compilation of a file with all that it meets. It takes its time, and while it does the editor may
change anything, so what it reads at the start and the store that its outcome comes to are given apart.

* `Attempt`, `Attempt.call`, `Attempt.after`: a compilation, and what comes of it;
* `Attempt.Crashes`: the compiler crashes in one of its calls;
* `Attempt.compiledFiles`, `reported`: the files that were compiled, and the problems that were found;
* `Attempt.Regular`: a compilation of a file whose outcome is stored;
* `Attempt.atOnce?`: a compilation with nothing in between;
* `Outgoing.shownIn?`, `shownIn`: what the editor shows;
* `Sample.player`: a compiler that says what it was told to say.
-/

namespace LanguageServer

/-- A compilation: what it read at the start, what the compiler was told, the cache and the state of
the compiler when it was called, and the store that the outcome comes to. -/
structure Attempt (σ : Type) where
  job : Job
  settings : CompilerSettings
  project : Project
  cache : ParseCache
  state : σ
  store : Store

namespace Attempt

variable {σ : Type} (c : Compiler σ) (a : Attempt σ)

/-- The document that is compiled. -/
def document (a : Attempt σ) : Uri := a.job.document

/-- The call into the compiler, for a document that is a file. -/
def call : CompilationCall σ := c.compile a.job.files a.settings a.cache a.state

/-- The call for tokens, for a document that is no file. -/
def tokenized (text : String) : Call σ (List Token) :=
  c.tokenize text a.settings.defined a.document a.settings.tokenizer a.state

/-- The call for a tree of the tokens of a text, for a document that is no file. -/
def parsed (text : String) (tokens : List Token) : Call σ SourceFile :=
  c.parse tokens a.document (a.tokenized c text).report (a.tokenized c text).state

/-- The compiler crashes in one of its calls: while it compiles a file, or while it makes tokens of a text
or a tree of the tokens. -/
inductive Crashes : Crash → Prop
  | compiling {crash : Crash} (isFile : a.document.isFile = true)
    (crashed : (a.call c).result = .error (.crashed crash)) : Crashes crash
  | tokenizing {crash : Crash} {text : String} (isText : a.document.isFile = false)
    (read : a.job.text = some text) (crashed : (a.tokenized c text).result = .error crash) : Crashes crash
  | parsing {crash : Crash} {text : String} {tokens : List Token} (isText : a.document.isFile = false)
    (read : a.job.text = some text) (made : (a.tokenized c text).result = .ok tokens)
    (crashed : (a.parsed c text tokens).result = .error crash) : Crashes crash

/-- The outcome, if the compiler did not crash. -/
def result : Except Crash Outcome := (a.job.run c a.settings a.project a.cache a.state).2.2

/-- The store afterwards, and the messages that are sent. -/
def after : Store × List Outgoing := afterCall a.store a.document (a.result c)

/-- The messages that are sent. -/
def messages : List Outgoing := (a.after c).2

/-- The files that were compiled: those of the program, or the document and the file of the error that
ended the compilation. -/
def compiledFiles : List Uri :=
  match (a.call c).result with
  | .ok program => program.files.map (·.file)
  | .error (.aborted e) => a.document :: e.file.toList
  | .error (.crashed _) => []

/-- The problems that were found, with the error that ended the compilation. -/
def reported : List Diagnostic :=
  match (a.call c).result with
  | .error (.aborted e) => (a.call c).report.diagnostics ++ [e.toDiagnostic]
  | .ok _ | .error (.crashed _) => (a.call c).report.diagnostics

/-- Whether the outcome is stored: the compiler did not crash, and the document is open and has no
newer analysis. -/
def isStored : Bool :=
  ((a.result c).toOption.bind fun o => a.store.accept? a.document o.analysis).isSome

/-- A compilation of a file that is stored. The editor can be told about every file of it. -/
structure Regular : Prop where
  isFile : a.document.isFile = true
  stored : a.isStored c = true
  valid : ∀ file ∈ a.compiledFiles c, file.isValid = true

/-- The problems that the editor is to be told of: those that name a file, and the error that ended the
compilation, which belongs to the document if it names none. -/
def due : List (Uri × String) :=
  (a.call c).report.diagnostics.filterMap (fun d => d.file.map (·, d.message)) ++
    match (a.call c).result with
    | .error (.aborted e) => [(e.file.getD a.document, e.message)]
    | .ok _ | .error (.crashed _) => []

/-- A compilation with nothing in between, if the document is open. -/
def atOnce? (fs : Files) (clientSettings : Json) (uri : Uri) (store : Store) (cache : ParseCache)
    (state : σ) : Option (Attempt σ) :=
  (store.job? uri).map fun job =>
    let project := Project.discover fs job.files clientSettings
    { job, settings := compilerSettings fs store project, project, cache, state, store }

end Attempt

/-! ### What the editor shows -/

/-- The problems that a message puts in the place of those that are shown in a document. -/
def Outgoing.shownIn? (file : Uri) : Outgoing → Option (List Problem)
  | .problems document shown _ => if document = file then some shown else none
  | .alert _ _ | .result _ _ | .refusal _ _ => none

/-- The problems that the editor shows in a document: those that were published for it last. -/
def shownIn (file : Uri) (messages : List Outgoing) : List Problem :=
  (messages.filterMap (·.shownIn? file)).getLast?.getD []

/-- Some message publishes, in a document, a problem whose text begins with the given one. -/
def Announces (messages : List Outgoing) (file : Uri) (text : String) : Prop :=
  ∃ shown version, .problems file shown version ∈ messages ∧
    ∃ p ∈ shown, text.toList <+: p.message.toList

/-! ### A compiler that plays a script -/

namespace Sample

/-- A document that imports another one. -/
def mainFile : Uri := ⟨"file:///p/main.bbc"⟩

/-- What it imports. -/
def importedFile : Uri := ⟨"file:///p/lib.bbc"⟩

/-- What a compiler says, call by call. -/
abbrev Script := List (Report × Except CompilationFailure Program)

/-- A compiler that says what it was told to say. -/
def player : Compiler Script where
  compile _ _ cache script :=
    match script with
    | [] => ⟨[], cache, {}, .ok {}⟩
    | (report, result) :: rest => ⟨rest, cache, report, result⟩
  tokenize _ _ _ _ script := ⟨script, {}, .ok []⟩
  parse _ _ report script := ⟨script, report, .ok {}⟩

/-- The main file is opened, and nothing was compiled yet. -/
def opened : Store :=
  { documents := [Document.opened (.fresh mainFile .source none) "using lib;" 1] }

/-- A program with some files that have nothing in them. -/
def programOf (files : List Uri) : Program := { files := files.map (⟨·, [], {}⟩) }

end Sample

end LanguageServer
