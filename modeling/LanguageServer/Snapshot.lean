import LanguageServer.Store

/-!
# Snapshots

What a request sees: the document it is about, and the analyses of all open documents at one moment.
-/

namespace LanguageServer

/-- The state that a request is answered from. -/
structure Snapshot where
  uri : Uri
  version : Option Int
  analysis : Analysis
  others : List (Uri × Analysis)

namespace Snapshot

/-- A snapshot of one analysis, with no other document open. -/
def single (uri : Uri) (version : Option Int) (analysis : Analysis) : Snapshot :=
  { uri, version, analysis, others := [] }

/-- The state of a document, if it is open, and of all others. -/
def capture? (s : Store) (uri : Uri) : Option Snapshot :=
  (s.find? uri).map fun d =>
    { uri
      version := d.version
      analysis := d.analysis
      others := s.documents.map fun d => (d.uri, d.analysis) }

/-- The tokens of the document. -/
def tokens (s : Snapshot) : List Token := s.analysis.tokens

/-- The syntax tree of the document. -/
def syntaxTree (s : Snapshot) : SourceFile := s.analysis.syntaxTree

/-- The compiled program that the document belongs to. -/
def program (s : Snapshot) : Program := s.analysis.program

/-- The tokens of any file: of its open document if that has some, and else of the compilation. -/
def tokensOf? (s : Snapshot) (file : Uri) : Option (List Token) :=
  if file == s.uri then some s.tokens
  else
    match (s.others.reverse.find? (·.1 == file)).filter (!·.2.tokens.isEmpty) with
    | some (_, analysis) => some analysis.tokens
    | none => (s.program.file? file).map (·.tokens)

/-- The list of first occurrences. -/
def firstOccurrences {α : Type} [BEq α] (xs : List α) : List α :=
  xs.foldl (fun seen x => if seen.contains x then seen else seen ++ [x]) []

/-- The names that the path of an import may stand for in the document: among open documents, and
then in the directories that the compilation searched. -/
def importCandidates (s : Snapshot) (requested : String) : List Uri :=
  let files : FileProvider := ⟨s.analysis.directories⟩
  firstOccurrences
    (Source.bufferCandidates requested (some s.uri) ++ files.candidates requested (some s.uri))

end Snapshot

end LanguageServer
