import LanguageServer.Uri.Resolution
import LanguageServer.Files
import LanguageServer.Keyword

/-!
# Finding imported files

An import names a file by a path. Providers are asked in order; each one answers, or leaves the
answer to the next.

* `Loaded`: an answer;
* `withSuffix`: the path with the suffix of source files;
* `bufferCandidates`: what a path means among open documents;
* `FileProvider`: the provider that reads files.
-/

namespace LanguageServer

/-- The answer of a provider: the text, a failure to read it, a file that is not there, or nothing to
say. -/
inductive Loaded
  | found (uri : Uri) (content : String)
  | failed (uri : Uri) (message : String)
  | missing (uri : Option Uri)
  | deferred
  deriving DecidableEq, Repr

namespace Source

/-- The path with the suffix of source files, if it does not have it. -/
def withSuffix (path : String) : String :=
  if Keyword.sourceSuffix.toList.isSuffixOf path.toList then path else path ++ Keyword.sourceSuffix

/-- The name that a path stands for among open documents: at most one. -/
def bufferCandidates (requested : String) (current : Option Uri) : List Uri :=
  (current.bind (·.resolve? (withSuffix requested))).toList

end Source

/-- The provider that reads files; it looks in the directory of the asking file and then in others. -/
structure FileProvider where
  directories : List Path

namespace FileProvider

/-- The files that a path may stand for, in the order in which they are tried. -/
def candidates (provider : FileProvider) (requested : String) (current : Option Uri) : List Uri :=
  let path : Path := ⟨Source.withSuffix requested⟩
  if path.isAbsolute then [Uri.ofFilePath path]
  else
    ((current.filter (·.isFile)).bind (·.resolve? path.text)).toList ++
      provider.directories.map fun d => Uri.ofFilePath (d.join path)

/-- The message of a failure to read a file. -/
def failure : ReadError → String
  | .missing => "No such file or directory (os error 2)"
  | .notADirectory => "Not a directory (os error 20)"
  | .isADirectory => "Is a directory (os error 21)"
  | .notText => "stream did not contain valid UTF-8"

/-- Reads a file, if it is one. -/
def read? (fs : Files) (uri : Uri) : Option Loaded :=
  match uri.toFilePath? with
  | none => none
  | some path =>
    if fs.isFile path then
      match fs.readText path with
      | .ok content => some (.found uri content)
      | .error e => some (.failed uri (failure e))
    else none

/-- The answer: the first candidate that is a file. -/
def load (provider : FileProvider) (fs : Files) (requested : String) (current : Option Uri) :
    Loaded :=
  let names := provider.candidates requested current
  match names.findSome? (read? fs) with
  | some answer => answer
  | none => if names.isEmpty then .deferred else .missing names.getLast?

end FileProvider

end LanguageServer
