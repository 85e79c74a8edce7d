import LanguageServer.Store
import LanguageServer.Proofs.Resolution

/-!
# Open documents in the place of their files

The compiler asks the open documents for an import before it asks the files, so that it reads what was
not saved yet. The documents look in one place only, the one next to the asking file; the files are
also looked for in other directories.

* `withSuffix_named`: an import ends with a name;
* `read?_found`, `FileProvider.resolve?_eq_some_iff`: which file the provider of files has found;
* `Source.Agrees`: whether the two mean the same document by a path;
* `Store.load_of_resolve?`, `Store.load_eq_found_iff_resolve?`: what the open documents answer;
* `Store.shadows_iff`: when the text of an open document is compiled instead of that of its file.
-/

namespace LanguageServer

/-- A path without segments that are folded away when it is resolved. -/
def Path.Unfolded (p : Path) : Prop :=
  ∀ segment ∈ (Uri.forward p.text.toList).splitOn '/', ¬Uri.Folds segment

instance (p : Path) : Decidable p.Unfolded :=
  inferInstanceAs (Decidable (∀ segment ∈ (Uri.forward p.text.toList).splitOn '/', ¬Uri.Folds segment))

namespace Source

theorem exists_toList_withSuffix (requested : String) :
    ∃ cs, (withSuffix requested).toList = cs ++ Keyword.sourceSuffix.toList := by
  unfold withSuffix
  split
  · next ends =>
    obtain ⟨cs, text⟩ := List.isSuffixOf_iff_suffix.1 ends
    exact ⟨cs, text.symm⟩
  · exact ⟨requested.toList, String.toList_append⟩

/-- The last segment of an import is a name, since it has the suffix of source files. -/
theorem withSuffix_named (requested : String) (segment : List Char)
    (h : ((Uri.forward (withSuffix requested).toList).splitOn '/').getLast? = some segment) :
    ¬Uri.Folds segment := by
  obtain ⟨cs, text⟩ := exists_toList_withSuffix requested
  rw [text, Uri.forward_append] at h
  obtain ⟨piece, last⟩ := Uri.getLast?_splitOn_append (Uri.forward cs)
    (show '/' ∉ Uri.forward Keyword.sourceSuffix.toList by decide)
  obtain rfl : segment = piece ++ Uri.forward Keyword.sourceSuffix.toList :=
    Option.some_inj.1 (h.symm.trans last)
  have long : (Uri.forward Keyword.sourceSuffix.toList).length = 4 := by decide
  rintro (same | same) <;>
  · have := congrArg List.length same
    simp [long, Uri.here, Uri.up] at this

/-- Whether a path means the same to the open documents as to the provider of files. An absolute path
has nothing to fold and the asking file no authority; a relative path leads to a file from the directory
of the asking file. -/
def Agrees (fs : Files) (requested : String) (current : Uri) : Prop :=
  let path : Path := ⟨withSuffix requested⟩
  if path.isAbsolute then current.parts.head = "file://".toList ∧ path.Unfolded
  else (current.resolve? path.text).any (fun u => (FileProvider.read? fs u).isSome) = true

instance (fs : Files) (requested : String) (current : Uri) : Decidable (Agrees fs requested current) := by
  unfold Agrees
  infer_instance

end Source

/-! ### What was found on the disk -/

namespace FileProvider

variable {fs : Files} {requested content : String} {current u : Uri}

/-- A file is found under the name that it was looked for. -/
theorem read?_found {v : Uri} (h : read? fs v = some (.found u content)) : v = u := by
  unfold read? at h
  split at h
  · cases h
  · split at h
    · split at h <;> cases h
      rfl
    · cases h

variable {provider : FileProvider} (found : provider.load fs requested (some current) = .found u content)

include found

theorem findSome?_read?_candidates :
    (provider.candidates requested (some current)).findSome? (read? fs) = some (.found u content) := by
  unfold load at found
  dsimp only at found
  split at found
  · next answer which => rw [which, found]
  · split at found <;> cases found

/-- The place next to the asking file is where the file was found exactly if the two providers agree on
the path. -/
theorem resolve?_eq_some_iff (file : current.isFile = true) :
    current.resolve? (Source.withSuffix requested) = some u ↔
      Source.Agrees fs requested current := by
  have first := findSome?_read?_candidates found
  unfold Source.Agrees
  dsimp only
  split
  · next absolute =>
    have rooted : (Source.withSuffix requested).toList.head? = some '/' := by
      simpa [Path.isAbsolute] using absolute
    obtain rfl : Uri.ofFilePath ⟨Source.withSuffix requested⟩ = u := by
      rw [candidates, if_pos absolute, List.findSome?_singleton] at first
      exact read?_found first
    exact Uri.resolve?_eq_ofFilePath_iff file rooted (Source.withSuffix_named requested)
  · next relative =>
    obtain ⟨beside, resolved⟩ : ∃ beside,
        current.resolve? (Source.withSuffix requested) = some beside :=
      Uri.exists_resolve? (Uri.isSome_scheme?_of_isFile file) _
    have candidates_eq : provider.candidates requested (some current) = beside ::
        provider.directories.map fun d => Uri.ofFilePath (d.join ⟨Source.withSuffix requested⟩) := by
      have asking : (some current).filter (·.isFile) = some current := if_pos file
      rw [candidates, if_neg relative, asking, Option.bind_some, resolved]
      rfl
    rw [candidates_eq, List.findSome?_cons] at first
    rw [resolved, Option.any_some, Option.some_inj]
    cases read : read? fs beside with
    | some answer =>
      obtain rfl : answer = .found u content := by simpa [read] using first
      exact iff_of_true (read?_found read) rfl
    | none =>
      -- The file lies in another directory, so its name is one under which something was read.
      rw [read] at first
      obtain ⟨v, -, found⟩ := List.exists_of_findSome?_eq_some first
      refine iff_of_false ?_ (by simp)
      rintro rfl
      rw [read?_found found, read] at found
      cases found

end FileProvider

/-! ### What is compiled -/

namespace Store

variable {s : Store} {fs : Files} {directories : List Path} {requested content text : String}
  {current u : Uri} {d : Document}

/-- The answer is about the one name that the import is resolved to. -/
theorem load_of_resolve? {v : Uri} (h : current.resolve? (Source.withSuffix requested) = some v) :
    s.load requested (some current) =
      match s.find? v with
      | none => .missing (some v)
      | some d =>
        match d.text with
        | some content => .found v content
        | none => .failed v "Document not loaded" := by
  cases opened : s.find? v with
  | none => simp [load, Source.bufferCandidates, h, opened]
  | some d => cases held : d.text <;> simp [load, Source.bufferCandidates, h, opened, held]

/-- An open document answers for exactly the imports that are resolved to its name. -/
theorem load_eq_found_iff_resolve? (registered : s.find? u = some d) (held : d.text = some text) :
    s.load requested (some current) = .found u text ↔
      current.resolve? (Source.withSuffix requested) = some u := by
  constructor
  · intro answered
    cases resolved : current.resolve? (Source.withSuffix requested) with
    | none => simp [load, Source.bufferCandidates, resolved] at answered
    | some v =>
      rw [load_of_resolve? resolved] at answered
      split at answered
      · cases answered
      · split at answered <;> cases answered
        rfl
  · intro resolved
    simp only [load_of_resolve? resolved, registered, held]

/-- **An open document comes before its file.** Let an import lead to a file that is open in the editor.
What was typed there is compiled, and not what was saved, exactly if the open documents and the provider
of files agree on the path: a file that is found in another directory is read from the disk, also while
it is open. -/
theorem shadows_iff (file : current.isFile = true)
    (onDisk : (FileProvider.mk directories).load fs requested (some current) = .found u content)
    (registered : s.find? u = some d) (held : d.text = some text) :
    s.load requested (some current) = .found u text ↔ Source.Agrees fs requested current :=
  (load_eq_found_iff_resolve? registered held).trans (FileProvider.resolve?_eq_some_iff onDisk file)

end Store

namespace Sample

/-- A project with a file in a directory for imports. -/
def project : Files :=
  ⟨[(["p"], .directory), (["p", "lib"], .directory),
    (["p", "lib", "a.bbc"], .file (String.utf8EncodeChar '1'))]⟩

/-- A file of the project, which imports another. -/
def importer : Uri := ⟨"file:///p/main.bbc"⟩

/-- The file in the directory for imports. -/
def imported : Uri := ⟨"file:///p/lib/a.bbc"⟩

/-- The import is open, with a text that was not saved. -/
def typing : Document := (Document.fresh imported .source none).opened "2" 1

/-- The store with that document. -/
def editing : Store := { documents := [typing] }

end Sample

namespace Store

open Sample

/-- From a file of the directory above it, the import is read as it was typed. -/
theorem import_read_from_buffer :
    importer.isFile = true ∧
      (FileProvider.mk []).load project "lib/a" (some importer) = .found imported "1" ∧
      editing.find? imported = some typing ∧ typing.text = some "2" ∧
      editing.load "lib/a" (some importer) = .found imported "2" := by
  have onDisk : (FileProvider.mk []).load project "lib/a" (some importer) = .found imported "1" := by
    decide
  have agree : Source.Agrees project "lib/a" importer := by decide
  exact ⟨by decide, onDisk, rfl, rfl, (shadows_iff (by decide) onDisk rfl rfl).2 agree⟩

/-- Found through a directory of the project, the same import is read from the disk: the open documents
look for it next to the asking file only. -/
theorem import_read_from_disk :
    importer.isFile = true ∧
      (FileProvider.mk [⟨"/p/lib"⟩]).load project "a" (some importer) = .found imported "1" ∧
      editing.find? imported = some typing ∧ typing.text = some "2" ∧
      editing.load "a" (some importer) = .missing (some ⟨"file:///p/a.bbc"⟩) :=
  ⟨by decide, by decide, rfl, rfl, by decide⟩

end Store

end LanguageServer
