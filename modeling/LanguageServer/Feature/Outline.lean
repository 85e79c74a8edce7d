import LanguageServer.Snapshot
import LanguageServer.Protocol.Answer
import LanguageServer.Uri.Grammar

/-!
# Outlines

The functions and structs of a document. Definitions of no file are listed under the name by which
the editor asked.
-/

namespace LanguageServer

/-- An entry, unless the definition stands in another file. -/
def outlineItem? (document requested : Uri) (name : String) (kind : OutlineKind)
    (file : Option Uri) (range : Range) : Option OutlineItem :=
  match file with
  | none => some ⟨name, kind, requested, range⟩
  | some file => if file == document && file.isValid then some ⟨name, kind, file, range⟩ else none

/-- The outline of a document: functions except constructors, then structs. -/
def outline (s : Snapshot) (requested : Uri) : List OutlineItem :=
  (s.program.functions.filter (·.kind != .constructor)).filterMap (fun f =>
    outlineItem? s.uri requested f.name .function f.file f.definition.range) ++
  s.program.structs.filterMap fun t =>
    outlineItem? s.uri requested t.name .struct t.definition.file t.definition.range

end LanguageServer
