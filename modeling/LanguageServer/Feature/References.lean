import LanguageServer.Snapshot
import LanguageServer.Protocol.Answer
import LanguageServer.Uri.Grammar

/-!
# Uses of definitions

* `distinctSites`: the uses that count, one per span;
* `references`: the uses of the definition whose name stands under a position;
* `lenses`: how often each definition of the document is used.
-/

namespace LanguageServer

/-- The uses in a file that is known, without those whose span was seen before. -/
def distinctSites (sites : List ReferenceSite) : List ReferenceSite :=
  sites.foldl
    (fun seen site =>
      if site.file.isNone || seen.any (·.range == site.range) then seen else seen ++ [site])
    []

/-- The place of a use, if its file may be named to the editor. -/
def ReferenceSite.location? (site : ReferenceSite) : Option Location :=
  (site.file.filter (·.isValid)).map (⟨·, site.range⟩)

/-- The uses of the function and of the struct whose name stands under a position. Constructors are
named by the struct they make. -/
def references (s : Snapshot) (p : Position) : List Location :=
  let function := s.program.functionAt? s.uri p [.function, .general, .operator]
  let struct := s.program.structAt? s.uri p
  ((function.map fun (_, f) => distinctSites f.sites).getD [] ++
    (struct.map fun (_, t) => distinctSites t.sites).getD []).filterMap (·.location?)

/-- The number of uses, above a span. -/
def usesLens (range : Range) (sites : List ReferenceSite) : Lens :=
  { range, title := toString (distinctSites sites).length ++ " reference" }

/-- The number of uses of every function and struct of the document; that of a constructor stands
above the type it makes. -/
def lenses (s : Snapshot) : List Lens :=
  (s.program.functions.filter (·.file == some s.uri)).map (fun f =>
    usesLens (if f.kind == .constructor then f.definition.result.range else f.definition.name.range)
      f.sites) ++
  (s.program.structsIn s.uri).map fun (_, t) => usesLens t.definition.name.range t.sites

end LanguageServer
