import LanguageServer.Feature.Highlight
import LanguageServer.Keyword

/-!
# Capabilities

What the server tells the editor that it can do.
-/

namespace LanguageServer

/-- Documents are synchronised by their edits. -/
def incrementalSync : Nat := 2

/-- Strings on the wire. -/
def stringList (xs : List String) : Json := .ofList .str xs

/-- Notebooks are synchronised, with their savings, if they have cells in the language. -/
def notebookCapability : Json :=
  .obj [("notebookSelector",
      .arr [.obj [("cells", .arr [.obj [("language", .str Keyword.languageId)]])]]),
    ("save", .bool true)]

/-- Whole documents are highlighted; the numbers of colours and shades count from the legend. -/
def highlightCapability : Json :=
  .obj [("legend", .obj [("tokenTypes", stringList (TokenColour.all.map (·.name))),
      ("tokenModifiers", stringList shadeNames)]),
    ("full", .bool true)]

/-- The capabilities. Completion is asked for after a selection and within the path of an import,
signature help at the start of arguments and between them. -/
def capabilities : Json :=
  .obj [("textDocumentSync", .nat incrementalSync),
    ("notebookDocumentSync", notebookCapability),
    ("hoverProvider", .bool true),
    ("completionProvider", .obj [("triggerCharacters", stringList [".", "\"", "/"])]),
    ("definitionProvider", .bool true),
    ("typeDefinitionProvider", .bool true),
    ("referencesProvider", .bool true),
    ("signatureHelpProvider", .obj [("triggerCharacters", stringList ["(", ","])]),
    ("documentSymbolProvider", .bool true),
    ("semanticTokensProvider", highlightCapability),
    ("codeLensProvider", .obj [("resolveProvider", .bool false)]),
    ("inlayHintProvider", .bool true)]

end LanguageServer
