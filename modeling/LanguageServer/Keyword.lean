import LanguageServer.Token

/-!
# Words of the language

Keywords by their use, the builtin types, and the builtin attributes with their descriptions.
-/

namespace LanguageServer

/-- A type built into the language. -/
inductive BuiltinType
  | void
  | any
  | byte
  | char
  | int
  | float
  deriving DecidableEq, Repr, Inhabited

namespace BuiltinType

/-- Every builtin type. -/
def all : List BuiltinType := [.void, .any, .byte, .char, .int, .float]

/-- The keyword of a builtin type. -/
def keyword : BuiltinType → String
  | .void => "void"
  | .any => "any"
  | .byte => "byte"
  | .char => "char"
  | .int => "int"
  | .float => "float"

/-- The builtin type of a keyword. -/
def ofKeyword? (s : String) : Option BuiltinType := all.find? (·.keyword == s)

theorem ofKeyword?_keyword (b : BuiltinType) : ofKeyword? b.keyword = some b := by cases b <;> rfl

end BuiltinType

namespace Keyword

/-- The name under which editors know the language. -/
def languageId : String := "bbc"

/-- The extension of source files. -/
def sourceExtension : String := "bbc"

/-- The end of the name of a source file. -/
def sourceSuffix : String := "." ++ sourceExtension

/-- Makes a definition visible in other files. -/
def exported : String := "export"

/-- Marks the receiver of an extension method. -/
def receiver : String := "this"

/-- Passes an argument by reference. -/
def byReference : String := "ref"

/-- Declares a constant. -/
def constant : String := "const"

/-- Keywords that start a declaration. -/
def declarations : List String := ["struct", "alias", "using", "template"]

/-- Keywords of visibility. -/
def protections : List String := ["private", exported]

/-- Keywords before parameters, variables and functions. -/
def modifiers : List String := [receiver, byReference, "temp", constant, "inline"]

/-- Keywords of statements. -/
def statements : List String :=
  ["if", "elseif", "else", "while", "for", "return", "break", "delete", "new", "sizeof", "as",
    "var", "goto", "crash"]

/-- Keywords of builtin types. -/
def types : List String := BuiltinType.all.map BuiltinType.keyword

/-- The builtin attributes with their descriptions. -/
def attributes : List (String × String) :=
  [("MSILIncompatible",
      "Marks the function not compatible with MSIL, therefore it won't be optimized using the IL " ++
        "generator"),
    ("Builtin",
      "Marks the function as built-in, so it will be used by the compiler to generate code for " ++
        "syntax sugars"),
    ("Expose",
      "Marks the function as exposable, so it can be called from outside the interpreter"),
    ("External",
      "Marks the function as external, as it's implementation is defined outside the interpreter"),
    ("InternalType",
      "Marks the type as the default one for the specified kind of values")]

/-- The description of a builtin attribute. -/
def describe? (name : String) : Option String :=
  (attributes.find? (·.1 == name)).map (·.2)

/-- Whether a keyword is among the modifiers of a definition. -/
def isAmong (keyword : String) (modifiers : List Token) : Bool :=
  modifiers.any (·.content == keyword)

/-- The modifiers of a definition as they stand before it, each with a blank after it; the visibility
keyword can be left out. -/
def modifierText (modifiers : List Token) (hideExported : Bool) : String :=
  String.join (modifiers.map fun m =>
    if hideExported && m.content == exported then "" else m.content ++ " ")

end Keyword

end LanguageServer
