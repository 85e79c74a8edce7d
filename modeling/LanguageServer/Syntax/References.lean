import LanguageServer.Syntax.Walk

/-!
# The references of a syntax tree

A tree keeps references in all its expressions, also in those that a walk leaves out: the parameters of
attributes and the sizes in written types.

* `Expr.references`, `Statement.references`, `SourceFile.references`: all of them;
* `Statement.mem_references_of_walk`, `references_of_nested`: what a walk finds is among them.
-/

namespace LanguageServer

/-! ### Types and expressions -/

mutual

/-- The references in a written type: those in the sizes of arrays. -/
def TypeSyntax.references : TypeSyntax → List Reference
  | .named _ _ | .missing _ => []
  | .applied _ arguments _ => TypeSyntax.referencesOf arguments
  | .pointer target _ _ => target.references
  | .array element size _ _ _ => element.references ++ Expr.referencesIf size
  | .function result parameters _ _ => result.references ++ TypeSyntax.referencesOf parameters

/-- The references in a list of written types. -/
def TypeSyntax.referencesOf : List TypeSyntax → List Reference
  | [] => []
  | t :: ts => t.references ++ TypeSyntax.referencesOf ts

/-- The references in an expression, its own first. -/
def Expr.references : Expr → List Reference
  | .int _ _ | .float _ _ | .character _ _ | .text _ _ | .missing _ => []
  | .name _ _ r => r.toList
  | .field _ object _ r => r.toList ++ object.references
  | .call _ callee arguments _ _ r =>
    r.toList ++ (callee.references ++ Expr.referencesOf arguments)
  | .binary _ left _ right r => r.toList ++ (left.references ++ right.references)
  | .unary _ _ operand r => r.toList ++ operand.references
  | .new _ _ type => type.references
  | .construct _ _ type arguments _ _ r =>
    r.toList ++ (type.references ++ Expr.referencesOf arguments)
  | .cast _ value type _ | .reinterpret _ value _ type => value.references ++ type.references
  | .index _ object key _ r => r.toList ++ (object.references ++ key.references)

/-- The references in a list of expressions. -/
def Expr.referencesOf : List Expr → List Reference
  | [] => []
  | e :: es => e.references ++ Expr.referencesOf es

/-- The references in an expression that may be there. -/
def Expr.referencesIf : Option Expr → List Reference
  | none => []
  | some e => e.references

end

/-! ### Statements and definitions -/

/-- The references in attributes. -/
def AttributeUse.referencesOf (attributes : List AttributeUse) : List Reference :=
  attributes.flatMap fun a => Expr.referencesOf a.parameters

/-- The references in the declaration of a variable. -/
def VariableDefinition.references (d : VariableDefinition) : List Reference :=
  AttributeUse.referencesOf d.attributes ++ d.typeSyntax.references ++ Expr.referencesIf d.initial

mutual

/-- The references in a statement. -/
def Statement.references : Statement → List Reference
  | .expr e => e.references
  | .variable d => d.references
  | .keyword _ arguments _ => Expr.referencesOf arguments
  | .block _ body _ => Statement.referencesOf body
  | .branch _ condition body otherwise _ =>
    Expr.referencesIf condition ++ body.references ++ Statement.referencesIf otherwise

/-- The references in a list of statements. -/
def Statement.referencesOf : List Statement → List Reference
  | [] => []
  | s :: ss => s.references ++ Statement.referencesOf ss

/-- The references in a statement that may be there. -/
def Statement.referencesIf : Option Statement → List Reference
  | none => []
  | some s => s.references

end

/-- The references in the definition of a function, those of its body left out. -/
def FunctionDefinition.headReferences (d : FunctionDefinition) : List Reference :=
  AttributeUse.referencesOf d.attributes ++ d.result.references ++
    d.parameters.flatMap (·.typeSyntax.references)

/-- The references in the definition of a struct. -/
def StructDefinition.references (d : StructDefinition) : List Reference :=
  AttributeUse.referencesOf d.attributes ++ d.fields.flatMap (·.typeSyntax.references)

/-- The references in the definition of an alias. -/
def AliasDefinition.references (d : AliasDefinition) : List Reference :=
  AttributeUse.referencesOf d.attributes ++ d.value.references

/-- All references that a syntax tree keeps. -/
def SourceFile.references (f : SourceFile) : List Reference :=
  f.functions.flatMap (·.headReferences) ++ f.structs.flatMap (·.references) ++
    f.aliases.flatMap (·.references) ++ Statement.referencesOf f.roots

/-! ### What a walk finds -/

variable {r : Reference}

theorem Expr.mem_references {e : Expr} (h : e.reference? = some r) : r ∈ e.references := by
  cases e <;> simp_all [reference?, references]

mutual

/-- The references of an expression that stands inside another one are references of that. -/
theorem Expr.references_of_descendant {d : Expr} (hr : r ∈ d.references) :
    ∀ e : Expr, d ∈ e.descendants → r ∈ e.references
  | .int _ _, h | .float _ _, h | .character _ _, h | .text _ _, h | .missing _, h
  | .name _ _ _, h | .new _ _ _, h => List.mem_singleton.1 h ▸ hr
  | .field _ object _ _, h | .unary _ _ object _, h => by
    obtain rfl | h := List.mem_cons.1 h
    · exact hr
    · exact List.mem_append_right _ (references_of_descendant hr object h)
  | .call _ callee arguments _ _ _, h => by
    obtain rfl | h := List.mem_cons.1 h
    · exact hr
    · refine List.mem_append_right _ (List.mem_append.2 ?_)
      exact (List.mem_append.1 h).imp (references_of_descendant hr callee)
        (referencesOf_of_descendant hr arguments)
  | .binary _ left _ right _, h | .index _ left right _ _, h => by
    obtain rfl | h := List.mem_cons.1 h
    · exact hr
    · refine List.mem_append_right _ (List.mem_append.2 ?_)
      exact (List.mem_append.1 h).imp (references_of_descendant hr left)
        (references_of_descendant hr right)
  | .construct _ _ _ arguments _ _ _, h => by
    obtain rfl | h := List.mem_cons.1 h
    · exact hr
    · exact List.mem_append_right _ (List.mem_append_right _ (referencesOf_of_descendant hr arguments h))
  | .cast _ value _ _, h | .reinterpret _ value _ _, h => by
    obtain rfl | h := List.mem_cons.1 h
    · exact hr
    · exact List.mem_append_left _ (references_of_descendant hr value h)

theorem Expr.referencesOf_of_descendant {d : Expr} (hr : r ∈ d.references) :
    ∀ es : List Expr, d ∈ Expr.descendantsOf es → r ∈ Expr.referencesOf es
  | e :: es, h => List.mem_append.2 <| (List.mem_append.1 h).imp (references_of_descendant hr e)
      (referencesOf_of_descendant hr es)

end

/-- What a node among some expressions refers to is among their references. -/
theorem mem_referencesOf_of_exprNodes {es : List Expr} {node : Node} (h : node ∈ exprNodes es)
    (hr : node.reference? = some r) : r ∈ Expr.referencesOf es := by
  obtain ⟨d, hd, rfl⟩ := List.mem_map.1 h
  exact Expr.referencesOf_of_descendant (Expr.mem_references hr) es hd

theorem Expr.referencesOf_toList (e : Option Expr) :
    Expr.referencesOf e.toList = Expr.referencesIf e := by
  cases e with
  | none => rfl
  | some e => exact List.append_nil _

namespace Statement

mutual

/-- What a node of the walk through a statement refers to is among its references. -/
theorem mem_references_of_walk {node : Node} (hr : node.reference? = some r) :
    ∀ s : Statement, node ∈ s.descendants → r ∈ s.references
  | .expr e, h => by
    have := mem_referencesOf_of_exprNodes h hr
    rwa [Expr.referencesOf, Expr.referencesOf, List.append_nil] at this
  | .variable d, h => by
    obtain rfl | h := List.mem_cons.1 h
    · cases hr
    · rw [references, VariableDefinition.references, ← Expr.referencesOf_toList]
      exact List.mem_append_right _ (mem_referencesOf_of_exprNodes h hr)
  | .keyword _ arguments _, h => by
    obtain rfl | h := List.mem_cons.1 h
    · cases hr
    · exact mem_referencesOf_of_exprNodes h hr
  | .block _ body _, h => by
    obtain rfl | h := List.mem_cons.1 h
    · cases hr
    · exact mem_referencesOf_of_walk hr body h
  | .branch _ condition body otherwise _, h => by
    obtain rfl | h := List.mem_cons.1 h
    · cases hr
    · rw [references, ← Expr.referencesOf_toList]
      refine List.mem_append.2 <| (List.mem_append.1 h).imp (fun h => ?_)
        (mem_referencesIf_of_walk hr otherwise)
      exact List.mem_append.2 <| (List.mem_append.1 h).imp (mem_referencesOf_of_exprNodes · hr)
        (mem_references_of_walk hr body)

theorem mem_referencesOf_of_walk {node : Node} (hr : node.reference? = some r) :
    ∀ ss : List Statement, node ∈ descendantsOf ss → r ∈ referencesOf ss
  | s :: ss, h => List.mem_append.2 <| (List.mem_append.1 h).imp (mem_references_of_walk hr s)
      (mem_referencesOf_of_walk hr ss)

theorem mem_referencesIf_of_walk {node : Node} (hr : node.reference? = some r) :
    ∀ s : Option Statement, node ∈ descendantsIf s → r ∈ referencesIf s
  | some s, h => mem_references_of_walk hr s h

end

mutual

/-- The references of a statement that stands inside another one are references of that. -/
theorem references_of_nested {inner : Statement} (hr : r ∈ inner.references) :
    ∀ s : Statement, inner ∈ s.nested → r ∈ s.references
  | .expr _, h | .variable _, h | .keyword _ _ _, h => List.mem_singleton.1 h ▸ hr
  | .block _ body _, h => by
    obtain rfl | h := List.mem_cons.1 h
    · exact hr
    · exact referencesOf_of_nested hr body h
  | .branch _ _ body otherwise _, h => by
    obtain rfl | h := List.mem_cons.1 h
    · exact hr
    · refine List.mem_append.2 <| (List.mem_append.1 h).imp (fun h => ?_)
        (referencesIf_of_nested hr otherwise)
      exact List.mem_append_right _ (references_of_nested hr body h)

theorem referencesOf_of_nested {inner : Statement} (hr : r ∈ inner.references) :
    ∀ ss : List Statement, inner ∈ nestedOf ss → r ∈ referencesOf ss
  | s :: ss, h => List.mem_append.2 <| (List.mem_append.1 h).imp (references_of_nested hr s)
      (referencesOf_of_nested hr ss)

theorem referencesIf_of_nested {inner : Statement} (hr : r ∈ inner.references) :
    ∀ s : Option Statement, inner ∈ nestedIf s → r ∈ referencesIf s
  | some s, h => references_of_nested hr s h

end

end Statement

end LanguageServer
