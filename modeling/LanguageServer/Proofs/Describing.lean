import LanguageServer.Feature.Hover
import LanguageServer.Proofs.Tables

/-!
# What a description is made of

The nodes under a position speak in turn, from the outside to the inside, and each takes the place of what
was said before as far as it says something itself. A node that names something brings its documentation
with it. A literal and a builtin operator only bring their own text, so that the documentation of what
encloses them stays. The span is that of the last node in any case.

* `Node.symbol?`, `Node.names`, `Node.own`: what a node says alone;
* `Expr.describe_eq`, `Node.describe_eq`: what it leaves of what was said before;
* `speaker?`, `namer?`, `spanAt?`: where the code, the documentation and the span come from;
* `noteOf`, `describeNodes_eq`: what nodes say in turn;
* `hover_eq`: the description in these terms;
* `hover_describes_one_node_iff`: when all of it comes from one node.
-/

namespace LanguageServer

variable {s : Snapshot} {p : Position} {n : Note} {node : Node} {nodes : List Node}

/-! ### What a node says alone -/

/-- What a description shows as code: a definition, or else a type. -/
def Note.code (n : Note) : Option String := n.definition.or n.type

/-- The note with what an inner one says about itself, its documentation apart. -/
def Note.add (n inner : Note) : Note :=
  { definition := inner.definition.or n.definition
    type := inner.type.or n.type
    documentation := n.documentation }

/-- An expression says the same about itself wherever it stands. -/
theorem Expr.describe_eq (n : Note) (e : Expr) : e.describe n = n.add (e.describe {}) := by
  unfold Expr.describe
  split
  case h_1 => rfl
  case h_2 => rfl
  case h_3 => rfl
  case h_4 => split <;> rfl
  case h_5 => split <;> rfl
  case h_6 => split <;> rfl

namespace Node

/-- The symbol that a node refers to, if its reference stands for one. -/
def symbol? (s : Snapshot) (node : Node) : Option Symbol :=
  node.reference?.bind (Symbol.resolve? s.program)

/-- Whether a node names something: a variable that it declares, or a symbol. -/
def names (s : Snapshot) : Node → Bool
  | .statement (.variable _) => true
  | node => (node.symbol? s).isSome

/-- What a node says alone. -/
def own (s : Snapshot) (node : Node) : Note := node.describe s {}

/-- The description of a single node. -/
def hover? (s : Snapshot) (node : Node) : Option Hover :=
  (node.own s).text?.map fun text => ⟨text, node.interactiveRange⟩

/-- A node says the same wherever it stands. Only one that names something takes the documentation away
that was there before. -/
theorem describe_eq (s : Snapshot) (n : Note) (node : Node) :
    node.describe s n =
      { n.add (node.own s) with
        documentation := if node.names s then (node.own s).documentation else n.documentation } := by
  cases node with
  | statement st => cases st <;> rfl
  | expr e =>
    cases symbol : (Node.expr e).symbol? s with
    | none =>
      have plain (n : Note) : (Node.expr e).describe s n = e.describe n := by
        simp only [symbol?] at symbol
        simp only [describe, symbol]
      simp only [own, plain, names, symbol, Option.isSome_none, Bool.false_eq_true, if_false]
      exact e.describe_eq n
    | some symbol' =>
      have named (n : Note) : (Node.expr e).describe s n = (e.describe n).withSymbol s symbol' := by
        simp only [symbol?] at symbol
        simp only [describe, symbol]
      simp only [own, named, names, symbol, Option.isSome_some, if_true]
      rw [e.describe_eq n]
      rfl

theorem own_definition_of_names (h : node.names s = true) : (node.own s).definition.isSome = true := by
  cases node with
  | statement st =>
    cases st with
    | «variable» d => rfl
    | _ => cases h
  | expr e =>
    have refers : ((Node.expr e).symbol? s).isSome = true := h
    obtain ⟨symbol', symbol⟩ := Option.isSome_iff_exists.1 refers
    simp only [symbol?] at symbol
    simp only [own, describe, symbol]
    rfl

/-- A node that names nothing has no documentation. -/
theorem own_documentation_of_not_names (h : node.names s = false) :
    (node.own s).documentation = none := by
  have same := congrArg Note.documentation (describe_eq s {} node)
  rw [h] at same
  exact same

theorem symbol?_eq_none_of_not_names (h : node.names s = false) : node.symbol? s = none := by
  cases node with
  | statement st => rfl
  | expr e => exact Option.isNone_iff_eq_none.1 (by simpa [names] using h)

theorem names_of_symbol {symbol : Symbol} (h : node.symbol? s = some symbol) : node.names s = true := by
  cases names : node.names s with
  | true => rfl
  | false =>
    rw [symbol?_eq_none_of_not_names names] at h
    cases h

/-- What a node says that refers to a symbol. -/
theorem own_of_symbol {symbol : Symbol} (h : node.symbol? s = some symbol) :
    (node.own s).definition = some symbol.render ∧
      (node.own s).documentation = symbol.documentation? s := by
  simp only [symbol?] at h
  simp only [own, describe, h]
  exact ⟨rfl, rfl⟩

end Node

/-! ### Where the parts of a description come from -/

/-- The node that names something and is innermost. -/
def namer? (s : Snapshot) (nodes : List Node) : Option Node := nodes.reverse.find? (·.names s)

/-- The node that the code comes from: the innermost that has a definition, or else the innermost that has
a type. -/
def speaker? (s : Snapshot) (nodes : List Node) : Option Node :=
  (nodes.reverse.find? fun m => (m.own s).definition.isSome) <|>
    nodes.reverse.find? fun m => (m.own s).type.isSome

/-- What nodes say in turn. -/
def noteOf (s : Snapshot) (nodes : List Node) : Note :=
  { definition := nodes.reverse.findSome? fun m => (m.own s).definition
    type := nodes.reverse.findSome? fun m => (m.own s).type
    documentation := (namer? s nodes).bind fun m => (m.own s).documentation }

/-- What nodes leave of what was said before. -/
theorem describeNodes_eq (s : Snapshot) (nodes : List Node) (start : Note × Range) :
    describeNodes s nodes start =
      ({ start.1.add (noteOf s nodes) with
          documentation := match namer? s nodes with
            | some m => (m.own s).documentation
            | none => start.1.documentation },
        (nodes.getLast?.map (·.interactiveRange)).getD start.2) := by
  induction nodes generalizing start with
  | nil => rfl
  | cons node nodes ih =>
    -- what the first node leaves is what the others start from
    show describeNodes s nodes (node.describe s start.1, node.interactiveRange) = _
    rw [ih, node.describe_eq s start.1]
    simp only [noteOf, namer?, List.reverse_cons, List.findSome?_append, List.find?_append,
      List.findSome?_singleton, List.find?_singleton, Option.or_assoc, Note.add]
    congr 1
    · congr 1
      cases (nodes.reverse.find? (·.names s)) with
      | some m => rfl
      | none => cases node.names s <;> rfl
    · cases nodes with
      | nil => rfl
      | cons next nodes => simp [List.getLast?_cons]

/-- What nodes say if nothing was said before. -/
theorem describeNodes_empty (s : Snapshot) (nodes : List Node) (range : Range) :
    describeNodes s nodes ({}, range) =
      (noteOf s nodes, (nodes.getLast?.map (·.interactiveRange)).getD range) := by
  rw [describeNodes_eq]
  cases named : namer? s nodes <;> simp [Note.add, noteOf, named]

/-- What is said first is said by the first node that says something. -/
theorem findSome?_eq_bind_find? {α : Type} (f : Node → Option α) (nodes : List Node) :
    nodes.findSome? f = (nodes.find? fun m => (f m).isSome).bind f := by
  induction nodes with
  | nil => rfl
  | cons m nodes ih =>
    cases said : f m with
    | none => simp [said, ih]
    | some x => simp [said]

/-- Who speaks has a definition, and no node further in has one, or else no node has a definition at all
and it has a type. -/
theorem speaker?_cases (speaks : speaker? s nodes = some node) :
    (nodes.reverse.find? (fun m => (m.own s).definition.isSome) = some node ∧
      (node.own s).definition.isSome = true) ∨
    (nodes.reverse.find? (fun m => (m.own s).definition.isSome) = none ∧
      nodes.reverse.find? (fun m => (m.own s).type.isSome) = some node ∧
      (node.own s).definition = none ∧ (node.own s).type.isSome = true) := by
  cases defined : nodes.reverse.find? (fun m => (m.own s).definition.isSome) with
  | some m =>
    have same : m = node := by simpa [speaker?, defined] using speaks
    rw [← same]
    exact Or.inl ⟨rfl, List.find?_some (p := fun m : Node => (m.own s).definition.isSome) defined⟩
  | none =>
    have typed : nodes.reverse.find? (fun m => (m.own s).type.isSome) = some node := by
      simpa [speaker?, defined] using speaks
    refine Or.inr ⟨rfl, typed, ?_, List.find?_some (p := fun m : Node => (m.own s).type.isSome) typed⟩
    simpa using List.find?_eq_none.1 defined node (List.mem_of_find?_eq_some typed)

theorem mem_of_speaker (speaks : speaker? s nodes = some node) : node ∈ nodes := by
  obtain ⟨defined, -⟩ | ⟨-, typed, -⟩ := speaker?_cases speaks
  · exact List.mem_reverse.1 (List.mem_of_find?_eq_some defined)
  · exact List.mem_reverse.1 (List.mem_of_find?_eq_some typed)

/-- The code of what nodes say in turn is that of the speaker, whatever is said about a type that no node
has. -/
theorem code_of_speaker (speaks : speaker? s nodes = some node) :
    ∃ code, (node.own s).code = some code ∧ ∀ instead,
      (noteOf s nodes).definition.or ((noteOf s nodes).type.or instead) = some code := by
  rw [noteOf, findSome?_eq_bind_find?, findSome?_eq_bind_find?]
  obtain ⟨defined, here⟩ | ⟨defined, typed, undefined, here⟩ := speaker?_cases speaks
  · obtain ⟨text, htext⟩ := Option.isSome_iff_exists.1 here
    exact ⟨text, by simp [Note.code, htext], fun _ => by simp [defined, htext]⟩
  · obtain ⟨text, htext⟩ := Option.isSome_iff_exists.1 here
    exact ⟨text, by simp [Note.code, undefined, htext], fun _ => by simp [defined, typed, htext]⟩

/-- A speaker that names something is the innermost node that does. -/
theorem namer?_of_speaker (speaks : speaker? s nodes = some node) (names : node.names s = true) :
    namer? s nodes = some node := by
  have here := Node.own_definition_of_names names
  obtain ⟨defined, -⟩ | ⟨-, -, undefined, -⟩ := speaker?_cases speaks
  · obtain ⟨-, further, around, split, silent⟩ := List.find?_eq_some_iff_append.1 defined
    refine List.find?_eq_some_iff_append.2 ⟨names, further, around, split, fun m hm => ?_⟩
    have nothing := silent m hm
    rw [Bool.not_eq_true'] at nothing ⊢
    exact Bool.eq_false_iff.2 fun named =>
      Bool.eq_false_iff.1 nothing (Node.own_definition_of_names named)
  · rw [undefined] at here
    cases here

/-- The documentation is the speaker's own if the speaker names something or no node has any. -/
theorem documentation_noteOf_eq_iff (speaks : speaker? s nodes = some node) :
    (noteOf s nodes).documentation = (node.own s).documentation ↔
      node.names s = true ∨ ∀ outer ∈ namer? s nodes, (outer.own s).documentation = none := by
  rw [noteOf]
  cases names : node.names s with
  | true => simp [namer?_of_speaker speaks names]
  | false =>
    rw [Node.own_documentation_of_not_names names]
    simp [Option.bind_eq_none_iff]

/-- The written type that gives its span to a description: that under the position, if no node there has
a type to show. -/
def writtenAt? (s : Snapshot) (p : Position) : Option TypeSyntax :=
  match (noteOf s (nodesAt s.syntaxTree p)).type with
  | some _ => none
  | none => (typeAt? s.program s.syntaxTree s.uri p).map (·.1)

/-- The span of a description that nodes make: that of the written type, or else of the innermost node. -/
def spanAt? (s : Snapshot) (p : Position) : Option Range :=
  (writtenAt? s p).map (·.range) <|>
    (nodesAt s.syntaxTree p).getLast?.map (·.interactiveRange)

/-! ### The answer -/

namespace Note

/-- A text is made of the code and the documentation. -/
theorem text?_congr {m : Note} (code : m.code = n.code)
    (documentation : m.documentation = n.documentation) : m.text? = n.text? := by
  have sections : m.sections = n.sections := by
    simp only [Note.code] at code
    simp only [Note.sections, code, documentation]
  rw [text?, text?, sections]

/-- The text with code in it: the code, and below it the documentation if there is any. -/
theorem text?_of_code {code : String} (h : n.code = some code) :
    n.text? = some ("```" ++ Keyword.languageId ++ "\n" ++ code ++ "\n```" ++
      (n.documentation.map ("\n---\n" ++ ·)).getD "") := by
  have code : n.definition.or n.type = some code := h
  cases documentation : n.documentation with
  | none =>
    rw [text?, Note.sections, code, documentation]
    simp [String.intercalate_singleton]
  | some text =>
    rw [text?, Note.sections, code, documentation]
    show some (String.intercalate "\n---\n" [_, text]) = some (_ ++ ("\n---\n" ++ text))
    rw [String.intercalate_cons_cons, String.intercalate_singleton, String.append_assoc]

/-- Below the same code, the text shows what documentation there is. -/
theorem documentation_of_text? {m : Note} {code : String} (hm : m.code = some code)
    (hn : n.code = some code) (text : m.text? = n.text?) : m.documentation = n.documentation := by
  rw [text?_of_code hm, text?_of_code hn, Option.some_inj, String.append_right_inj] at text
  cases above : m.documentation <;> cases below : n.documentation
  case none.none => rfl
  case none.some d => simp [above, below] at text
  case some.none d => simp [above, below] at text
  case some.some d d' => simpa [above, below] using text

end Note

/-- Nodes stand in a statement. -/
theorem statementAt?_of_mem (h : node ∈ nodesAt s.syntaxTree p) :
    ∃ st, statementAt? s.syntaxTree p = some st := by
  cases within : statementAt? s.syntaxTree p with
  | none =>
    rw [nodesAt, within] at h
    cases h
  | some st => exact ⟨st, rfl⟩

theorem isSome_spanAt? (h : node ∈ nodesAt s.syntaxTree p) : (spanAt? s p).isSome = true := by
  have last : ((nodesAt s.syntaxTree p).getLast?.map (·.interactiveRange)).isSome = true := by
    rw [Option.isSome_map]
    exact List.getLast?_isSome.2 (List.ne_nil_of_mem h)
  cases written : writtenAt? s p <;> simp [spanAt?, written, last]

/-- The description in terms of its parts, where a node has something to show. -/
theorem hover_eq {t : Token} (token : tokenAt? s.tokens p = some t) (plain : attributeHover? s p = none)
    (unnamed : definitionSite? s p = none)
    (speaks : speaker? s (nodesAt s.syntaxTree p) = some node) :
    hover s p = ({ definition := (node.own s).code
                   documentation := (noteOf s (nodesAt s.syntaxTree p)).documentation } : Note).text?.map
      (⟨·, (spanAt? s p).getD t.range⟩) := by
  obtain ⟨st, within⟩ := statementAt?_of_mem (mem_of_speaker speaks)
  obtain ⟨code, own, spoken⟩ := code_of_speaker speaks
  rw [hover, token, own, Note.text?_of_code rfl]
  simp only [Option.bind_eq_bind, Option.bind_some, plain, noteAt, unnamed, within, describeNodes_empty]
  -- a written type is asked for only if no node has a type, and then the speaker has a definition
  cases typed : (noteOf s (nodesAt s.syntaxTree p)).type with
  | some ty =>
    rw [Note.text?_of_code (by rw [Note.code, ← spoken none, Option.or_none])]
    simp [spanAt?, writtenAt?, typed]
  | none =>
    rw [typed] at spoken
    cases written : typeAt? s.program s.syntaxTree s.uri p with
    | none =>
      dsimp only
      rw [Note.text?_of_code (by rw [Note.code, ← spoken none, typed]; rfl)]
      simp [spanAt?, writtenAt?, typed, written]
    | some found =>
      dsimp only
      rw [Note.text?_of_code (by rw [Note.code, ← spoken, Option.none_or])]
      simp [spanAt?, writtenAt?, typed, written]

/-- **When a description is that of one node.** A description that nodes make takes its code from the
speaker, its documentation from the innermost node that names something, and its span from the innermost
node of all or from a written type. It says what the speaker says alone, with the speaker's span, exactly
if the speaker names something itself or no node brings documentation, and the span is that of the
speaker. -/
theorem hover_describes_one_node_iff {h : Hover} (answer : hover s p = some h)
    (plain : attributeHover? s p = none) (unnamed : definitionSite? s p = none)
    (speaks : speaker? s (nodesAt s.syntaxTree p) = some node) :
    node.hover? s = some h ↔
      (node.names s = true ∨
        ∀ outer ∈ namer? s (nodesAt s.syntaxTree p), (outer.own s).documentation = none) ∧
      spanAt? s p = some node.interactiveRange := by
  obtain ⟨t, token, -⟩ := Option.bind_eq_some_iff.1 answer
  obtain ⟨code, own, -⟩ := code_of_speaker speaks
  obtain ⟨span, hspan⟩ := Option.isSome_iff_exists.1 (isSome_spanAt? (mem_of_speaker speaks))
  rw [hover_eq token plain unnamed speaks, own] at answer
  rw [← documentation_noteOf_eq_iff speaks]
  obtain ⟨text, htext, rfl⟩ := Option.map_eq_some_iff.1 answer
  constructor
  · -- the code is the same on both sides, so that the texts tell the documentation
    intro alone
    obtain ⟨text', own', same⟩ := Option.map_eq_some_iff.1 alone
    obtain ⟨rfl, range⟩ := Hover.mk.inj same
    rw [hspan, Option.getD_some] at range
    exact ⟨Note.documentation_of_text? (m := ⟨some code, none, _⟩) rfl own (htext.trans own'.symm),
      hspan.trans (congrArg some range.symm)⟩
  · rintro ⟨documentation, range⟩
    have same : (node.own s).text? = some text :=
      (Note.text?_congr (m := ⟨some code, none, _⟩) own.symm documentation).symm.trans htext
    rw [Node.hover?, same, range]
    rfl

namespace Sample

/-- The span from one column to another in the fourth line. -/
def columns (start stop : Nat) : Range := ⟨⟨3, start⟩, ⟨3, stop⟩⟩

/-- An indexer that is declared in the second line. -/
def indexer : CompiledFunction :=
  let f := declared mainFile "at"
  { f with definition := { f.definition with kind := .general, range := ⟨⟨1, 0⟩, ⟨1, 9⟩⟩ } }

/-- A file with a comment before the indexer, and with `a[7]` in its fourth line. -/
def indexing : Snapshot :=
  .single mainFile (some 1)
    { tokens :=
        [⟨.comment, .unknown, " Looks up an entry.", ⟨⟨0, 0⟩, ⟨0, 21⟩⟩⟩,
          ⟨.identifier, .unknown, "a", columns 0 1⟩, ⟨.operator, .unknown, "[", columns 1 2⟩,
          ⟨.number, .unknown, "7", columns 2 3⟩, ⟨.operator, .unknown, "]", columns 3 4⟩]
      syntaxTree :=
        { statements :=
            [.expr (.index ⟨columns 0 4, none⟩ (.name ⟨columns 0 1, none⟩ (word "a") none)
              (.int ⟨columns 2 3, none⟩ 7) ⟨word "[", word "]"⟩ (some (.function 0 none)))] }
      program := { functions := [indexer] } }

end Sample

open Sample in
/-- The case of the closing bracket, which means the indexer and nothing else. -/
theorem bracket_described :
    ∃ h node, hover indexing ⟨3, 4⟩ = some h ∧ attributeHover? indexing ⟨3, 4⟩ = none ∧
      definitionSite? indexing ⟨3, 4⟩ = none ∧
      speaker? indexing (nodesAt indexing.syntaxTree ⟨3, 4⟩) = some node ∧
      h = ⟨"```bbc\nvoid at()\n```\n---\nLooks up an entry.", columns 0 4⟩ ∧
      node.hover? indexing = some h := by
  have answer : hover indexing ⟨3, 4⟩ =
      some ⟨"```bbc\nvoid at()\n```\n---\nLooks up an entry.", columns 0 4⟩ := by
    decide +kernel
  exact ⟨_, _, answer, rfl, rfl, rfl, rfl,
    (hover_describes_one_node_iff answer rfl rfl rfl).2 ⟨Or.inl rfl, rfl⟩⟩

open Sample in
/-- The number is shown with the documentation of the indexer that it is handed to, and no node says that
alone. -/
theorem number_with_outer_documentation :
    (hover indexing ⟨3, 2⟩ = some
        ⟨"```bbc\n" ++ literalText "" 7 ++ "\n```\n---\nLooks up an entry.", columns 2 3⟩ ∧
      attributeHover? indexing ⟨3, 2⟩ = none ∧ definitionSite? indexing ⟨3, 2⟩ = none) ∧
      ∀ node ∈ nodesAt indexing.syntaxTree ⟨3, 2⟩, node.hover? indexing ≠ hover indexing ⟨3, 2⟩ := by
  refine ⟨⟨by decide +kernel, rfl, rfl⟩, ?_⟩
  decide +kernel

end LanguageServer
