import LanguageServer.Proofs.Describing

/-!
# Which symbol a link leads to

For a link, the innermost node that has a reference is chosen first, and the reference is looked up
afterwards; if the tables have nothing in its place, there is no link. A description looks up the reference
of every node and keeps the innermost one that stands for something.

* `symbolAt?`, `symbolLink?`: the innermost symbol, and the link to its declaration;
* `Dangling`: the innermost reference stands for nothing;
* `referenceLink?_cases`: the link that is given;
* `innermost_symbol_followed_iff`: when the innermost symbol is the one that is followed, and that a
  description shows no other.
-/

namespace LanguageServer

variable {s : Snapshot} {p : Position} {node : Node} {r : Reference} {symbol : Symbol}

/-- The innermost node under a position whose reference stands for a symbol. -/
def symbolAt? (s : Snapshot) (p : Position) : Option (Node × Symbol) :=
  (nodesAt s.syntaxTree p).reverse.findSome? fun node => (node.symbol? s).map (node, ·)

/-- The link to the declaration of the innermost symbol, if that may be named to the editor. -/
def symbolLink? (s : Snapshot) (p : Position) : Option Link := do
  let (node, symbol) ← symbolAt? s p
  let target ← symbol.definition?
  link? node.interactiveRange target

/-- The innermost reference under a position is a place where the tables have nothing. -/
def Dangling (s : Snapshot) (p : Position) : Prop :=
  ∃ node r, referenceAt? s.syntaxTree p = some (node, r) ∧ Symbol.resolve? s.program r = none

/-! ### Links -/

theorem symbolAt?_of_reference (found : referenceAt? s.syntaxTree p = some (node, r))
    (meant : Symbol.resolve? s.program r = some symbol) : symbolAt? s p = some (node, symbol) := by
  obtain ⟨further, m, around, split, here, silent⟩ := List.findSome?_eq_some_iff.1 found
  obtain ⟨r', reference, same⟩ := Option.map_eq_some_iff.1 here
  obtain ⟨rfl, rfl⟩ := Prod.mk.inj same
  refine List.findSome?_eq_some_iff.2 ⟨further, m, around, split, ?_, fun x hx => ?_⟩
  · rw [Node.symbol?, reference, Option.bind_some, meant]
    rfl
  · rw [Node.symbol?, Option.map_eq_none_iff.1 (silent x hx)]
    rfl

/-- Without a reference there is no symbol. -/
theorem symbolAt?_eq_none (nothing : referenceAt? s.syntaxTree p = none) : symbolAt? s p = none := by
  refine List.findSome?_eq_none_iff.2 fun x hx => ?_
  have silent := List.findSome?_eq_none_iff.1 nothing x hx
  rw [Node.symbol?, Option.map_eq_none_iff.1 silent]
  rfl

/-- Where a reference dangles no link is given, and elsewhere the one to the innermost symbol. -/
theorem referenceLink?_cases (s : Snapshot) (p : Position) :
    (Dangling s p ∧ referenceLink? s p = none) ∨
      (¬Dangling s p ∧ referenceLink? s p = symbolLink? s p) := by
  cases found : referenceAt? s.syntaxTree p with
  | none =>
    refine Or.inr ⟨?_, ?_⟩
    · rintro ⟨node, r, found', -⟩
      rw [found] at found'
      cases found'
    · rw [referenceLink?, found, symbolLink?, symbolAt?_eq_none found]
      rfl
  | some known =>
    obtain ⟨node, r⟩ := known
    cases meant : Symbol.resolve? s.program r with
    | none =>
      refine Or.inl ⟨⟨node, r, found, meant⟩, ?_⟩
      rw [referenceLink?, found]
      simp [meant]
    | some symbol =>
      refine Or.inr ⟨?_, ?_⟩
      · rintro ⟨node', r', found', nothing⟩
        obtain ⟨rfl, rfl⟩ := Prod.mk.inj (Option.some.inj (found.symm.trans found'))
        rw [meant] at nothing
        cases nothing
      · rw [referenceLink?, found, symbolLink?, symbolAt?_of_reference found meant]
        simp [meant]

theorem importLink?_eq_none (off : ∀ u ∈ s.syntaxTree.usings, u.range.contains p = false) :
    importLink? s p = none := by
  have none : s.syntaxTree.usings.find? (·.range.contains p) = none :=
    List.find?_eq_none.2 fun u hu => by rw [off u hu]; decide
  rw [importLink?, none]
  rfl

/-! ### Descriptions -/

/-- A speaker that refers to a symbol is the innermost node that does. -/
theorem symbolAt?_of_speaker (speaks : speaker? s (nodesAt s.syntaxTree p) = some node)
    (meant : node.symbol? s = some symbol) : symbolAt? s p = some (node, symbol) := by
  have innermost := namer?_of_speaker speaks (Node.names_of_symbol meant)
  obtain ⟨-, further, around, split, silent⟩ := List.find?_eq_some_iff_append.1 innermost
  refine List.findSome?_eq_some_iff.2 ⟨further, node, around, split, by rw [meant]; rfl, fun x hx => ?_⟩
  rw [Node.symbol?_eq_none_of_not_names (by simpa using silent x hx)]
  rfl

/-- A description that is made by a node with a symbol is that of the symbol. -/
theorem text_of_symbol {h : Hover} (answer : hover s p = some h) (plain : attributeHover? s p = none)
    (unnamed : definitionSite? s p = none) (speaks : speaker? s (nodesAt s.syntaxTree p) = some node)
    (meant : node.symbol? s = some symbol) :
    (({} : Note).withSymbol s symbol).text? = some h.text := by
  obtain ⟨t, token, -⟩ := Option.bind_eq_some_iff.1 answer
  obtain ⟨definition, documentation⟩ := Node.own_of_symbol meant
  have documented := (documentation_noteOf_eq_iff speaks).2 (Or.inl (Node.names_of_symbol meant))
  rw [hover_eq token plain unnamed speaks, documented, documentation, Note.code, definition] at answer
  obtain ⟨text, htext, rfl⟩ := Option.map_eq_some_iff.1 answer
  exact (Note.text?_congr rfl rfl).trans htext

/-- **Which symbol is followed.** Off the imports, the links of a position are those of the innermost
symbol exactly if the innermost reference of all does not dangle, or that symbol has no link anyway. A
description that is made by a node with a symbol shows the innermost symbol. -/
theorem innermost_symbol_followed_iff
    (off : ∀ u ∈ s.syntaxTree.usings, u.range.contains p = false) :
    (definitions s p = (symbolLink? s p).toList ↔ ¬Dangling s p ∨ symbolLink? s p = none) ∧
    ∀ h node symbol, hover s p = some h → attributeHover? s p = none → definitionSite? s p = none →
      speaker? s (nodesAt s.syntaxTree p) = some node → node.symbol? s = some symbol →
      symbolAt? s p = some (node, symbol) ∧
        (({} : Note).withSymbol s symbol).text? = some h.text := by
  refine ⟨?_, fun h node symbol answer plain unnamed speaks meant =>
    ⟨symbolAt?_of_speaker speaks meant, text_of_symbol answer plain unnamed speaks meant⟩⟩
  rw [definitions, importLink?_eq_none off, Option.toList_none, List.nil_append]
  obtain ⟨dangling, none⟩ | ⟨sound, same⟩ := referenceLink?_cases s p
  · rw [none, Option.toList_none]
    constructor
    · intro empty
      exact Or.inr (Option.toList_eq_nil_iff.1 empty.symm)
    · rintro (sound | nothing)
      · exact absurd dangling sound
      · rw [nothing, Option.toList_none]
  · rw [same]
    exact ⟨fun _ => Or.inl sound, fun _ => rfl⟩

namespace Sample

/-- A file with a call of a function in its fourth line. The call refers to the function; the name that is
called may have a reference of its own. -/
def seeking (callee : Option Reference) : Snapshot :=
  .single mainFile (some 1)
    { tokens := [⟨.identifier, .unknown, "seek", columns 0 4⟩]
      syntaxTree :=
        { statements :=
            [.expr (.call ⟨columns 0 6, none⟩ (.name ⟨columns 0 4, none⟩ (word "seek") callee) [] []
              ⟨word "(", word ")"⟩ (some (.function 0 none)))] }
      program := { functions := [declared mainFile "seek"] } }

end Sample

open Sample in
/-- The case of a name without a reference in a call: the function is followed. -/
theorem call_followed :
    (∀ u ∈ (seeking none).syntaxTree.usings, u.range.contains ⟨3, 1⟩ = false) ∧
      definitions (seeking none) ⟨3, 1⟩ = [⟨columns 0 4, ⟨mainFile, default⟩⟩] := by
  have off : ∀ u ∈ (seeking none).syntaxTree.usings, u.range.contains ⟨3, 1⟩ = false := by
    intro u hu
    cases hu
  have sound : ¬Dangling (seeking none) ⟨3, 1⟩ := by
    rintro ⟨node, r, found, nothing⟩
    cases found
    cases nothing
  have linked : symbolLink? (seeking none) ⟨3, 1⟩ = some ⟨columns 0 4, ⟨mainFile, default⟩⟩ := by
    decide +kernel
  refine ⟨off, ?_⟩
  rw [(innermost_symbol_followed_iff off).1.2 (Or.inl sound), linked, Option.toList_some]

open Sample in
/-- A name whose reference is beyond the table of functions: the call around it refers to one, and the
description shows that, but no link is given. -/
theorem call_of_dangling_name_not_followed :
    (∀ u ∈ (seeking (some (.function 7 none))).syntaxTree.usings,
        u.range.contains ⟨3, 1⟩ = false) ∧
      (symbolAt? (seeking (some (.function 7 none))) ⟨3, 1⟩).map (·.2.render) = some "void seek()" ∧
      symbolLink? (seeking (some (.function 7 none))) ⟨3, 1⟩ =
        some ⟨columns 0 4, ⟨mainFile, default⟩⟩ ∧
      hover (seeking (some (.function 7 none))) ⟨3, 1⟩ =
        some ⟨"```bbc\nvoid seek()\n```", columns 0 4⟩ ∧
      definitions (seeking (some (.function 7 none))) ⟨3, 1⟩ = [] := by
  refine ⟨?_, by decide +kernel, by decide +kernel, by decide +kernel, by decide +kernel⟩
  intro u hu
  cases hu

end LanguageServer
