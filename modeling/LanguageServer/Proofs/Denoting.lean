import LanguageServer.Feature.Definition
import LanguageServer.Proofs.Innermost
import LanguageServer.Proofs.Narrowing
import LanguageServer.Proofs.Sameness

/-!
# Written types and what they denote

A compiler gives names a meaning, and from that every written type denotes a type. A declaration carries the
type that is written in it. An allocation, by `new` with or without a constructor, carries the pointer to it.

* `Scope`, `Scope.denote`: the meanings of names, and what written types denote;
* `Scope.Carries`: a site carries what is written in it, or the pointer to that;
* `Counterpart.carries`, `Descends.carries`: it stays so on the way down;
* `Scope.Faithful`, `statingNode?`, `AtAllocation`: the sites of a file, and that which speaks under a position;
* `written_type_matched_iff`: where the type that is found is the one that is denoted.
-/

namespace LanguageServer

/-! ### Denotation -/

/-- What a compiler makes of names: the type of a plain name, the struct that a name with arguments stands
for, with the names of its parameters, and the length of an array. -/
structure Scope where
  plain : Token → Option Ty
  template : Token → Option (Nat × String × List String)
  length : Option Expr → Option Nat → Option Nat

namespace Scope

mutual

/-- What a written type denotes. Arguments stand for the parameters in the same places. -/
def denote (scope : Scope) : TypeSyntax → Option Ty
  | .named name _ => scope.plain name
  | .applied name arguments _ =>
    (scope.template name).bind fun (index, struct, parameters) =>
      (scope.denoteAll arguments).map fun types => .struct index struct (parameters.zip types)
  | .pointer target _ _ => (scope.denote target).map .pointer
  | .array element size _ inferred _ =>
    (scope.denote element).map fun of => .array of (scope.length size inferred)
  | .function result parameters _ _ =>
    (scope.denote result).bind fun meant => (scope.denoteAll parameters).map fun types =>
      .function meant types
  | .missing _ => none

/-- What a list of written types denotes. -/
def denoteAll (scope : Scope) : List TypeSyntax → Option (List Ty)
  | [] => some []
  | s :: ss => (scope.denote s).bind fun t => (scope.denoteAll ss).map fun ts => t :: ts

end

variable {scope : Scope} {ss : List TypeSyntax} {ts : List Ty}

theorem map_denote_of_denoteAll (h : scope.denoteAll ss = some ts) : ss.map scope.denote = ts.map some := by
  induction ss generalizing ts with
  | nil =>
    cases h
    rfl
  | cons s ss ih =>
    obtain ⟨t, first, h⟩ := Option.bind_eq_some_iff.1 h
    obtain ⟨rest, others, rfl⟩ := Option.map_eq_some_iff.1 h
    rw [List.map_cons, List.map_cons, first, ih others]

/-- In a list, each written type denotes the type in the same place. -/
theorem denote_of_getElem? {i : Nat} {s : TypeSyntax} {t : Ty} (denoted : scope.denoteAll ss = some ts)
    (written : ss[i]? = some s) (meant : ts[i]? = some t) : scope.denote s = some t := by
  have there := congrArg (·[i]?) (map_denote_of_denoteAll denoted)
  simpa only [List.getElem?_map, written, meant, Option.map_some, Option.some_inj] using there

end Scope

/-- What a site carries in which a type is written: that type, or in an allocation the pointer to it. -/
def Ty.held (allocated : Bool) (t : Ty) : Ty := if allocated then .pointer t else t

/-- A type is carried where another one is written: they agree, whatever aliases they are given by. -/
def Scope.Carries (scope : Scope) (allocated : Bool) (s : TypeSyntax) (t : Ty) : Prop :=
  ∃ u, scope.denote s = some u ∧ t.sameAs (u.held allocated) = true

/-! ### On the way down -/

variable {scope : Scope} {allocated : Bool} {s s' part : TypeSyntax} {t t' meaning : Ty} {c : Component}
  {path : List Component} {p : Position}

namespace Counterpart

/-- If a type is what a written type denotes, its parts are what the written parts denote. -/
theorem exists_denoted {u : Ty} (pair : Counterpart s t c part meaning)
    (whole : scope.denote s = some u) (same : t.bare = u.bare) :
    ∃ v, scope.denote part = some v ∧ meaning.bare = v.bare := by
  rw [← t.bare_resolve] at same
  cases pair with
  | target resolved =>
    obtain ⟨v, denoted, rfl⟩ := Option.map_eq_some_iff.1 whole
    rw [resolved] at same
    exact ⟨v, denoted, Ty.pointer.inj same⟩
  | element resolved =>
    obtain ⟨v, denoted, rfl⟩ := Option.map_eq_some_iff.1 whole
    rw [resolved] at same
    exact ⟨v, denoted, (Ty.array.inj same).1⟩
  | result resolved _ =>
    obtain ⟨v, denoted, whole⟩ := Option.bind_eq_some_iff.1 whole
    obtain ⟨types, -, rfl⟩ := Option.map_eq_some_iff.1 whole
    rw [resolved] at same
    exact ⟨v, denoted, (Ty.function.inj same).1⟩
  | parameter resolved _ written meant =>
    obtain ⟨v, -, whole⟩ := Option.bind_eq_some_iff.1 whole
    obtain ⟨types, denoted, rfl⟩ := Option.map_eq_some_iff.1 whole
    rw [resolved] at same
    obtain ⟨w, there, same⟩ := Ty.exists_of_bareTypes_eq (Ty.function.inj same).2 meant
    exact ⟨w, Scope.denote_of_getElem? denoted written there, same⟩
  | argument resolved written meant =>
    obtain ⟨⟨index, struct, parameters⟩, -, whole⟩ := Option.bind_eq_some_iff.1 whole
    obtain ⟨types, denoted, rfl⟩ := Option.map_eq_some_iff.1 whole
    rw [resolved] at same
    have arguments := Ty.bareArguments_inj.1 (Ty.struct.inj same).2.2
    obtain ⟨v, there, same⟩ := Ty.exists_of_bareTypes_eq arguments meant
    rw [List.getElem?_map] at there
    obtain ⟨⟨name, _⟩, paired, rfl⟩ := Option.map_eq_some_iff.1 there
    exact ⟨_, Scope.denote_of_getElem? denoted written (List.getElem?_zip_eq_some.1 paired).2, same⟩

/-- Where a pointer is carried, only a pointer that is written has a part to go on to. -/
theorem exists_pointer {u : Ty} (pair : Counterpart s t c part meaning)
    (same : t.bare = (Ty.pointer u).bare) :
    meaning.bare = u.bare ∧ ∃ operator r, s = .pointer part operator r := by
  rw [← t.bare_resolve] at same
  cases pair with
  | target resolved =>
    rw [resolved] at same
    exact ⟨Ty.pointer.inj same, _, _, rfl⟩
  | element resolved | argument resolved | result resolved | parameter resolved =>
    rw [resolved] at same
    cases same

/-- What is carried at a written type is carried at its parts. -/
theorem carries (pair : Counterpart s t c part meaning) (h : scope.Carries allocated s t) :
    scope.Carries allocated part meaning := by
  obtain ⟨u, whole, same⟩ := h
  rw [Ty.sameAs_iff] at same
  cases allocated with
  | false =>
    obtain ⟨v, denoted, same⟩ := pair.exists_denoted whole same
    exact ⟨v, denoted, (Ty.sameAs_iff _ _).2 same⟩
  | true =>
    -- only the target of a written pointer is left to go on to, and it is again one pointer behind
    obtain ⟨same, operator, r, rfl⟩ := pair.exists_pointer same
    obtain ⟨v, denoted, rfl⟩ := Option.map_eq_some_iff.1 whole
    exact ⟨v, denoted, (Ty.sameAs_iff _ _).2 same⟩

end Counterpart

/-- What is carried at a written type is carried wherever one goes down from there. -/
theorem Descends.carries (way : Descends p path s t s' t') (h : scope.Carries allocated s t) :
    scope.Carries allocated s' t' := by
  induction way with
  | here => exact h
  | step pair _ _ ih => exact ih (pair.carries h)

/-! ### Sites -/

/-- Whether an expression allocates what its type says, and has a pointer to it. -/
def Expr.allocates : Expr → Bool
  | .new _ _ _ | .construct _ _ _ _ _ _ _ => true
  | _ => false

/-- Whether a node allocates. -/
def Node.allocates : Node → Bool
  | .statement _ => false
  | .expr e => e.allocates

/-- Every definition of a file, every declaration of a variable and every conversion carries the type that
is written in it, and every allocation the pointer to it. -/
structure Scope.Faithful (scope : Scope) (s : Snapshot) : Prop where
  declared : ∀ site ∈ declaredTypes s.program s.uri, scope.Carries false site.1 site.2
  stated : ∀ st node, s.syntaxTree.Has st → st.Has node →
    ∀ written ∈ node.typeSyntax?, ∀ ty ∈ node.type?, scope.Carries node.allocates written ty

/-- The type that is written in a node, if it is under a position, with what the node carries. -/
def Node.statedType? (p : Position) (node : Node) : Option (TypeSyntax × Ty) :=
  match node.typeSyntax?, node.type? with
  | some written, some ty =>
    if node.range.contains p && written.range.contains p then some (written, ty) else none
  | _, _ => none

/-- The node whose written type is looked at, if none at a definition is under the position: the innermost
one in the statement there. -/
def statingNode? (s : Snapshot) (p : Position) : Option Node :=
  match (declaredTypes s.program s.uri).find? (·.1.range.contains p) with
  | some _ => none
  | none => (statementAt? s.syntaxTree p).bind fun st =>
    st.descendants.reverse.find? fun node => (node.statedType? p).isSome

/-- The written type that is looked at is that of an allocation. -/
def AtAllocation (s : Snapshot) (p : Position) : Prop :=
  ∃ node, statingNode? s p = some node ∧ node.allocates = true

variable {s : Snapshot} {written : TypeSyntax} {ty : Ty} {node : Node}

theorem Node.statedType?_eq_some (h : node.statedType? p = some (written, ty)) :
    written ∈ node.typeSyntax? ∧ ty ∈ node.type? := by
  unfold statedType? at h
  split at h
  case h_1 syntactic carried =>
    split at h
    · obtain ⟨rfl, rfl⟩ := Prod.mk.inj (Option.some.inj h)
      exact ⟨syntactic, carried⟩
    · cases h
  case h_2 => cases h

/-- The last type that is stated under a position is stated by the innermost node there. -/
theorem getLast?_statedTypes (st : Statement) (p : Position) :
    (statedTypes st p).getLast? =
      (st.descendants.reverse.find? fun node => (node.statedType? p).isSome).bind
        (·.statedType? p) := by
  have stated : statedTypes st p = st.descendants.filterMap (·.statedType? p) := rfl
  rw [stated, List.getLast?_filterMap, findSome?_eq_bind_find?]

/-- The type that is found is narrowed from that of a definition, or of a node. -/
theorem typeAt?_cases (found : typeAt? s.program s.syntaxTree s.uri p = some (written, ty)) :
    (statingNode? s p = none ∧
      ∃ site ∈ declaredTypes s.program s.uri, narrow p site.1 site.2 = (written, ty)) ∨
    ∃ st node whole carried, statingNode? s p = some node ∧ s.syntaxTree.Has st ∧ st.Has node ∧
      whole ∈ node.typeSyntax? ∧ carried ∈ node.type? ∧ narrow p whole carried = (written, ty) := by
  unfold typeAt? at found
  split at found
  case h_1 whole carried site =>
    refine Or.inl ⟨?_, _, List.mem_of_find?_eq_some site, Option.some.inj found⟩
    rw [statingNode?, site]
  case h_2 nowhere =>
    obtain ⟨st, within, found⟩ := Option.bind_eq_some_iff.1 found
    obtain ⟨⟨whole, carried⟩, last, found⟩ := Option.bind_eq_some_iff.1 found
    rw [getLast?_statedTypes] at last
    obtain ⟨node, innermost, states⟩ := Option.bind_eq_some_iff.1 last
    obtain ⟨syntactic, carries⟩ := Node.statedType?_eq_some states
    have has := Statement.mem_descendants.1 (List.mem_reverse.1 (List.mem_of_find?_eq_some innermost))
    refine Or.inr ⟨st, node, whole, carried, ?_, (innermost_of_statementAt? within).1, has, syntactic,
      carries, ?_⟩
    · rw [statingNode?, nowhere]
      simp only [within, Option.bind_some, innermost]
    · simp only at found
      split at found
      · exact Option.some.inj found
      · cases found

/-- What is found in a faithful file is carried there: a pointer at allocations, and else the type itself. -/
theorem Scope.Faithful.carries (faithful : scope.Faithful s)
    (found : typeAt? s.program s.syntaxTree s.uri p = some (written, ty)) :
    ∃ allocated, (allocated = true ↔ AtAllocation s p) ∧ scope.Carries allocated written ty := by
  have down {allocated : Bool} {whole : TypeSyntax} {carried : Ty}
      (top : scope.Carries allocated whole carried) (same : narrow p whole carried = (written, ty)) :
      scope.Carries allocated written ty := by
    obtain ⟨path, way⟩ := exists_descends p whole carried
    rw [same] at way
    exact way.carries top
  obtain ⟨none, site, hsite, narrowed⟩ | ⟨st, node, whole, carried, states, hst, hnode, hw, hc, narrowed⟩ :=
    typeAt?_cases found
  -- definitions are looked at first, and none of them allocates
  · refine ⟨false, ?_, down (faithful.declared site hsite) narrowed⟩
    simp [AtAllocation, none]
  · refine ⟨node.allocates, ?_, down (faithful.stated st node hst hnode whole hw carried hc) narrowed⟩
    simp [AtAllocation, states]

/-! ### Links -/

/-- The link to the declaration of a struct. -/
def structLink? (s : Snapshot) (written : TypeSyntax) (index : Nat) : Option Link := do
  let t ← s.program.structs[index]?
  let file ← t.definition.file
  link? written.linkRange ⟨file, t.definition.name.range⟩

theorem typeDefinitions_eq (found : typeAt? s.program s.syntaxTree s.uri p = some (written, ty)) :
    typeDefinitions s p = ((typeLocation? s ty).bind (link? written.linkRange)).toList := by
  rw [typeDefinitions, found]
  rfl

/-- A type with a struct behind it leads to that. -/
theorem typeDefinitions_of_struct {index : Nat}
    (found : typeAt? s.program s.syntaxTree s.uri p = some (written, ty))
    (behind : ty.structIndex? = some index) :
    typeDefinitions s p = (structLink? s written index).toList := by
  obtain ⟨⟨i, name, arguments⟩, struct, (rfl : i = index)⟩ := Option.map_eq_some_iff.1 behind
  rw [typeDefinitions_eq found, structLink?]
  unfold typeLocation?
  rw [struct]
  show ((s.program.structs[i]?.bind _).bind _).toList = _
  cases s.program.structs[i]? with
  | none => rfl
  | some t =>
    show ((t.definition.file.map _).bind _).toList = (t.definition.file.bind _).toList
    cases t.definition.file <;> rfl

/-- A pointer that is no alias leads nowhere. -/
theorem typeDefinitions_of_pointer {u : Ty}
    (found : typeAt? s.program s.syntaxTree s.uri p = some (written, ty))
    (pointer : ty.sameAs (.pointer u) = true) (plain : ty.resolve = ty) : typeDefinitions s p = [] := by
  rw [typeDefinitions_eq found]
  rw [Ty.sameAs_iff] at pointer
  cases ty with
  | pointer _ => rfl
  | «alias» => exact absurd plain (Ty.resolve_ne_alias _)
  | _ => cases pointer

/-! ### The type under a position -/

/-- **Where the type that is found is the one that is denoted.** In a faithful file, what is written under a
position denotes a type. The type that is found along with it agrees with that exactly if the position is
not at an allocation. Then a struct that is written leads to its declaration. At an allocation, the pointer
to what is written is found in its place, which has no struct behind it and leads nowhere, unless an alias
stands for it. -/
theorem written_type_matched_iff (faithful : scope.Faithful s)
    (found : typeAt? s.program s.syntaxTree s.uri p = some (written, ty)) :
    ∃ u, scope.denote written = some u ∧
      (ty.sameAs u = true ↔ ¬AtAllocation s p) ∧
      (¬AtAllocation s p → ∀ index, u.structIndex? = some index →
        typeDefinitions s p = (structLink? s written index).toList) ∧
      (AtAllocation s p → ty.sameAs (.pointer u) = true ∧ ty.structIndex? = none ∧
        (ty.resolve = ty → typeDefinitions s p = [])) := by
  obtain ⟨allocated, at_allocation, u, denoted, same⟩ := faithful.carries found
  refine ⟨u, denoted, ?_⟩
  rw [← at_allocation]
  cases allocated with
  | false =>
    have same : ty.sameAs u = true := same
    refine ⟨by simp [same], fun _ index struct => ?_, fun h => by cases h⟩
    have behind : ty.structIndex? = u.structIndex? := by
      rw [← ty.structIndex?_bare, (Ty.sameAs_iff _ _).1 same, u.structIndex?_bare]
    exact typeDefinitions_of_struct found (behind.trans struct)
  | true =>
    have pointer : ty.sameAs (.pointer u) = true := same
    refine ⟨?_, fun h => absurd rfl h, fun _ => ⟨pointer, ?_, typeDefinitions_of_pointer found pointer⟩⟩
    · constructor
      · intro same
        rw [Ty.not_sameAs_pointer same] at pointer
        cases pointer
      · exact fun h => absurd rfl h
    · rw [← ty.structIndex?_bare, (Ty.sameAs_iff _ _).1 pointer]
      rfl

namespace Sample

/-- A struct that is declared in the first line. -/
def point : CompiledStruct :=
  { definition :=
      { file := some mainFile, attributes := [], modifiers := [], keyword := word "struct"
        name := { word "Point" with range := ⟨⟨0, 7⟩, ⟨0, 12⟩⟩ }, template := none, fields := []
        range := ⟨⟨0, 0⟩, ⟨0, 15⟩⟩ }
    fields := []
    sites := [] }

/-- The type of its values. -/
def pointTy : Ty := .struct 0 "Point" []

/-- Its name, written in the fourth line. -/
def pointAt (start stop : Nat) : TypeSyntax :=
  .named { word "Point" with range := columns start stop } (columns start stop)

/-- The expression `new Point`. -/
def newPoint : Expr := .new ⟨columns 11 20, some (.pointer pointTy)⟩ (word "new") (pointAt 15 20)

/-- The declaration `Point* p = new Point;`. -/
def pointVariable : VariableDefinition :=
  { file := some mainFile, attributes := [], modifiers := []
    typeSyntax := .pointer (pointAt 0 5) (word "*") (columns 0 6), name := word "p"
    initial := some newPoint, type := some (.pointer pointTy), range := columns 0 21 }

/-- A file with the struct and the declaration. -/
def allocating : Snapshot :=
  .single mainFile (some 1)
    { syntaxTree := { statements := [.variable pointVariable] }, program := { structs := [point] } }

/-- The only name with a meaning is that of the struct. -/
def pointScope : Scope :=
  { plain := fun name => if name.content = "Point" then some pointTy else none
    template := fun _ => none
    length := fun _ inferred => inferred }

theorem faithful_allocating : pointScope.Faithful allocating where
  declared := fun site hsite => by cases hsite
  stated := by
    intro st node hst hnode written hwritten ty hty
    obtain rfl := List.mem_singleton.1 (SourceFile.mem_allStatements.2 hst)
    have listed : node ∈ [.statement (.variable pointVariable), .expr newPoint] :=
      Statement.mem_descendants.2 hnode
    simp only [List.mem_cons, List.not_mem_nil, or_false] at listed
    obtain rfl | rfl := listed <;> cases hwritten <;> cases hty
    · exact ⟨.pointer pointTy, rfl, by decide⟩
    · exact ⟨pointTy, rfl, by decide⟩

end Sample

open Sample in
/-- The case of the name before the star: it leads to the struct. -/
theorem point_of_variable_matched :
    pointScope.Faithful allocating ∧
      typeAt? allocating.program allocating.syntaxTree allocating.uri ⟨3, 2⟩ =
        some (pointAt 0 5, pointTy) ∧
      pointTy.sameAs pointTy = true ∧
      typeDefinitions allocating ⟨3, 2⟩ = [⟨columns 0 5, ⟨mainFile, ⟨⟨0, 7⟩, ⟨0, 12⟩⟩⟩⟩] := by
  have found : typeAt? allocating.program allocating.syntaxTree allocating.uri ⟨3, 2⟩ =
      some (pointAt 0 5, pointTy) := rfl
  have outside : ¬AtAllocation allocating ⟨3, 2⟩ := by
    rintro ⟨node, states, allocates⟩
    cases states
    cases allocates
  obtain ⟨u, denoted, same, linked, -⟩ := written_type_matched_iff faithful_allocating found
  cases denoted
  exact ⟨faithful_allocating, found, same.2 outside, linked outside 0 rfl⟩

open Sample in
/-- The name after `new` denotes the struct. The pointer to it is found, and nothing is linked. -/
theorem point_of_new_not_matched :
    pointScope.Faithful allocating ∧
      typeAt? allocating.program allocating.syntaxTree allocating.uri ⟨3, 17⟩ =
        some (pointAt 15 20, .pointer pointTy) ∧
      pointScope.denote (pointAt 15 20) = some pointTy ∧
      (Ty.pointer pointTy).sameAs pointTy = false ∧
      typeDefinitions allocating ⟨3, 17⟩ = [] :=
  ⟨faithful_allocating, rfl, rfl, by decide, rfl⟩

end LanguageServer
