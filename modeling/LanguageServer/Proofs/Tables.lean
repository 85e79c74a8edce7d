import LanguageServer.Feature.Definition
import LanguageServer.Run
import LanguageServer.Syntax.References
import LanguageServer.Proofs.Attempt

/-!
# References and the tables that they point into

References are places in the tables of the program that the tree came from. An analysis keeps the
program of the last compilation that produced one, and the tree of the last one whose tree has something
in it; these need not be the same.

* `Lineage`, `Lineage.step?`: the analysis of a file with the programs that it was made from;
* `Attempt.analysis_cases`: what a compilation does to the analysis;
* `Lineage.paired_of_run`: which program and which tree an analysis has, after any compilations;
* `Lineage.faithful_iff`: when references stand for what they stood for in their own program.
-/

namespace LanguageServer

variable {σ : Type} {c : Compiler σ} {a : Attempt σ} {file : Uri}

/-! ### Trees and programs -/

namespace Program

/-- The syntax tree that a program has for a file, with nothing in it if there is none. -/
def treeOf (p : Program) (file : Uri) : SourceFile := ((p.file? file).map (·.syntaxTree)).getD {}

/-- Whether a program has a tree for a file with something in it. -/
def covers (p : Program) (file : Uri) : Bool := !(p.treeOf file).isEmpty

end Program

/-- The tree of an analysis is that of the program, if that has one with something in it. -/
theorem Job.syntaxTree_analysisOf (j : Job) (project : Project) (p : Program) :
    (j.analysisOf project p).syntaxTree =
      if p.covers j.document then p.treeOf j.document else j.previous.syntaxTree := by
  rw [Program.covers, Program.treeOf, analysisOf]
  cases found : p.file? j.document with
  | none => rfl
  | some parsed => cases empty : parsed.syntaxTree.isEmpty <;> simp [empty]

/-- The reference that is found under a position is one that the tree keeps. -/
theorem SourceFile.mem_references_of_referenceAt? {f : SourceFile} {p : Position} {node : Node}
    {r : Reference} (h : referenceAt? f p = some (node, r)) : r ∈ f.references := by
  obtain ⟨found, hfound, hr⟩ := List.exists_of_findSome?_eq_some h
  obtain ⟨r', hr', same⟩ := Option.map_eq_some_iff.1 hr
  cases same
  have hnode : node ∈ nodesAt f p := List.mem_reverse.1 hfound
  unfold nodesAt at hnode
  split at hnode
  · cases hnode
  · next s hs =>
    have inside : s ∈ f.allStatements := List.mem_reverse.1 (List.mem_of_find?_eq_some hs)
    have own : r ∈ s.references :=
      Statement.mem_references_of_walk hr' s (List.mem_filter.1 hnode).1
    exact List.mem_append_right _ (Statement.referencesOf_of_nested own f.roots inside)

/-- The program that a compilation produced, if it is stored. -/
def Attempt.program? (c : Compiler σ) (a : Attempt σ) : Option Program :=
  if a.isStored c then (a.call c).result.toOption else none

/-- What a compilation of a file does to its analysis: nothing, or it keeps what there was, with a new
version, or the program takes the place of the one before. -/
theorem Attempt.analysis_cases (isFile : a.document.isFile = true) {d d' : Document}
    (before : a.store.find? a.document = some d)
    (after : (a.after c).1.find? a.document = some d') :
    (d'.analysis = d.analysis ∧ a.program? c = none) ∨
    (d'.analysis = a.job.keepPrevious a.project ∧ a.program? c = none) ∨
    ∃ p, d'.analysis = a.job.analysisOf a.project p ∧ a.program? c = some p := by
  obtain ⟨refused, same⟩ | ⟨o, d₀, ok, kept, found, new, -⟩ := a.after_cases c
  · rw [same, before] at after
    exact Or.inl ⟨by rw [Option.some.inj after], by simp [program?, refused]⟩
  · rw [new] at after
    rw [← Option.some.inj after, program?, if_pos kept]
    refine Or.inr ?_
    obtain ⟨p, result, rfl⟩ | ⟨e, result, rfl⟩ := outcome_cases isFile ok
    · exact Or.inr ⟨p, rfl, by rw [result]; rfl⟩
    · exact Or.inl ⟨rfl, by rw [result]; rfl⟩

/-! ### One compilation after the other -/

/-- The analysis of a file, with the programs that the compilations so far produced, in order. -/
structure Lineage where
  analysis : Analysis := {}
  programs : List Program := []

/-- A compilation of a file goes on from an analysis: it starts from that, and finds it still there when
it ends. In between, the editor may change what it likes. -/
structure Lineage.ContinuedBy (file : Uri) (l : Lineage) (a : Attempt σ) : Prop where
  document : a.document = file
  previous : a.job.previous = l.analysis
  found : (a.store.find? file).map (·.analysis) = some l.analysis

namespace Lineage

variable {l m : Lineage} {attempts : List (Attempt σ)}

/-- The lineage after a compilation. -/
def step? (c : Compiler σ) (file : Uri) (l : Lineage) (a : Attempt σ) : Option Lineage :=
  ((a.after c).1.find? file).map fun d =>
    { analysis := d.analysis, programs := l.programs ++ (a.program? c).toList }

/-- The program that the tree came from: the last one that has a tree with something in it. -/
def origin? (file : Uri) (l : Lineage) : Option Program :=
  l.programs.reverse.find? (·.covers file)

/-- The program is that of the last compilation that produced one, and the tree that of the last one
that had one with something in it. -/
structure Paired (file : Uri) (l : Lineage) : Prop where
  program : l.analysis.program = l.programs.getLast?.getD {}
  tree : l.analysis.syntaxTree = ((l.origin? file).map (·.treeOf file)).getD {}

theorem paired_empty (file : Uri) : Paired file {} := ⟨rfl, rfl⟩

/-- The origin changes with a program that has a tree for the file. -/
theorem origin?_append_singleton (analysis : Analysis) (programs : List Program) (p : Program) :
    origin? file ⟨analysis, programs ++ [p]⟩ =
      if p.covers file then some p else origin? file ⟨analysis, programs⟩ := by
  cases covers : p.covers file <;> simp [origin?, covers]

/-- What a compilation leaves has the program and the tree that it is said to have. -/
theorem Paired.step (h : Paired file l) (isFile : file.isFile = true) (continued : l.ContinuedBy file a)
    (step : step? c file l a = some m) : Paired file m := by
  obtain ⟨rfl, previous, found⟩ := continued
  obtain ⟨d, before, same⟩ := Option.map_eq_some_iff.1 found
  obtain ⟨d', after, rfl⟩ := Option.map_eq_some_iff.1 step
  obtain ⟨unchanged, nothing⟩ | ⟨kept, nothing⟩ | ⟨p, new, produced⟩ :=
    Attempt.analysis_cases isFile before after
  · rw [nothing, unchanged, same, Option.toList_none, List.append_nil]
    exact h
  · rw [nothing, kept, Option.toList_none, List.append_nil]
    have program : l.analysis.program = _ := h.program
    have tree : l.analysis.syntaxTree = _ := h.tree
    rw [← previous] at program tree
    exact ⟨program, tree⟩
  · rw [produced, new, Option.toList_some]
    constructor
    · simp [Job.analysisOf]
    · rw [Job.syntaxTree_analysisOf, origin?_append_singleton, previous]
      change (if p.covers a.document then _ else _) = _
      split
      · rfl
      · exact h.tree

/-- Which program and which tree an analysis has, after any number of compilations. -/
theorem paired_of_run (isFile : file.isFile = true)
    (run : Run (step? c file) (ContinuedBy file) {} attempts l) : Paired file l :=
  run.invariant (fun _ _ _ h continued step => h.step isFile continued step) (paired_empty file)

/-! ### What references stand for -/

/-- Every reference of the tree stands for what it stood for in the program that the tree came from. -/
def Faithful (file : Uri) (l : Lineage) : Prop :=
  ∀ r ∈ l.analysis.syntaxTree.references, ∃ p, l.origin? file = some p ∧
    Symbol.resolve? l.analysis.program r = Symbol.resolve? p r

/-- Where references stand for what they did in the program of the tree, the links of a position lead
where that program says. -/
theorem Faithful.referenceLink?_eq {q : Program} (h : l.Faithful file)
    (origin : l.origin? file = some q) {s : Snapshot} (analysis : s.analysis = l.analysis)
    (p : Position) :
    referenceLink? s p =
      referenceLink? { s with analysis := { s.analysis with program := q } } p := by
  rw [referenceLink?, referenceLink?]
  change (referenceAt? s.analysis.syntaxTree p).bind _ = (referenceAt? s.analysis.syntaxTree p).bind _
  refine Option.bind_congr fun found hfound => ?_
  obtain ⟨node, r⟩ := found
  rw [analysis] at hfound
  obtain ⟨q', hq', same⟩ := h r (SourceFile.mem_references_of_referenceAt? hfound)
  obtain rfl : q = q' := Option.some.inj (origin.symm.trans hq')
  change (Symbol.resolve? s.analysis.program r).bind _ = (Symbol.resolve? q r).bind _
  rw [analysis, same]

/-! ### When they do -/

/-- **When references are looked up in the tables that they point into.** A tree is kept while later
compilations produce programs without one. Its references stand for what they stood for exactly if the
last program has a tree of its own, or says of each of them what the program of the tree said. -/
theorem faithful_iff (isFile : file.isFile = true)
    (run : Run (step? c file) (ContinuedBy file) {} attempts l) :
    l.Faithful file ↔ ∀ p last, l.origin? file = some p → l.programs.getLast? = some last →
      last.covers file = true ∨
        ∀ r ∈ (p.treeOf file).references, Symbol.resolve? last r = Symbol.resolve? p r := by
  obtain ⟨program, tree⟩ := paired_of_run isFile run
  rw [Faithful, program, tree]
  constructor
  · intro faithful p last origin hlast
    refine Or.inr fun r hr => ?_
    rw [origin, hlast] at faithful
    obtain ⟨p', hp', same⟩ := faithful r hr
    rw [← Option.some.inj hp'] at same
    exact same
  · intro agree r hr
    cases origin : l.origin? file with
    | none =>
      rw [origin] at hr
      cases hr
    | some p =>
      rw [origin] at hr
      -- the program of the tree is one of those that were produced, so there is a last one
      have produced : l.programs ≠ [] := by
        rintro empty
        simp [origin?, empty] at origin
      obtain ⟨earlier, last, split⟩ := (List.eq_nil_or_concat l.programs).resolve_left produced
      rw [List.concat_eq_append] at split
      have hlast : l.programs.getLast? = some last := by simp [split]
      refine ⟨p, rfl, ?_⟩
      rw [hlast]
      obtain covers | same := agree p last origin hlast
      · have own : l.origin? file = some last := by simp [origin?, split, covers]
        rw [Option.some.inj (own.symm.trans origin)]
        rfl
      · exact same r hr

end Lineage

namespace Sample

/-- A word of the source. -/
def word (text : String) : Token := { (default : Token) with content := text }

/-- A function without parameters that a file declares. -/
def declared (file : Uri) (name : String) : CompiledFunction :=
  { definition :=
      { kind := .function, file := some file, attributes := [], modifiers := []
        result := .named (word "void") default, name := word name, template := none
        parameters := [], body := none, context := none, range := default }
    result := .builtin .void
    parameters := []
    sites := [] }

/-- The main file names the first function of the tables. -/
def naming : Program :=
  { functions := [declared mainFile "first"]
    files := [⟨mainFile, [],
      { statements := [.expr (.name ⟨default, none⟩ (word "first") (some (.function 0 none)))] }⟩] }

/-- The main file has nothing in it, and the first function of the tables is another one. -/
def vacant : Program :=
  { functions := [declared importedFile "second"], files := [⟨mainFile, [], {}⟩] }

/-- A compilation of the main file that produces the tree. -/
def planting : Attempt Script :=
  (Attempt.atOnce? ⟨[]⟩ .null mainFile opened {} [({}, .ok naming)]).get rfl

/-- What it leaves. -/
def planted : Lineage :=
  { analysis := planting.job.analysisOf planting.project naming, programs := [naming] }

/-- The next compilation, after a change, with any result. -/
def replanting (result : Except CompilationFailure Program) : Attempt Script :=
  { planting with
    job := { planting.job with version := 2, text := some "", previous := planted.analysis }
    state := [({}, result)]
    store := (planting.after player).1.update mainFile (·.opened "" 2) }

/-- What is left if it is given up. -/
def spared : Lineage :=
  { planted with analysis := (replanting (.ok {})).job.keepPrevious planting.project }

/-- What is left if it produces the program without a tree. -/
def supplanted : Lineage :=
  { analysis := (replanting (.ok {})).job.analysisOf planting.project vacant
    programs := [naming, vacant] }

theorem run_planting : Run (Lineage.step? player mainFile) (Lineage.ContinuedBy mainFile) {}
    [planting] planted := Run.single ⟨rfl, rfl, rfl⟩ rfl

theorem run_spared : Run (Lineage.step? player mainFile) (Lineage.ContinuedBy mainFile) {}
    [planting, replanting (.error (.aborted ⟨"Unexpected token", default, none⟩))] spared :=
  run_planting.snoc ⟨rfl, rfl, rfl⟩ rfl

theorem run_supplanted : Run (Lineage.step? player mainFile) (Lineage.ContinuedBy mainFile) {}
    [planting, replanting (.ok vacant)] supplanted := run_planting.snoc ⟨rfl, rfl, rfl⟩ rfl

end Sample

open Sample in
/-- The case of a compilation that is given up: the tree and the tables stay together. -/
theorem faithful_after_abort :
    mainFile.isFile = true ∧
      Run (Lineage.step? player mainFile) (Lineage.ContinuedBy mainFile) {}
        [planting, replanting (.error (.aborted ⟨"Unexpected token", default, none⟩))] spared ∧
      spared.Faithful mainFile := by
  refine ⟨rfl, run_spared, (Lineage.faithful_iff rfl run_spared).2 fun p last origin hlast => ?_⟩
  obtain rfl : naming = last := Option.some.inj hlast
  exact Or.inl rfl

open Sample in
/-- A tree that outlives its program may name another function than it did. -/
theorem kept_tree_names_other_function :
    mainFile.isFile = true ∧
      Run (Lineage.step? player mainFile) (Lineage.ContinuedBy mainFile) {}
        [planting, replanting (.ok vacant)] supplanted ∧
      supplanted.origin? mainFile = some naming ∧
      (∃ r ∈ supplanted.analysis.syntaxTree.references,
        (Symbol.resolve? naming r).map (·.declaration.2.content) = some "first" ∧
        (Symbol.resolve? supplanted.analysis.program r).map (·.declaration.2.content) =
          some "second") ∧
      ¬ supplanted.Faithful mainFile := by
  refine ⟨rfl, run_supplanted, rfl, ⟨.function 0 none, List.mem_singleton.2 rfl, rfl, rfl⟩, ?_⟩
  intro faithful
  obtain ⟨p, origin, same⟩ := faithful (.function 0 none) (List.mem_singleton.2 rfl)
  obtain rfl : naming = p := Option.some.inj origin
  have names := congrArg (Option.map (·.declaration.2.content)) same
  have different : (some "second" : Option String) = some "first" := names
  exact absurd different (by decide)

end LanguageServer
