import LanguageServer.Proofs.Attempt

/-!
# What a compilation leaves alone

A compilation with nothing in between changes the analysis of its own document, or nothing.

* `Store.withAnalysis`: the one change that a compilation makes;
* `Store.KeptBut`: stores that differ in the analyses of one name and in nothing else;
* `Attempt.result_eq_error_iff`: a compilation has no outcome exactly if the compiler crashes;
* `Attempt.after_crashed`, `after_stale`, `after_stored`: what comes of each result;
* `Attempt.kept_of_aborted`: what is known of a document stays when its compilation is given up;
* `compileDocument_isolated`: all of it.
-/

namespace LanguageServer

namespace Store

variable {s : Store} {uri : Uri} {d : Document} {a : Analysis}

/-! ### The change -/

/-- The store with another analysis in the document of a name. -/
def withAnalysis (s : Store) (uri : Uri) (a : Analysis) : Store :=
  s.update uri fun d => { d with analysis := a }

theorem find?_withAnalysis (found : s.find? uri = some d) (a : Analysis) :
    (s.withAnalysis uri a).find? uri = some { d with analysis := a } :=
  find?_update_of_some (fun _ => rfl) found

/-- A change of the first item that satisfies a condition depends on that item only. -/
theorem updateFirst_eq_of_find? {α : Type} {p : α → Bool} {x : α} (f : α → α) {xs : List α}
    (found : xs.find? p = some x) : updateFirst p (fun _ => f x) xs = updateFirst p f xs := by
  induction xs with
  | nil => rfl
  | cons y ys ih =>
    rw [List.find?_cons] at found
    unfold updateFirst
    split at found
    · next hp =>
      obtain rfl := Option.some.inj found
      rw [if_pos hp, if_pos hp]
    · next hp =>
      rw [if_neg (by simp [hp]), if_neg (by simp [hp]), ih found]

theorem update_const_eq_withAnalysis (found : s.find? uri = some d) :
    (s.update uri fun _ => { d with analysis := a }) = s.withAnalysis uri a :=
  congrArg (fun documents => { s with documents })
    (updateFirst_eq_of_find? (fun d => { d with analysis := a }) found)

/-! ### What stays -/

/-- Two stores with the same notebooks and the same documents, but for the analyses of one name. -/
structure KeptBut (uri : Uri) (s t : Store) : Prop where
  notebooks : t.notebooks = s.notebooks
  documents : t.documents.map ({ · with analysis := {} }) = s.documents.map ({ · with analysis := {} })
  others : t.documents.filter (·.uri != uri) = s.documents.filter (·.uri != uri)

theorem KeptBut.refl (uri : Uri) (s : Store) : KeptBut uri s s := ⟨rfl, rfl, rfl⟩

theorem filter_updateFirst {α : Type} {p q : α → Bool} {f : α → α}
    (out : ∀ x, p x = true → q x = false ∧ q (f x) = false) (xs : List α) :
    (updateFirst p f xs).filter q = xs.filter q := by
  induction xs with
  | nil => rfl
  | cons x xs ih =>
    unfold updateFirst
    split
    · next hp => simp [out x hp]
    · rw [List.filter_cons, List.filter_cons, ih]

theorem keptBut_withAnalysis (s : Store) (uri : Uri) (a : Analysis) :
    KeptBut uri s (s.withAnalysis uri a) where
  notebooks := rfl
  documents := map_updateFirst (f := fun d => { d with analysis := a }) (fun _ _ => rfl) s.documents
  others := filter_updateFirst (fun d hd => by simpa using hd) s.documents

end Store

variable {σ : Type} {c : Compiler σ} {a : Attempt σ} {d : Document} {o : Outcome}

/-! ### What comes of each result -/

namespace Attempt

/-- A compilation comes to a crash exactly if the compiler crashes in one of its calls. -/
theorem result_eq_error_iff {crash : Crash} : a.result c = .error crash ↔ a.Crashes c crash := by
  constructor
  · intro crashed
    cases kind : a.document.isFile with
    | true =>
      rw [result_of_file kind] at crashed
      split at crashed
      · cases crashed
      · cases crashed
      · next called =>
        cases crashed
        exact .compiling kind called
    | false =>
      cases read : a.job.text with
      | none =>
        rw [result_of_unread kind read] at crashed
        cases crashed
      | some text =>
        rw [result_of_text kind read] at crashed
        split at crashed
        · next tokens made =>
          cases called : (a.parsed c text tokens).result <;> rw [called] at crashed <;> cases crashed
          exact .parsing kind read made called
        · next made =>
          cases crashed
          exact .tokenizing kind read made
  · rintro (⟨isFile, crashed⟩ | ⟨isText, read, crashed⟩ | ⟨isText, read, made, crashed⟩)
    · rw [result_of_file isFile, crashed]
    · rw [result_of_text isText read, crashed]
    · rw [result_of_text isText read, made]
      dsimp only
      rw [crashed]
      rfl

theorem after_crashed {crash : Crash} (crashed : a.result c = .error crash) :
    a.after c = (a.store, [crash.alert]) := by
  rw [after, crashed, afterCall]

theorem after_stale (found : a.store.find? a.document = some d) (returned : a.result c = .ok o)
    (stale : versionLt o.analysis.version d.analysis.version = true) :
    a.after c = (a.store, []) := by
  obtain ⟨closed, -⟩ | ⟨-, -, -, refused⟩ | ⟨d', found', fresh, -⟩ :=
    Store.accept?_cases a.store a.document o.analysis
  · cases closed.symm.trans found
  · simp only [after, returned, afterCall, refused]
  · obtain rfl := Option.some.inj (found'.symm.trans found)
    cases fresh.symm.trans stale

theorem after_stored (found : a.store.find? a.document = some d) (returned : a.result c = .ok o)
    (fresh : versionLt o.analysis.version d.analysis.version = false) :
    a.after c = (a.store.withAnalysis a.document o.analysis,
      o.announcements (a.store.withAnalysis a.document o.analysis)) := by
  obtain ⟨closed, -⟩ | ⟨d', found', stale, -⟩ | ⟨d', found', -, stored⟩ :=
    Store.accept?_cases a.store a.document o.analysis
  · cases closed.symm.trans found
  · obtain rfl := Option.some.inj (found'.symm.trans found)
    cases stale.symm.trans fresh
  · obtain rfl := Option.some.inj (found'.symm.trans found)
    simp only [after, returned, afterCall, stored, Store.update_const_eq_withAnalysis found]

/-- Whatever comes of an attempt, everything but the analysis of its document is as before. -/
theorem keptBut_after (c : Compiler σ) (a : Attempt σ) :
    Store.KeptBut a.document a.store (a.after c).1 := by
  obtain same | ⟨o, d, -, found, -, stored⟩ :=
    Store.afterCall_cases a.store a.document (a.result c)
  · rw [after, same]
    exact .refl _ _
  · rw [after, stored, Store.update_const_eq_withAnalysis found]
    exact Store.keptBut_withAnalysis _ _ _

/-- When a compilation is given up, the document keeps its tokens, its tree and its program. -/
theorem kept_of_aborted (isFile : a.document.isFile = true)
    (found : a.store.find? a.document = some d) (previous : a.job.previous = d.analysis)
    {e : CompilerError} (aborted : (a.call c).result = .error (.aborted e)) :
    ∃ d', (a.after c).1.find? a.document = some d' ∧
      d'.analysis.tokens = d.analysis.tokens ∧
      d'.analysis.syntaxTree = d.analysis.syntaxTree ∧
      d'.analysis.program = d.analysis.program := by
  have returned : a.result c = .ok (a.job.abortedOutcome a.project (a.call c).report e) := by
    rw [result_of_file isFile, aborted]
  cases hv : versionLt (a.job.abortedOutcome a.project (a.call c).report e).analysis.version
      d.analysis.version with
  | true =>
    rw [after_stale found returned hv]
    exact ⟨d, found, rfl, rfl, rfl⟩
  | false =>
    rw [after_stored found returned hv]
    refine ⟨_, Store.find?_withAnalysis found _, ?_⟩
    rw [← previous]
    exact ⟨rfl, rfl, rfl⟩

end Attempt

/-! ### Compilations at one moment -/

section

variable (c) {fs : Files} {clientSettings : Json} {uri : Uri} {store : Store} {cache : ParseCache}
  {state : σ}

theorem compileDocument_of_closed (closed : store.find? uri = none) :
    compileDocument c fs clientSettings uri store cache state = ⟨store, cache, state, [], none⟩ := by
  have none : store.job? uri = none := by rw [Store.job?, closed, Option.map_none]
  rw [compileDocument, none]

/-- The compilation of an open document starts from its version and its analysis. -/
theorem compileDocument_of_open (found : store.find? uri = some d) :
    ∃ a, Attempt.atOnce? fs clientSettings uri store cache state = some a ∧ a.document = uri ∧
      a.store = store ∧ a.job.version = d.version.getD 0 ∧ a.job.previous = d.analysis ∧
      (compileDocument c fs clientSettings uri store cache state).version = some a.job.version := by
  obtain ⟨job, hjob, version, previous, document⟩ : ∃ job, store.job? uri = some job ∧
      job.version = d.version.getD 0 ∧ job.previous = d.analysis ∧ job.document = uri :=
    ⟨_, congrArg (Option.map _) found, rfl, rfl, rfl⟩
  refine ⟨_, congrArg (Option.map _) hjob, document, rfl, version, previous, ?_⟩
  simp only [compileDocument, hjob]

end

/-- **Compilations are isolated.** A compilation with nothing in between says which version it compiled,
if the document is open, and changes nothing but the analysis of the document. If the compiler crashes, while
it compiles or while it makes tokens or a tree, there is one message and nothing else; an analysis older than
the present one is neither stored nor published; and a compilation that is given up leaves tokens, tree and
program. -/
theorem compileDocument_isolated (c : Compiler σ) (fs : Files) (clientSettings : Json) (uri : Uri)
    (store : Store) (cache : ParseCache) (state : σ) :
    let r := compileDocument c fs clientSettings uri store cache state
    r.version = (store.find? uri).map (·.version.getD 0) ∧
      store.KeptBut uri r.store ∧
      (store.find? uri = none → r.store = store ∧ r.messages = []) ∧
      ∀ d, store.find? uri = some d →
        ∃ a, Attempt.atOnce? fs clientSettings uri store cache state = some a ∧
          (∀ crash, a.result c = .error crash ↔ a.Crashes c crash) ∧
          (∀ crash, a.result c = .error crash → r.store = store ∧ r.messages = [crash.alert]) ∧
          (∀ o, a.result c = .ok o → o.analysis.version = r.version ∧
            if versionLt o.analysis.version d.analysis.version then
              r.store = store ∧ r.messages = []
            else
              r.store = store.withAnalysis uri o.analysis ∧
                r.messages = o.announcements r.store) ∧
          ∀ e, uri.isFile = true → (a.call c).result = .error (.aborted e) →
            ∃ d', r.store.find? uri = some d' ∧
              d'.analysis.tokens = d.analysis.tokens ∧
              d'.analysis.syntaxTree = d.analysis.syntaxTree ∧
              d'.analysis.program = d.analysis.program := by
  intro r
  cases found : store.find? uri with
  | none =>
    have closed : r = ⟨store, cache, state, [], none⟩ := compileDocument_of_closed c found
    rw [closed]
    exact ⟨rfl, .refl _ _, fun _ => ⟨rfl, rfl⟩, nofun⟩
  | some d =>
    obtain ⟨a, atOnce, rfl, rfl, version, previous, compiled⟩ := compileDocument_of_open c found
    have same : (r.store, r.messages) = a.after c := compileDocument_eq atOnce
    have compiled : r.version = some a.job.version := compiled
    clear_value r
    have stored : r.store = (a.after c).1 := congrArg Prod.fst same
    have sent : r.messages = (a.after c).2 := congrArg Prod.snd same
    rw [compiled, stored, sent]
    refine ⟨congrArg some version, a.keptBut_after c, nofun, ?_⟩
    rintro _ ⟨⟩
    refine ⟨a, atOnce, fun _ => Attempt.result_eq_error_iff, fun crash crashed => ?_,
      fun o returned => ⟨a.job.run_version c _ _ _ _ returned, ?_⟩,
      fun e isFile aborted => a.kept_of_aborted isFile found previous aborted⟩
    · rw [Attempt.after_crashed crashed]
      exact ⟨rfl, rfl⟩
    · split
      · next stale =>
        rw [Attempt.after_stale found returned stale]
        exact ⟨rfl, rfl⟩
      · next fresh =>
        rw [Attempt.after_stored found returned (by simpa using fresh)]
        exact ⟨rfl, rfl⟩

/-! ### Three compilations -/

namespace Sample

/-- The main file in its first version, with an analysis of some version. -/
def analysed (version : Int) : Store :=
  opened.withAnalysis mainFile { version := some version, tokens := [default] }

/-- An error that ends a compilation. -/
def tooDeep : CompilerError := ⟨"Stack overflow", default, none⟩

/-- What a compilation of the main file leaves, by what the compiler says. -/
def played (store : Store) (result : Except CompilationFailure Program) : Compiled Script :=
  compileDocument player ⟨[]⟩ .null mainFile store {} [({}, result)]

end Sample

open Sample in
/-- The cases of a crash, of an analysis that is older than the present one, and of a compilation that is
given up. -/
theorem player_isolated :
    ((played (analysed 1) (.error (.crashed ⟨none⟩))).store = analysed 1 ∧
      (played (analysed 1) (.error (.crashed ⟨none⟩))).messages = [Crash.alert ⟨none⟩]) ∧
    ((played (analysed 2) (.ok {})).store = analysed 2 ∧ (played (analysed 2) (.ok {})).messages = []) ∧
    ∃ d, (played (analysed 1) (.error (.aborted tooDeep))).store.find? mainFile = some d ∧
      d.analysis.tokens = [default] := by
  have isolated (store : Store) (result : Except CompilationFailure Program) :=
    compileDocument_isolated player ⟨[]⟩ .null mainFile store {} [({}, result)]
  refine ⟨?_, ?_, ?_⟩
  · obtain ⟨-, -, -, whenOpen⟩ := isolated (analysed 1) (.error (.crashed ⟨none⟩))
    obtain ⟨a, atOnce, calls, crashed, -⟩ := whenOpen _ rfl
    obtain rfl := Option.some.inj atOnce
    exact crashed _ ((calls _).2 (.compiling (by decide) rfl))
  · obtain ⟨-, -, -, whenOpen⟩ := isolated (analysed 2) (.ok {})
    obtain ⟨a, atOnce, -, -, returned, -⟩ := whenOpen _ rfl
    exact (returned _ (by rw [← Option.some.inj atOnce]; rfl)).2
  · obtain ⟨-, -, -, whenOpen⟩ := isolated (analysed 1) (.error (.aborted tooDeep))
    obtain ⟨a, atOnce, -, -, -, aborted⟩ := whenOpen _ rfl
    obtain ⟨d, found, tokens, -⟩ :=
      aborted tooDeep (by decide) (by rw [← Option.some.inj atOnce]; rfl)
    exact ⟨d, found, tokens⟩

end LanguageServer
