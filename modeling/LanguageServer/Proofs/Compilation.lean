import LanguageServer.Compilation
import LanguageServer.Proofs.Store
import LanguageServer.Proofs.Version

/-!
# What a compilation stores

* `Job.run_version`: an outcome has the version of the text that the compilation read;
* `Store.accept?_cases`: what becomes of an outcome;
* `Store.find?_afterCall`: the document that is found afterwards, with an analysis no older than
  before.
-/

namespace LanguageServer

variable {s t : Store} {uri u : Uri} {d : Document} {a : Analysis}

/-! ### Versions of outcomes -/

/-- An outcome has the version of the text that the compilation read. -/
theorem Job.run_version {σ : Type} (j : Job) (c : Compiler σ) (settings : CompilerSettings)
    (project : Project) (cache : ParseCache) (state : σ) {o : Outcome}
    (h : (j.run c settings project cache state).2.2 = .ok o) :
    o.analysis.version = some j.version := by
  unfold run at h
  split at h
  · simp only [runFile] at h
    split at h <;> cases h <;> rfl
  · split at h
    · cases h
      rfl
    · simp only [runText] at h
      split at h
      · cases h
      · cases hr : (c.parse _ j.document _ _).result <;> rw [hr] at h <;> cases h
        rfl

theorem Store.job?_eq_some {j : Job} (h : s.job? uri = some j) :
    ∃ d, s.find? uri = some d ∧ j.version = d.version.getD 0 := by
  obtain ⟨d, hd, rfl⟩ := Option.map_eq_some_iff.1 h
  exact ⟨d, hd, rfl⟩

theorem Store.job?_eq_none (h : s.job? uri = none) : s.find? uri = none :=
  Option.map_eq_none_iff.1 h

/-! ### Storing -/

namespace Store

/-- What becomes of an outcome: its document is closed, or has a newer analysis, or gets this one. -/
theorem accept?_cases (s : Store) (uri : Uri) (a : Analysis) :
    (s.find? uri = none ∧ s.accept? uri a = none) ∨
    (∃ d, s.find? uri = some d ∧ versionLt a.version d.analysis.version = true ∧
      s.accept? uri a = none) ∨
    (∃ d, s.find? uri = some d ∧ versionLt a.version d.analysis.version = false ∧
      s.accept? uri a = some (s.update uri fun _ => { d with analysis := a })) := by
  unfold accept?
  cases hd : s.find? uri with
  | none => exact Or.inl ⟨rfl, rfl⟩
  | some d =>
    refine Or.inr ?_
    cases hv : versionLt a.version d.analysis.version with
    | true => exact Or.inl ⟨d, rfl, hv, by simp [Document.storeAnalysis?, hv]⟩
    | false => exact Or.inr ⟨d, rfl, hv, by simp [Document.storeAnalysis?, hv]⟩

/-- The store after a call is as it was, or the document has the new analysis, which is no older than
the one before. -/
theorem afterCall_cases (s : Store) (uri : Uri) (result : Except Crash Outcome) :
    (afterCall s uri result).1 = s ∨
    ∃ o d, result = .ok o ∧ s.find? uri = some d ∧
      versionLt o.analysis.version d.analysis.version = false ∧
      (afterCall s uri result).1 = s.update uri fun _ => { d with analysis := o.analysis } := by
  cases result with
  | error crash => exact Or.inl rfl
  | ok o =>
    obtain ⟨-, he⟩ | ⟨d, -, -, he⟩ | ⟨d, hd, hv, he⟩ := accept?_cases s uri o.analysis
    · exact Or.inl (by simp [afterCall, he])
    · exact Or.inl (by simp [afterCall, he])
    · exact Or.inr ⟨o, d, rfl, hd, hv, by simp [afterCall, he]⟩

/-- A document keeps its name, its text and its version when an outcome is stored. -/
theorem find?_afterCall (hd : s.find? uri = some d) (u : Uri) (result : Except Crash Outcome) :
    ∃ a, (afterCall s u result).1.find? uri = some { d with analysis := a } ∧
      versionLt a.version d.analysis.version = false := by
  obtain he | ⟨o, d', -, hd', hv, he⟩ := afterCall_cases s u result <;> rw [he]
  · exact ⟨d.analysis, hd, versionLt_self _⟩
  · have hname : d'.uri = u := uri_of_find? hd'
    have name : ∀ x : Document, x.uri = u →
        ({ d' with analysis := o.analysis } : Document).uri = u := fun _ _ => hname
    by_cases hu : u = uri
    · subst hu
      obtain rfl : d = d' := Option.some.inj (hd.symm.trans hd')
      exact ⟨o.analysis, by rw [find?_update_self name, hd]; rfl, hv⟩
    · exact ⟨d.analysis, by rw [find?_update_of_ne name hu, hd], versionLt_self _⟩

/-- After an outcome of version `v` for the document itself, its analysis has reached that version. -/
theorem find?_afterCall_self (hd : s.find? uri = some d) {o : Outcome} {v : Int}
    (hv : o.analysis.version = some v) :
    ∃ a, (afterCall s uri (.ok o)).1.find? uri = some { d with analysis := a } ∧
      versionLt a.version d.analysis.version = false ∧ HasReached a.version v := by
  obtain ⟨hn, -⟩ | ⟨d', hd', hlt, he⟩ | ⟨d', hd', hlt, he⟩ := accept?_cases s uri o.analysis
  · rw [hd] at hn
    cases hn
  · obtain rfl : d = d' := Option.some.inj (hd.symm.trans hd')
    refine ⟨d.analysis, by simp [afterCall, he, hd], versionLt_self _, ?_⟩
    rw [hasReached_iff, ← hv]
    exact versionLt_asymm hlt
  · obtain rfl : d = d' := Option.some.inj (hd.symm.trans hd')
    have hname : d.uri = uri := uri_of_find? hd
    have name : ∀ x : Document, x.uri = uri →
        ({ d with analysis := o.analysis } : Document).uri = uri := fun _ _ => hname
    refine ⟨o.analysis, ?_, hlt, ⟨v, hv, Int.le_refl v⟩⟩
    simp only [afterCall, he]
    rw [find?_update_self name, hd]
    rfl

theorem Distinct.afterCall (hs : s.Distinct) (u : Uri) (result : Except Crash Outcome) :
    (afterCall s u result).1.Distinct := by
  obtain he | ⟨o, d', -, hd', -, he⟩ := afterCall_cases s u result <;> rw [he]
  · exact hs
  · have hname : d'.uri = u := uri_of_find? hd'
    rw [Distinct, uris_update (f := fun _ => { d' with analysis := o.analysis }) fun _ _ => hname]
    exact hs

end Store

end LanguageServer
