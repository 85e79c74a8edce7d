import LanguageServer.Attempt
import LanguageServer.Proofs.Progress

/-!
# What comes of an attempt

* `compileDocument_eq`: a compilation at one moment is an attempt;
* `Session.returned_of_yield?`, `Session.after_of_accept?`: so is what a worker of a session does;
* `Attempt.result_of_file`, `result_of_text`: a compilation by the calls into the compiler;
* `Attempt.outcome_cases`: the outcome of a compilation of a file;
* `Attempt.after_cases`: what the outcome does to its document, and what is sent.
-/

namespace LanguageServer

variable {σ : Type} {c : Compiler σ} {a : Attempt σ}

/-! ### Compilations are attempts -/

/-- A compilation at one moment is an attempt with nothing in between. -/
theorem compileDocument_eq {fs : Files} {clientSettings : Json} {uri : Uri} {store : Store}
    {cache : ParseCache} {state : σ}
    (h : Attempt.atOnce? fs clientSettings uri store cache state = some a) :
    ((compileDocument c fs clientSettings uri store cache state).store,
      (compileDocument c fs clientSettings uri store cache state).messages) = a.after c := by
  obtain ⟨job, hjob, rfl⟩ := Option.map_eq_some_iff.1 h
  obtain ⟨d, -, rfl⟩ := Option.map_eq_some_iff.1 hjob
  simp only [compileDocument, hjob]
  rfl

/-- The result that a call of a worker yields is that of an attempt. The store that it comes to is not
known yet. -/
theorem Session.returned_of_yield? {h : Host σ} {s t : Session σ} {w : Nat}
    (hs : s.yield? h w = some t) :
    ∃ k job project, s.workers[w]? = some k ∧ k.stage = some (.calling job project) ∧
      ∀ store, k.actor.stopped = false →
        t.workers[w]? = some { k with stage := some (.returned job.version
          (Attempt.result h.compiler ⟨job, compilerSettings h.files s.store project, project, s.cache,
            s.compiler, store⟩)) } := by
  cases taken_of_yield? hs with
  | @yield _ k job project _ _ result worker stage run =>
    refine ⟨k, job, project, worker, stage, fun store live => ?_⟩
    simp only [live, Attempt.result, run, Bool.false_eq_true, if_false]
    exact workers_updateWorker_self (s := { s with compiler := _, cache := _ }) worker

/-- What a worker stores and is about to send is what comes of the attempt. -/
theorem Session.after_of_accept? {h : Host σ} {s t : Session σ} {w : Nat}
    (hs : s.accept? w = some t) :
    ∃ k version result, s.workers[w]? = some k ∧ k.stage = some (.returned version result) ∧
      ∀ a : Attempt σ, a.document = k.document → a.store = s.store → a.result h.compiler = result →
        t.store = (a.after h.compiler).1 ∧
          t.workers[w]? =
            some { k with stage := some (.sending version (a.messages h.compiler)) } := by
  cases taken_of_accept? (h := h) hs with
  | @accept _ k version result worker stage =>
    refine ⟨k, version, result, worker, stage, ?_⟩
    rintro a document store rfl
    rw [Attempt.messages, Attempt.after, document, store]
    exact ⟨rfl, workers_updateWorker_self (s := { s with store := _ }) worker⟩

/-! ### Outcomes -/

namespace Attempt

/-- A file is compiled. -/
theorem result_of_file (isFile : a.document.isFile = true) :
    a.result c = match (a.call c).result with
      | .ok program => .ok (a.job.compiledOutcome a.project (a.call c).report program)
      | .error (.aborted e) => .ok (a.job.abortedOutcome a.project (a.call c).report e)
      | .error (.crashed crash) => .error crash := by
  have isFile' : a.job.document.isFile = true := isFile
  rw [result, Job.run, if_pos isFile']
  rfl

/-- A text becomes tokens, and these a tree. -/
theorem result_of_text {text : String} (isText : a.document.isFile = false)
    (read : a.job.text = some text) :
    a.result c = match (a.tokenized c text).result with
      | .ok tokens => (a.parsed c text tokens).result.map
          (a.job.parsedOutcome a.project (a.parsed c text tokens).report tokens)
      | .error crash => .error crash := by
  have isText' : ¬ a.job.document.isFile = true := Bool.eq_false_iff.1 isText
  rw [result, Job.run, if_neg isText', read]
  change (a.job.runText c a.settings a.project text a.state).2 = _
  simp only [Job.runText, tokenized, document]
  split
  · next made => rw [made]
  · next made =>
    rw [made]
    rfl

/-- Without a text there is no call. -/
theorem result_of_unread (isText : a.document.isFile = false) (unread : a.job.text = none) :
    a.result c = .ok ⟨a.job.keepPrevious a.project, {}, []⟩ := by
  have isText' : ¬ a.job.document.isFile = true := Bool.eq_false_iff.1 isText
  rw [result, Job.run, if_neg isText', unread]

/-- The outcome of a compilation of a file: of a program, or of an error that ended it. -/
theorem outcome_cases (isFile : a.document.isFile = true) {o : Outcome} (h : a.result c = .ok o) :
    (∃ p, (a.call c).result = .ok p ∧
      o = a.job.compiledOutcome a.project (a.call c).report p) ∨
    ∃ e, (a.call c).result = .error (.aborted e) ∧
      o = a.job.abortedOutcome a.project (a.call c).report e := by
  rw [result_of_file isFile] at h
  split at h
  · next p called => exact Or.inl ⟨p, called, (Except.ok.inj h).symm⟩
  · next e called => exact Or.inr ⟨e, called, (Except.ok.inj h).symm⟩
  · cases h

end Attempt

/-- What an attempt leaves: the store as it was, or an outcome that is stored in the document, and then
published. -/
theorem Attempt.after_cases (c : Compiler σ) (a : Attempt σ) :
    (a.isStored c = false ∧ (a.after c).1 = a.store) ∨
    ∃ o d, a.result c = .ok o ∧ a.isStored c = true ∧ a.store.find? a.document = some d ∧
      (a.after c).1.find? a.document = some { d with analysis := o.analysis } ∧
      a.messages c = o.announcements (a.after c).1 := by
  cases hr : a.result c with
  | error crash => exact Or.inl (by simp [isStored, after, afterCall, hr, Except.toOption])
  | ok o =>
    obtain ⟨-, refused⟩ | ⟨d, -, -, refused⟩ | ⟨d, found, -, stored⟩ :=
      Store.accept?_cases a.store a.document o.analysis
    · exact Or.inl (by simp [isStored, after, afterCall, hr, Except.toOption, refused])
    · exact Or.inl (by simp [isStored, after, afterCall, hr, Except.toOption, refused])
    · have own : d.uri = a.document := Store.uri_of_find? found
      have name : ∀ x : Document, x.uri = a.document →
          ({ d with analysis := o.analysis } : Document).uri = a.document := fun _ _ => own
      refine Or.inr ⟨o, d, rfl, by simp [isStored, hr, Except.toOption, stored], found, ?_,
        by simp [messages, after, afterCall, hr, stored]⟩
      simp only [after, hr, afterCall, stored]
      rw [Store.find?_update_self name, found]
      rfl

end LanguageServer
