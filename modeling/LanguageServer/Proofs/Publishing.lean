import LanguageServer.Proofs.Attempt
import Mathlib.Data.List.Induction

/-!
# What the editor shows after compilations

Every compilation that is stored publishes the problems of the files that it compiled, and of no others.

* `Attempt.Regular.messages_eq`: what is published;
* `shown_after_compilation`: what is shown in every file after any number of compilations;
* `Attempt.Regular.announces_iff`, `all_announced_iff`: which problems the editor is told of.
-/

namespace LanguageServer

variable {σ : Type} {c : Compiler σ} {a : Attempt σ} {file : Uri}

/-! ### What is published -/

/-- The outcome of a compilation of a file, as the call tells it. -/
theorem Attempt.outcome_of_isFile (isFile : a.document.isFile = true) {o : Outcome}
    (h : a.result c = .ok o) :
    o.report.diagnostics = a.reported c ∧ ∀ file, file ∈ o.files ↔ file ∈ a.compiledFiles c := by
  obtain ⟨p, ok, rfl⟩ | ⟨e, aborted, rfl⟩ := outcome_cases isFile h
  · rw [reported, compiledFiles, ok]
    exact ⟨rfl, fun file => Iff.rfl⟩
  · rw [reported, compiledFiles, aborted]
    refine ⟨rfl, fun file => ?_⟩
    -- the file of the error is listed apart only if it is not the document
    simp only [Job.abortedOutcome, document, List.mem_cons, Option.mem_toList,
      Option.filter_eq_some_iff, bne_iff_ne, ne_eq]
    tauto

/-- A publication puts the problems of its document in the place of those that are shown, if the editor
can be told of the document. -/
theorem shownIn?_publish? (document : Uri) (shown : List Problem) (version : Option Int) :
    (Outgoing.publish? document shown version).bind (·.shownIn? file) =
      if document = file ∧ file.isValid = true then some shown else none := by
  by_cases same : document = file
  · subst same
    cases hd : document.isValid <;> simp [Outgoing.publish?, hd, Outgoing.shownIn?]
  · cases hd : document.isValid <;> simp [Outgoing.publish?, hd, Outgoing.shownIn?, same]

/-- An outcome publishes a file as often as it lists it, each time with what was reported there. -/
theorem filterMap_announcements (file : Uri) (o : Outcome) (s : Store) :
    (o.announcements s).filterMap (·.shownIn? file) =
      if file.isValid = true then
        List.replicate (o.files.count file) (problemsIn file o.report.diagnostics)
      else [] := by
  rw [Outcome.announcements, List.filterMap_filterMap]
  simp only [shownIn?_publish?]
  cases valid : file.isValid with
  | false => simp
  | true =>
    simp only [and_true, if_true]
    induction o.files with
    | nil => rfl
    | cons document files ih =>
      by_cases same : document = file
      · subst same
        simp [ih, List.replicate_succ]
      · simp [ih, same]

namespace Attempt.Regular

/-- A regular compilation publishes the files that it compiled, with what was reported in them. -/
theorem messages_eq (h : a.Regular c) :
    ∃ (o : Outcome) (s : Store), a.messages c = o.announcements s ∧
      o.report.diagnostics = a.reported c ∧ ∀ file, file ∈ o.files ↔ file ∈ a.compiledFiles c := by
  obtain ⟨refused, -⟩ | ⟨o, -, ok, -, -, -, sent⟩ := a.after_cases c
  · rw [h.stored] at refused
    cases refused
  · exact ⟨o, _, sent, outcome_of_isFile h.isFile ok⟩

/-- What is shown in a file after one more compilation: what that reported there, if it compiled the
file, and else what was shown before. -/
theorem shownIn_append (h : a.Regular c) (sent : List Outgoing) (file : Uri) :
    shownIn file (sent ++ a.messages c) =
      if file ∈ a.compiledFiles c then problemsIn file (a.reported c) else shownIn file sent := by
  obtain ⟨o, s, messages, reported, files⟩ := h.messages_eq
  rw [messages, ← reported, shownIn, List.filterMap_append, filterMap_announcements]
  by_cases compiled : file ∈ a.compiledFiles c
  · have count : o.files.count file ≠ 0 :=
      Nat.pos_iff_ne_zero.1 (List.count_pos_iff.2 ((files file).2 compiled))
    simp [compiled, h.valid file compiled, List.getLast?_append, List.getLast?_replicate, count]
  · have count : o.files.count file = 0 :=
      List.count_eq_zero.2 fun listed => compiled ((files file).1 listed)
    simp [compiled, count, shownIn]

end Attempt.Regular

/-! ### Any number of compilations -/

/-- The messages of compilations that follow each other. -/
def messagesOf (c : Compiler σ) (attempts : List (Attempt σ)) : List Outgoing :=
  attempts.flatMap (·.messages c)

theorem messagesOf_append_singleton (attempts : List (Attempt σ)) (a : Attempt σ) :
    messagesOf c (attempts ++ [a]) = messagesOf c attempts ++ a.messages c := by
  simp [messagesOf]

/-- A compilation is the last one of some that compiled a file. -/
def IsLastOf (c : Compiler σ) (file : Uri) (attempts : List (Attempt σ)) (a : Attempt σ) : Prop :=
  ∃ before after, attempts = before ++ a :: after ∧ file ∈ a.compiledFiles c ∧
    ∀ b ∈ after, file ∉ b.compiledFiles c

/-- In a file that was compiled the editor shows what the last compilation of it reported, and nothing
in any other. -/
theorem shownIn_messagesOf {attempts : List (Attempt σ)} (regular : ∀ a ∈ attempts, a.Regular c)
    (file : Uri) :
    (shownIn file (messagesOf c attempts) = [] ∧ ∀ a ∈ attempts, file ∉ a.compiledFiles c) ∨
    ∃ a, IsLastOf c file attempts a ∧
      shownIn file (messagesOf c attempts) = problemsIn file (a.reported c) := by
  induction attempts using List.reverseRecOn with
  | nil => exact Or.inl ⟨rfl, fun _ ha => nomatch ha⟩
  | append_singleton attempts last ih =>
    have hlast : last.Regular c := regular last (by simp)
    rw [messagesOf_append_singleton, hlast.shownIn_append]
    by_cases compiled : file ∈ last.compiledFiles c
    · rw [if_pos compiled]
      exact Or.inr ⟨last, ⟨attempts, [], rfl, compiled, fun _ hb => nomatch hb⟩, rfl⟩
    · rw [if_neg compiled]
      obtain ⟨nothing, never⟩ | ⟨a, ⟨before, after, rfl, ha, later⟩, shown⟩ :=
        ih fun a ha => regular a (List.mem_append_left _ ha)
      · refine Or.inl ⟨nothing, fun a ha => ?_⟩
        rcases List.mem_append.1 ha with ha | ha
        · exact never a ha
        · exact List.mem_singleton.1 ha ▸ compiled
      · refine Or.inr ⟨a, ⟨before, after ++ [last], by simp, ha, fun b hb => ?_⟩, shown⟩
        rcases List.mem_append.1 hb with hb | hb
        · exact later b hb
        · exact List.mem_singleton.1 hb ▸ compiled

/-- **What is shown after a compilation.** In the files that were compiled last, the editor shows what
the last compilation reported there. A file that dropped out keeps what is shown in it: what the last
compilation that compiled it reported there. -/
theorem shown_after_compilation {attempts : List (Attempt σ)} {last : Attempt σ}
    (regular : ∀ a ∈ attempts ++ [last], a.Regular c) (file : Uri) :
    (file ∈ last.compiledFiles c →
      shownIn file (messagesOf c (attempts ++ [last])) = problemsIn file (last.reported c)) ∧
    (file ∉ last.compiledFiles c →
      shownIn file (messagesOf c (attempts ++ [last])) = shownIn file (messagesOf c attempts) ∧
      (shownIn file (messagesOf c attempts) ≠ [] → ∃ a, IsLastOf c file attempts a ∧
        shownIn file (messagesOf c attempts) = problemsIn file (a.reported c))) := by
  have hlast : last.Regular c := regular last (by simp)
  rw [messagesOf_append_singleton, hlast.shownIn_append]
  refine ⟨fun compiled => if_pos compiled, fun dropped => ⟨if_neg dropped, fun shown => ?_⟩⟩
  obtain ⟨nothing, -⟩ | found := shownIn_messagesOf (fun a ha => regular a (List.mem_append_left _ ha)) file
  · exact absurd nothing shown
  · exact found

/-! ### A file that drops out -/

namespace Sample

/-- A problem in the imported file. -/
def unknownType : Diagnostic :=
  ⟨.error, "Unknown type", ⟨⟨0, 0⟩, ⟨0, 3⟩⟩, some importedFile, []⟩

/-- A compilation that finds the problem. -/
def importing : Attempt Script :=
  (Attempt.atOnce? ⟨[]⟩ .null mainFile opened {}
    [({ diagnostics := [unknownType] }, .ok (programOf [mainFile, importedFile])),
      ({}, .ok (programOf [mainFile]))]).get rfl

/-- The next one, after the import was taken out. -/
def importless : Attempt Script :=
  (Attempt.atOnce? ⟨[]⟩ .null mainFile
    ((importing.after player).1.update mainFile (·.opened "" 2)) (importing.call player).cache
    (importing.call player).state).get rfl

theorem regular_importing : importing.Regular player := ⟨rfl, rfl, by decide +kernel⟩

theorem regular_importless : importless.Regular player := ⟨rfl, rfl, by decide +kernel⟩

theorem regular_of_mem : ∀ a ∈ [importing] ++ [importless], a.Regular player := by
  simp [regular_importing, regular_importless]

end Sample

open Sample in
/-- The case of a problem in a file that is imported no longer: it is still shown. -/
theorem shown_after_import_taken_out :
    (∀ a ∈ [importing] ++ [importless], a.Regular player) ∧
      shownIn mainFile (messagesOf player ([importing] ++ [importless])) =
        problemsIn mainFile (importless.reported player) ∧
      shownIn importedFile (messagesOf player ([importing] ++ [importless])) =
        shownIn importedFile (messagesOf player [importing]) :=
  ⟨regular_of_mem, (shown_after_compilation regular_of_mem mainFile).1 (by decide +kernel),
    ((shown_after_compilation regular_of_mem importedFile).2 (by decide +kernel)).1⟩

open Sample in
/-- A file that drops out of the compilation may keep its problems. -/
theorem problems_of_dropped_file_stay :
    (∀ a ∈ [importing] ++ [importless], a.Regular player ∧ a.document = mainFile) ∧
      importedFile ∉ importless.compiledFiles player ∧
      shownIn importedFile (messagesOf player ([importing] ++ [importless])) =
        [⟨⟨⟨0, 0⟩, ⟨0, 3⟩⟩, 1, importedFile.text, "Unknown type"⟩] := by
  refine ⟨fun a ha => ⟨regular_of_mem a ha, ?_⟩, by decide +kernel, by decide +kernel⟩
  rcases List.mem_append.1 ha with ha | ha
  · exact List.mem_singleton.1 ha ▸ rfl
  · exact List.mem_singleton.1 ha ▸ rfl

/-! ### Which problems the editor is told of -/

namespace Diagnostic

/-- A problem is found in the file that it names. -/
theorem mem_allInFile {ds : List Diagnostic} {d : Diagnostic} (hd : d ∈ ds)
    (names : d.file = some file) : d ∈ allInFile file ds := by
  refine List.mem_flatMap.2 ⟨d, hd, ?_⟩
  obtain ⟨level, message, range, own, explanations⟩ := d
  obtain rfl : own = some file := names
  simp [inFile]

theorem allInFile_append (ds es : List Diagnostic) :
    allInFile file (ds ++ es) = allInFile file ds ++ allInFile file es := List.flatMap_append

/-- A problem that names no file and has no explanations is found in none. -/
theorem allInFile_toDiagnostic {e : CompilerError} (unplaced : e.file = none) :
    allInFile file [e.toDiagnostic] = [] := by
  simp [allInFile, CompilerError.toDiagnostic, inFile, explanationsInFile, unplaced]

/-- The text that is shown for a problem begins with its message. -/
theorem message_prefix (d : Diagnostic) : d.message.toList <+: d.fullMessage.toList := by
  rw [fullMessage, String.toList_append]
  exact List.prefix_append _ _

end Diagnostic

namespace Attempt.Regular

/-- What the editor is told of in a file: the file has to be among those that were compiled, and the
problem among those that were found there. -/
theorem announces_iff (h : a.Regular c) (text : String) :
    Announces (a.messages c) file text ↔ file ∈ a.compiledFiles c ∧
      ∃ d ∈ Diagnostic.allInFile file (a.reported c), text.toList <+: d.fullMessage.toList := by
  obtain ⟨o, s, messages, reported, files⟩ := h.messages_eq
  rw [messages, ← reported, ← files]
  constructor
  · rintro ⟨shown, version, sent, p, hp, begins⟩
    obtain ⟨document, listed, published⟩ := List.mem_filterMap.1 sent
    simp only [Outgoing.publish?, Option.ite_none_right_eq_some, Option.some.injEq,
      Outgoing.problems.injEq] at published
    obtain ⟨-, rfl, rfl, -⟩ := published
    obtain ⟨d, hd, rfl⟩ := List.mem_map.1 hp
    exact ⟨listed, d, hd, begins⟩
  · rintro ⟨listed, d, hd, begins⟩
    have valid : file.isValid = true := h.valid file ((files file).1 listed)
    refine ⟨_, _, List.mem_filterMap.2 ⟨file, listed, if_pos valid⟩, d.toProblem file,
      List.mem_map_of_mem hd, begins⟩

end Attempt.Regular

/-- What the editor is to be told of: the problems that name a file, and the error that ended the
compilation. -/
theorem Attempt.mem_due {p : Uri × String} :
    p ∈ a.due c ↔
      (∃ d ∈ (a.call c).report.diagnostics, d.file = some p.1 ∧ d.message = p.2) ∨
      ∃ e, (a.call c).result = .error (.aborted e) ∧ p = (e.file.getD a.document, e.message) := by
  rw [due, List.mem_append, List.mem_filterMap]
  refine or_congr (exists_congr fun d => and_congr_right fun _ => ?_) ?_
  · cases d.file <;> simp [Prod.ext_iff]
  · cases (a.call c).result with
    | ok program => simp
    | error failure => cases failure <;> simp

/-- The problems that were found, when an error ended the compilation. -/
theorem Attempt.reported_of_aborted {e : CompilerError}
    (aborted : (a.call c).result = .error (.aborted e)) :
    a.reported c = (a.call c).report.diagnostics ++ [e.toDiagnostic] := by
  simp [reported, aborted]

theorem Attempt.compiledFiles_of_aborted {e : CompilerError}
    (aborted : (a.call c).result = .error (.aborted e)) :
    a.compiledFiles c = a.document :: e.file.toList := by
  simp [compiledFiles, aborted]

/-- What the compiler reported is among the problems that were found. -/
theorem Attempt.exists_reported (c : Compiler σ) (a : Attempt σ) :
    ∃ more, a.reported c = (a.call c).report.diagnostics ++ more := by
  unfold reported
  split
  · exact ⟨_, rfl⟩
  · exact ⟨[], (List.append_nil _).symm⟩
  · exact ⟨[], (List.append_nil _).symm⟩

/-- **Which problems reach the editor.** A compilation of a file that is stored tells the editor of all
problems that it is to be told of exactly if every problem with a file names one that was compiled, and
an error that ended the compilation names its file. An error without one is lost, unless another problem
of the document happens to begin with the same text. -/
theorem all_announced_iff (h : a.Regular c) :
    (∀ p ∈ a.due c, Announces (a.messages c) p.1 p.2) ↔
      (∀ d ∈ (a.call c).report.diagnostics, ∀ file, d.file = some file → file ∈ a.compiledFiles c) ∧
      ∀ e, (a.call c).result = .error (.aborted e) → e.file = none →
        ∃ d ∈ Diagnostic.allInFile a.document (a.call c).report.diagnostics,
          e.message.toList <+: d.fullMessage.toList := by
  constructor
  · intro told
    refine ⟨fun d hd file names => ?_, fun e aborted unplaced => ?_⟩
    · exact (h.announces_iff d.message).1
        (told (file, d.message) (Attempt.mem_due.2 (Or.inl ⟨d, hd, names, rfl⟩))) |>.1
    · have due : (a.document, e.message) ∈ a.due c :=
        Attempt.mem_due.2 (Or.inr ⟨e, aborted, by simp [unplaced]⟩)
      obtain ⟨-, d, hd, begins⟩ := (h.announces_iff e.message).1 (told _ due)
      rw [Attempt.reported_of_aborted aborted, Diagnostic.allInFile_append,
        Diagnostic.allInFile_toDiagnostic unplaced, List.append_nil] at hd
      exact ⟨d, hd, begins⟩
  · rintro ⟨compiled, lucky⟩ ⟨file, text⟩ due
    obtain ⟨more, reported⟩ := a.exists_reported c
    rw [h.announces_iff]
    obtain ⟨d, hd, names, rfl⟩ | ⟨e, aborted, he⟩ := Attempt.mem_due.1 due
    · refine ⟨compiled d hd file names, d, ?_, d.message_prefix⟩
      rw [reported]
      exact Diagnostic.mem_allInFile (List.mem_append_left _ hd) names
    · obtain ⟨rfl, rfl⟩ := Prod.mk.inj he
      cases placed : e.file with
      | none =>
        obtain ⟨d, hd, begins⟩ := lucky e aborted placed
        refine ⟨by simp [Attempt.compiledFiles_of_aborted aborted], d, ?_, begins⟩
        rw [reported, Diagnostic.allInFile_append]
        exact List.mem_append_left _ hd
      | some file =>
        refine ⟨by simp [Attempt.compiledFiles_of_aborted aborted, placed], e.toDiagnostic, ?_,
          e.toDiagnostic.message_prefix⟩
        rw [Attempt.reported_of_aborted aborted]
        exact Diagnostic.mem_allInFile (List.mem_append_right _ List.mem_cons_self) placed

/-! ### An error without a place -/

namespace Sample

/-- A compilation of the main file that is given up. -/
def givingUp (e : CompilerError) : Attempt Script :=
  (Attempt.atOnce? ⟨[]⟩ .null mainFile opened {} [({}, .error (.aborted e))]).get rfl

/-- An error in the imported file. -/
def misplacedBrace : CompilerError := ⟨"Unexpected token", ⟨⟨2, 0⟩, ⟨2, 1⟩⟩, some importedFile⟩

/-- An error that names no file. -/
def overflow : CompilerError := ⟨"Stack overflow", ⟨⟨0, 0⟩, ⟨0, 0⟩⟩, none⟩

end Sample

open Sample in
/-- The case of an error in an imported file. -/
theorem imported_error_announced :
    (givingUp misplacedBrace).Regular player ∧
      ∀ p ∈ (givingUp misplacedBrace).due player,
        Announces ((givingUp misplacedBrace).messages player) p.1 p.2 := by
  have regular : (givingUp misplacedBrace).Regular player := ⟨rfl, rfl, by decide +kernel⟩
  refine ⟨regular, (all_announced_iff regular).2 ⟨nofun, fun e aborted unplaced => ?_⟩⟩
  cases aborted
  cases unplaced

open Sample in
/-- An error that ends a compilation and names no file is shown nowhere. -/
theorem unplaced_error_lost :
    (givingUp overflow).Regular player ∧ (givingUp overflow).document = mainFile ∧
      (mainFile, "Stack overflow") ∈ (givingUp overflow).due player ∧
      ¬ Announces ((givingUp overflow).messages player) mainFile "Stack overflow" := by
  have regular : (givingUp overflow).Regular player := ⟨rfl, rfl, by decide +kernel⟩
  refine ⟨regular, rfl, List.mem_singleton.2 rfl, fun told => ?_⟩
  obtain ⟨-, d, hd, -⟩ := (regular.announces_iff _).1 told
  cases hd

end LanguageServer
