import LanguageServer.Proofs.Progress

/-!
# Answers from fresh analyses

* `Session.serving_of_opened`: a document that was opened where there was none is served from then on;
* `Session.answered_from_fresh_analysis`: whoever asks about it is answered from an analysis that is no
  older than the text was when the question arrived.
-/

namespace LanguageServer

open Session

namespace Worker

theorem inStep_new (uri : Uri) (V : Int) : { document := uri : Worker }.InStep V none where
  live := rfl
  desired := fun v hv => by cases hv
  compiled := fun v hv => by cases hv
  rested := fun _ => ⟨rfl, rfl⟩
  stage := fun target hp => by cases hp

end Worker

namespace Session

variable {σ : Type} {h : Host σ} {s t : Session σ} {uri : Uri}

theorem scheduler_of_none (hn : ∀ p ∈ s.schedulers, p.1 ≠ uri) :
    s.scheduler uri =
      ({ s with
          workers := s.workers ++ [{ document := uri }]
          schedulers := s.schedulers ++ [(uri, s.workers.length)] }, s.workers.length) := by
  have unknown : s.schedulers.find? (·.1 == uri) = none := by
    simpa [List.find?_eq_none] using hn
  simp [scheduler, unknown]

/-- The order that follows when a document gets its first worker. -/
theorem requestCompilation_of_none (hn : ∀ p ∈ s.schedulers, p.1 ≠ uri) :
    s.requestCompilation uri =
      { s with
        workers := s.workers ++ [{ document := uri }]
        schedulers := s.schedulers ++ [(uri, s.workers.length)]
        mail := s.mail ++ [(s.workers.length, .compile (s.versionOf uri) none)] } := by
  simp [requestCompilation, scheduler_of_none hn, post, isOpen]

/-- A document that had no worker gets one that serves it. -/
theorem manned_of_requested (hs : Sound s) (hn : ∀ p ∈ s.schedulers, p.1 ≠ uri) :
    (s.requestCompilation uri).Manned uri s.workers.length (s.versionOf uri) none := by
  rw [requestCompilation_of_none hn]
  have unknown : s.schedulers.find? (·.1 == uri) = none := by
    simpa [List.find?_eq_none] using hn
  constructor
  case scheduler => simp [List.find?_append, unknown]
  case worker => exact ⟨_, List.getElem?_concat_length, rfl, Worker.inStep_new uri _⟩
  case mail =>
    intro order ho
    rcases List.mem_append.1 ho with ho | ho
    · have := hs.addressed _ ho
      simp [staff] at this
    · obtain ⟨-, rfl⟩ := Prod.mk.inj (List.mem_singleton.1 ho)
      exact ⟨_, none, rfl, Int.le_refl _⟩
  case inquiries =>
    intro q hq hw
    have := hs.terms q.terms (List.mem_map_of_mem hq)
    simp [Inquiry.terms, hw, staff] at this

/-- A document that was opened where there was none is served from then on. -/
theorem serving_of_opened {d : TextDocument} (hs : Sound s) (closed : s.store.find? d.uri = none)
    (unmanned : ∀ p ∈ s.schedulers, p.1 ≠ d.uri)
    (opened : ((s.openDocument h d).store.find? d.uri).isSome) :
    (s.openDocument h d).Serving d.uri s.workers.length d.version none := by
  have sound : Sound (s.openDocument h d) := hs.heed (.opened d)
  have distinct := distinct_openDocument h s d
  obtain ⟨store, doc, hr, he⟩ | ⟨store, e, hr, he⟩ := openDocument_cases h s d
  · have found := find?_openDocument hr
    let t : Session σ := { s with store := store.update d.uri (·.opened d.text d.version) }
    have ht : s.openDocument h d = t.requestCompilation d.uri := he
    have version : t.versionOf d.uri = d.version := by
      rw [ht, requestCompilation_store] at found
      simp [versionOf, found, Document.opened]
    refine ⟨sound, distinct, ⟨_, found, rfl, ?_⟩, ?_⟩
    · rw [show (doc.opened d.text d.version).analysis = doc.analysis from rfl,
        Store.analysis_register closed hr]
    · have crew := manned_of_requested (s := t) (hs.frame ⟨rfl, rfl, rfl, rfl⟩) unmanned
      rwa [version, ← ht] at crew
  · rw [he, Store.find?_register_error hr] at opened
    cases opened

/-! ### Questions -/

variable {i w : Nat} {q q' : Inquiry} {V : Int} {A : Option Int} {e : Step} {es : List Step}

/-- Whoever waits for the worker of an open document, and does not take the question back, is answered
from an analysis that has reached the version waited for. -/
theorem Serving.answer_fresh (hv : s.Serving uri w V A) (hq : s.inquiries[i]? = some q)
    (worker : q.worker = w) (document : q.question.document = uri) (waits : q.wait ≠ .answered)
    (kept : q.cancelled = false) (hstep : step? h s e = some t)
    (hq' : t.inquiries[i]? = some q') (answered : q'.wait = .answered) :
    ∃ snap, Snapshot.capture? s.store uri = some snap ∧
      HasReached snap.analysis.version q.version ∧
      t.sent = s.sent ++ [.result q.id (q.question.answer h.files snap)] := by
  obtain ⟨d, hd, -, hA⟩ := hv.document
  have served := hv.crew.inquiries q (List.mem_of_getElem? hq) worker
  obtain ⟨q₁, hq₁, -, -, ha, -⟩ := inquiry_step hstep hq
  obtain rfl : q' = q₁ := Option.some.inj (hq'.symm.trans hq₁)
  rcases (ha answered).resolve_left waits with rfl | rfl
  · cases taken_of_step? hstep with
    | @answerNothing _ q₂ inquiry wait =>
      obtain rfl : q = q₂ := Option.some.inj (hq.symm.trans inquiry)
      have := (served.2 _ wait).1
      cases this
    | @answer _ q₂ inquiry wait =>
      obtain rfl : q = q₂ := Option.some.inj (hq.symm.trans inquiry)
      have captured : Snapshot.capture? s.store uri = some
          { uri, version := d.version, analysis := d.analysis
            others := s.store.documents.map fun d => (d.uri, d.analysis) } := by
        simp [Snapshot.capture?, hd]
      refine ⟨_, captured, ?_, ?_⟩
      · rw [hA]
        exact (served.2 _ wait).2
      · rw [document, captured]
        rfl
  · cases taken_of_step? hstep with
    | @giveUp _ q₂ inquiry cancelled wait =>
      obtain rfl : q = q₂ := Option.some.inj (hq.symm.trans inquiry)
      rw [kept] at cancelled
      cases cancelled

/-- A question about the document becomes an inquiry about its present version. -/
theorem Serving.inquire (hv : s.Serving uri w V A) (id : MessageId) {question : DocumentRequest}
    (document : question.document = uri) :
    (s.inquire id question).inquiries[s.inquiries.length]? =
      some { id, question, worker := w, version := V } := by
  obtain ⟨d, hd, -⟩ := hv.document
  have version := hv.versionOf
  simp [Session.inquire, document, hd, hv.crew.scheduler_eq, version]

theorem reader?_shutdown : DocumentRequest.reader? "shutdown" = none := rfl

/-- **Questions are answered from fresh analyses.** Let a document be opened where there was none, then
changed to newer and newer versions, and neither closed nor opened again; in any order with that, let
other messages arrive, orders be taken, windows end, and compilations start and end, none of the
document with a crash. Whoever asks about the document, and does not take the question back, is
answered from a snapshot whose analysis is no older than the text was when the question arrived; and
as long as there is no answer, one can still come. -/
theorem answered_from_fresh_analysis {compiler : σ} {s₀ s₁ s₂ s₃ s₄ : Session σ}
    {d : TextDocument} {fs : List Step} {m₀ method : String} {p₀ params : Json} {id : MessageId}
    {question : DocumentRequest} {read : Json → Option DocumentRequest}
    (start : Reaches h { compiler } s₀) (closed : s₀.store.find? d.uri = none)
    (unmanned : ∀ p ∈ s₀.schedulers, p.1 ≠ d.uri)
    (opening : Notice.read? m₀ p₀ = some (.opened d))
    (opens : step? h s₀ (.handle (.notification m₀ p₀)) = some s₁)
    (opened : (s₁.store.find? d.uri).isSome)
    (before : Run (step? h) (LeavesOpen h d.uri) s₁ es s₂)
    (reader : DocumentRequest.reader? method = some read) (asks : read params = some question)
    (document : question.document = d.uri)
    (accepted : step? h s₂ (.handle (.request id method params)) = some s₃)
    (after : Run (step? h) (LeavesOpen h d.uri) s₃ fs s₄)
    (inquiry : s₄.inquiries[s₂.inquiries.length]? = some q) (waits : q.wait ≠ .answered)
    (kept : q.cancelled = false) :
    (∀ e s₅ q', step? h s₄ e = some s₅ → s₅.inquiries[s₂.inquiries.length]? = some q' →
      q'.wait = .answered →
        ∃ snap, Snapshot.capture? s₄.store d.uri = some snap ∧
          HasReached snap.analysis.version (s₂.versionOf d.uri) ∧
          s₅.sent = s₄.sent ++ [.result id (question.answer h.files snap)]) ∧
    (h.compiler.Robust → Can h d.uri s₄ fun t =>
      ∃ q', t.inquiries[s₂.inquiries.length]? = some q' ∧ q'.wait = .answered) := by
  have other : method ≠ "shutdown" := by
    rintro rfl
    rw [reader?_shutdown] at reader
    cases reader
  have h₁ : s₁ = s₀.openDocument h d := by
    simp only [step?, Session.receive, notify, opening, heed, Option.some.injEq] at opens
    exact opens.symm
  have h₃ : s₃ = s₂.inquire id question := by
    simp only [step?, Session.receive, ask, if_neg other, reader, asks, Option.some.injEq] at accepted
    exact accepted.symm
  have attentive : Attentive s₄ := by
    have keeps : ∀ a e b : _, Attentive a → LeavesOpen h d.uri a e → step? h a e = some b →
        Attentive b := fun _ _ _ ha _ hstep => ha.step hstep
    have ha₂ := before.invariant keeps ((attentive_of_reaches start).step opens)
    exact after.invariant keeps (ha₂.step accepted)
  rw [h₁] at opened before
  -- from the opening on one worker serves the document, and the question waits for it
  obtain ⟨V, A, hv₂⟩ :=
    (serving_of_opened (sound_of_reaches start) closed unmanned opened).run before
  have hq₃ := hv₂.inquire id document
  have hv₃ : s₃.Serving d.uri s₀.workers.length V A := by
    simp only [step?, Session.receive, Option.some.injEq] at accepted
    exact accepted ▸ hv₂.ask other
  obtain ⟨V', A', hv₄⟩ := hv₃.run after
  obtain ⟨q₄, hq₄, hid, hterms, -⟩ := inquiry_run after (h₃ ▸ hq₃)
  obtain rfl : q = q₄ := Option.some.inj (inquiry.symm.trans hq₄)
  simp only [Inquiry.terms, Prod.mk.injEq] at hterms
  obtain ⟨hquestion, hworker, hversion⟩ := hterms
  refine ⟨fun e s₅ q' last inquiry' answered => ?_, fun robust => ?_⟩
  · obtain ⟨snap, hsnap, reached, sent⟩ := hv₄.answer_fresh inquiry hworker
      (by rw [hquestion, document]) waits kept last inquiry' answered
    refine ⟨snap, hsnap, ?_, ?_⟩
    · rwa [hv₂.versionOf, ← hversion]
    · rw [sent, hid, hquestion]
  · exact hv₄.can_answer attentive robust inquiry hworker

end Session

/-! ### A run -/

namespace Sample

/-- A document that is no file. -/
def uri : Uri := ⟨"untitled:a"⟩

/-- The editor opens the document. -/
def opening (version : Int) (text : String) : Json :=
  .obj [("textDocument", .obj [("uri", .str uri.text), ("languageId", .str Keyword.languageId),
    ("version", .int version), ("text", .str text)])]

/-- The editor changes the document. -/
def change (version : Int) (text : String) : Json :=
  .obj [("textDocument", .obj [("uri", .str uri.text), ("version", .int version)]),
    ("contentChanges", .arr [.obj [("text", .str text)]])]

/-- The editor asks what stands at the start of the document. -/
def asking : Json :=
  .obj [("textDocument", .obj [("uri", .str uri.text)]),
    ("position", .obj [("line", .nat 0), ("character", .nat 0)])]

/-- A compiler that finds nothing. -/
def compiler : Compiler Unit where
  compile _ _ cache _ := ⟨(), cache, {}, .ok {}⟩
  tokenize _ _ _ _ _ := ⟨(), {}, .ok []⟩
  parse _ _ report _ := ⟨(), report, .ok {}⟩

theorem robust : compiler.Robust := by
  intro job settings project cache state
  unfold Job.run
  split
  · exact ⟨_, rfl⟩
  · split <;> exact ⟨_, rfl⟩

/-- A host with no files. -/
def host : Host Unit := ⟨⟨[]⟩, compiler, 150⟩

/-- The steps from the question until the worker has compiled the document. -/
def answering : List Step :=
  [.place 0, .receive 0, .receive 0, .tick 300, .expire 0, .call 0, .yield 0, .accept 0,
    .announce 0, .announce 0]

end Sample

namespace Session

open Sample in
/-- The case of a question that arrives after a change, before anything was compiled. -/
theorem hover_answered_from_fresh_analysis :
    ∃ (s t : Session Unit) (snap : Snapshot), Reaches host { compiler := () } s ∧
      s.step? host (.answer 0) = some t ∧ Snapshot.capture? s.store uri = some snap ∧
      HasReached snap.analysis.version 2 ∧
      t.sent = s.sent ++ [.result (.number 7) (DocumentRequest.answer host.files snap
        ⟨uri, .hover ⟨0, 0⟩⟩)] := by
  let opens : Step := .handle (.notification "textDocument/didOpen" (opening 1 "int one;"))
  let changes : Step := .handle (.notification "textDocument/didChange" (change 2 "int two;"))
  let asks : Step := .handle (.request (.number 7) "textDocument/hover" asking)
  let s₀ : Session Unit := { compiler := () }
  let s₁ : Session Unit := (step? host s₀ opens).get (by decide +kernel)
  let s₁' : Session Unit := (step? host s₁ (.receive 0)).get (by decide +kernel)
  let s₂ : Session Unit := (step? host s₁' changes).get (by decide +kernel)
  let s₃ : Session Unit := (step? host s₂ asks).get (by decide +kernel)
  let s₄ : Session Unit := (answering.foldlM (step? host) s₃).get (by decide +kernel)
  let s₅ : Session Unit := (step? host s₄ (.answer 0)).get (by decide +kernel)
  have h₁ : step? host s₀ opens = some s₁ := (Option.some_get _).symm
  have h₁' : step? host s₁ (.receive 0) = some s₁' := (Option.some_get _).symm
  have h₂ : step? host s₁' changes = some s₂ := (Option.some_get _).symm
  have h₃ : step? host s₂ asks = some s₃ := (Option.some_get _).symm
  have h₄ : answering.foldlM (step? host) s₃ = some s₄ := (Option.some_get _).symm
  have h₅ : step? host s₄ (.answer 0) = some s₅ := (Option.some_get _).symm
  have newer : s₁'.versionOf uri < 2 := by decide +kernel
  have before : Run (step? host) (LeavesOpen host uri) s₁ [.receive 0, changes] s₂ := by
    refine .cons trivial h₁' (.single ?_ h₂)
    intro n hn
    obtain rfl : Notice.changed ⟨uri, 2, [⟨none, "int two;"⟩]⟩ = n := Option.some.inj hn
    exact fun _ => newer
  have after : Run (step? host) (LeavesOpen host uri) s₃ answering s₄ :=
    .of_foldlM (fun s e he => by
      simp only [answering, List.mem_cons, List.not_mem_nil, or_false] at he
      rcases he with rfl | rfl | rfl | rfl | rfl | rfl | rfl | rfl | rfl | rfl
      case' inr.inr.inr.inr.inr.inr.inl =>
        exact fun _ job project _ _ _ => robust job _ project _ _
      all_goals trivial) h₄
  let waiting : Inquiry :=
    { id := .number 7, question := ⟨uri, .hover ⟨0, 0⟩⟩, worker := 0, version := 2
      wait := .told .released }
  have waits : s₄.inquiries[s₂.inquiries.length]? = some waiting := by decide +kernel
  have answered : s₅.inquiries[s₂.inquiries.length]? = some { waiting with wait := .answered } := by
    decide +kernel
  obtain ⟨snap, hsnap, reached, sent⟩ := (answered_from_fresh_analysis
    (d := ⟨uri, Keyword.languageId, 1, "int one;"⟩) ⟨[], .nil s₀⟩ rfl (by simp [s₀]) rfl h₁
    (by decide +kernel) before rfl rfl rfl h₃ after waits (by decide) rfl).1 _ _ _ h₅ answered rfl
  have version : s₂.versionOf uri = 2 := by decide +kernel
  have run : Run (step? host) (fun _ _ => True) s₁ ([.receive 0, changes] ++ asks :: answering) s₄ :=
    (before.mono fun _ _ _ => trivial).trans (.cons trivial h₃ (after.mono fun _ _ _ => trivial))
  exact ⟨s₄, s₅, snap, ⟨_, .cons trivial h₁ run⟩, h₅, hsnap, version ▸ reached, sent⟩

end Session

end LanguageServer
