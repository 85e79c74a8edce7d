import LanguageServer.Proofs.Freshness

/-!
# The cached parses of open documents

Compilations share their parses, each under the version of its text. A compilation that parses an open
document puts the parse into the cache under the version that the document then has, and looks it up
under that version.

* `CacheEvent`, `Session.cacheStep?`: reports about documents, and compilations that parse them;
* `Session.Coherent`: what is found for an open document is a parse of its text;
* `Session.FindsNoOther`, `Session.coherent_iff`: when that always holds;
* `Session.coherent_of_versions`: versions that do not come again are enough.
-/

namespace LanguageServer

/-! ### Looking up -/

namespace ParseCache

variable {c : ParseCache} {uri u : Uri} {version v : Option Int} {p : ParsedFile}

theorem find?_erase_self : (c.erase uri).find? uri v = none := by
  have none : (c.erase uri).entries.find? (·.1 == uri) = none := by simp [erase]
  simp [find?, none]

theorem find?_erase_of_ne (hu : u ≠ uri) : (c.erase u).find? uri v = c.find? uri v := by
  have same : (c.erase u).entries.find? (·.1 == uri) = c.entries.find? (·.1 == uri) := by
    simp only [erase, List.find?_filter]
    congr 1
    funext e
    by_cases he : e.1 = uri
    · simp [he, Ne.symm hu]
    · simp [he]
  simp [find?, same]

theorem find?_insert_self :
    (c.insert uri version p).find? uri v = if version = v then some p else none := by
  simp [find?, insert]

theorem find?_insert_of_ne (hu : u ≠ uri) : (c.insert u version p).find? uri v = c.find? uri v := by
  have same : (c.insert u version p).find? uri v = (c.erase u).find? uri v := by
    simp [find?, insert, hu]
  rw [same, find?_erase_of_ne hu]

end ParseCache

/-- What happens to documents and to their cached parses: the editor reports something, or a compilation
parses a document. -/
inductive CacheEvent
  | report (n : Notice)
  | parse (uri : Uri) (p : ParsedFile)

namespace Session

variable {σ : Type} {s t : Session σ} {h : Host σ} {uri : Uri} {d : TextDocument}

/-- A parse is kept under the version that the document has at that moment. -/
def cacheStep? (h : Host σ) (s : Session σ) : CacheEvent → Option (Session σ)
  | .report n => some (s.heed h n)
  | .parse uri p => some { s with cache := s.cache.insert uri (s.store.version? uri) p }

variable (IsParse : Uri → String → ParsedFile → Prop)

/-- The editor opens, changes, saves and closes documents, and compilations parse what is open. -/
def Edits (s : Session σ) : CacheEvent → Prop
  | .report (.opened _) | .report (.changed _) | .report (.saved _) | .report (.closed _) => True
  | .report _ => False
  | .parse uri p => ∃ d text, s.store.find? uri = some d ∧ d.text = some text ∧ IsParse uri text p

/-- What is found for a document under its version is a parse of its text. -/
def CoherentAt (s : Session σ) (uri : Uri) : Prop :=
  ∀ d text p, s.store.find? uri = some d → d.text = some text →
    s.cache.find? uri (s.store.version? uri) = some p → IsParse uri text p

/-- That is so for all open documents. -/
def Coherent (s : Session σ) : Prop := ∀ uri, s.CoherentAt IsParse uri

/-- If a document can be opened, no parse of another text is kept under its version. -/
def FindsNoOther (h : Host σ) (s : Session σ) (d : TextDocument) : Prop :=
  ((s.openDocument h d).store.find? d.uri).isSome →
    ∀ p, s.cache.find? d.uri (some d.version) = some p → IsParse d.uri d.text p

variable {IsParse}

theorem CoherentAt.of_eq (hs : s.CoherentAt IsParse uri)
    (document : t.store.find? uri = s.store.find? uri)
    (cache : ∀ v, t.cache.find? uri v = s.cache.find? uri v) : t.CoherentAt IsParse uri := by
  have version : t.store.version? uri = s.store.version? uri := by simp [Store.version?, document]
  intro d text p hd ht hp
  rw [document] at hd
  rw [version, cache] at hp
  exact hs d text p hd ht hp

theorem coherentAt_of_closed (closed : s.store.find? uri = none) : s.CoherentAt IsParse uri := by
  intro d text p hd
  cases closed.symm.trans hd

theorem coherentAt_of_erased (erased : ∀ v, s.cache.find? uri v = none) :
    s.CoherentAt IsParse uri := by
  intro d text p _ _ hp
  cases (erased _).symm.trans hp

/-! ### What reports do to the cache -/

/-- What becomes of a document that is changed. -/
theorem updateDocument_cases (h : Host σ) (s : Session σ) (uri : Uri) (f : Document → Document) :
    (s.updateDocument h uri f).cache = s.cache.erase uri ∨
      (s.updateDocument h uri f).cache = s.cache ∧
        (s.updateDocument h uri f).store.find? uri = none := by
  unfold updateDocument
  split
  · exact Or.inl (recompile_cache uri)
  · next store e he => exact Or.inr ⟨rfl, Store.find?_register_error he⟩

theorem cache_openDocument (h : Host σ) (s : Session σ) (d : TextDocument) :
    (s.openDocument h d).cache = s.cache := by
  obtain ⟨store, doc, -, he⟩ | ⟨store, e, -, he⟩ := openDocument_cases h s d <;> rw [he]
  exact requestCompilation_cache d.uri

/-- The cache stays as it is, or what it keeps for the document is thrown away. -/
theorem cache_heed {n : Notice} (edits : s.Edits IsParse (.report n)) :
    (s.heed h n).cache = s.cache ∨ ∃ u ∈ n.documents, (s.heed h n).cache = s.cache.erase u := by
  have of_update : ∀ u f, (s.updateDocument h u f).cache = s.cache ∨
      (s.updateDocument h u f).cache = s.cache.erase u := fun u f =>
    (updateDocument_cases h s u f).symm.imp_left And.left
  cases n with
  | opened d => exact Or.inl (cache_openDocument h s d)
  | changed c => exact (of_update c.uri _).imp_right fun he => ⟨c.uri, List.mem_cons_self, he⟩
  | saved c => exact (of_update c.uri _).imp_right fun he => ⟨c.uri, List.mem_cons_self, he⟩
  | closed u => exact Or.inl (closeDocument_cache u)
  | notebookOpened | notebookChanged | notebookSaved | notebookClosed | configured | cancelled =>
    exact edits.elim

/-- **A document that is opened is coherent exactly if no parse of another text is found for it.** -/
theorem coherentAt_openDocument :
    (s.openDocument h d).CoherentAt IsParse d.uri ↔ s.FindsNoOther IsParse h d := by
  obtain ⟨store, doc, hr, -⟩ | ⟨store, e, hr, he⟩ := openDocument_cases h s d
  · have found := find?_openDocument hr
    have version : (s.openDocument h d).store.version? d.uri = some d.version := by
      rw [Store.version?, found]
      rfl
    constructor
    · intro coherent _ p hp
      exact coherent _ d.text p found rfl (by rw [version, cache_openDocument, hp])
    · intro other doc' text p hd ht hp
      obtain rfl : doc.opened d.text d.version = doc' := Option.some.inj (found.symm.trans hd)
      obtain rfl : d.text = text := Option.some.inj ht
      rw [version, cache_openDocument] at hp
      exact other (by simp [found]) p hp
  · have none : (s.openDocument h d).store.find? d.uri = none := by
      rw [he]
      exact Store.find?_register_error hr
    exact ⟨fun _ opened => by simp [none] at opened, fun _ => coherentAt_of_closed none⟩

/-! ### Histories -/

/-- Every report but an opening leaves all open documents coherent, and an opening all but the one that
it opens. -/
theorem Coherent.heed {n : Notice} (hs : s.Coherent IsParse) (distinct : s.store.Distinct)
    (edits : s.Edits IsParse (.report n))
    (opening : ∀ d, n = .opened d → s.FindsNoOther IsParse h d) :
    (s.heed h n).Coherent IsParse := by
  intro uri
  by_cases huri : uri ∈ n.documents
  · -- a document that changes is looked up in vain until it is parsed again
    have of_update : ∀ f, (s.updateDocument h uri f).CoherentAt IsParse uri := by
      intro f
      rcases updateDocument_cases h s uri f with he | ⟨-, closed⟩
      · exact coherentAt_of_erased fun v => by rw [he, ParseCache.find?_erase_self]
      · exact coherentAt_of_closed closed
    cases n with
    | opened d =>
      obtain rfl : uri = d.uri := by simpa [Notice.documents] using huri
      exact coherentAt_openDocument.2 (opening d rfl)
    | changed c =>
      obtain rfl : uri = c.uri := by simpa [Notice.documents] using huri
      exact of_update _
    | saved c =>
      obtain rfl : uri = c.uri := by simpa [Notice.documents] using huri
      exact of_update _
    | closed u =>
      obtain rfl : uri = u := by simpa [Notice.documents] using huri
      refine coherentAt_of_closed ?_
      rw [Session.heed, closeDocument_store, Store.find?_remove_self]
    | notebookOpened | notebookChanged | notebookSaved | notebookClosed | configured | cancelled =>
      exact edits.elim
  · -- the report is about other documents, and so is what it throws away
    refine (hs uri).of_eq ((edited_heed n s).find?_eq distinct huri) fun v => ?_
    rcases cache_heed (h := h) edits with he | ⟨u, hu, he⟩ <;> rw [he]
    exact ParseCache.find?_erase_of_ne fun hn => huri (hn ▸ hu)

/-- A parse of an open document leaves all documents coherent. -/
theorem Coherent.parse {p : ParsedFile} (hs : s.Coherent IsParse)
    (edits : s.Edits IsParse (.parse uri p)) :
    Coherent IsParse { s with cache := s.cache.insert uri (s.store.version? uri) p } := by
  obtain ⟨d, text, hd, ht, parsed⟩ := edits
  intro u
  by_cases hu : uri = u
  · subst hu
    intro d' text' p' hd' ht' hp'
    obtain rfl : d = d' := Option.some.inj (hd.symm.trans hd')
    obtain rfl : text = text' := Option.some.inj (ht.symm.trans ht')
    rw [ParseCache.find?_insert_self, if_pos rfl] at hp'
    cases hp'
    exact parsed
  · exact (hs u).of_eq rfl fun v => ParseCache.find?_insert_of_ne hu

theorem coherent_empty (compiler : σ) : Coherent IsParse { compiler } :=
  fun _ => coherentAt_of_closed rfl

theorem distinct_cacheStep {e : CacheEvent} (hs : s.store.Distinct)
    (hstep : s.cacheStep? h e = some t) : t.store.Distinct := by
  cases e with
  | report n =>
    cases hstep
    exact (edited_heed n s).distinct hs
  | parse uri p =>
    cases hstep
    exact hs

theorem distinct_of_cacheRun {compiler : σ} {es : List CacheEvent}
    (run : Run (cacheStep? h) (Edits IsParse) { compiler } es s) : s.store.Distinct :=
  run.invariant (I := fun s : Session σ => s.store.Distinct)
    (fun _ _ _ hs _ hstep => distinct_cacheStep hs hstep) List.nodup_nil

/-- **What the cache depends on.** Through any history of documents that are opened, changed, saved and
closed, and compilations that parse them in between, the parse that is found for an open document is
always one of its text, exactly if no opening finds a parse of another text under the version that the
document is opened with. -/
theorem coherent_iff (compiler : σ) (es : List CacheEvent) :
    (∀ before t, before <+: es → Run (cacheStep? h) (Edits IsParse) { compiler } before t →
      t.Coherent IsParse) ↔
    ∀ before t d, before ++ [.report (.opened d)] <+: es →
      Run (cacheStep? h) (Edits IsParse) { compiler } before t → t.FindsNoOther IsParse h d := by
  constructor
  · intro coherent before t d prior run
    have opened := coherent _ _ prior (.snoc run trivial rfl) d.uri
    exact coherentAt_openDocument.1 opened
  · intro openings before t prior run
    induction run with
    | nil => exact coherent_empty compiler
    | @snoc t u before e run edits last ih =>
      have hs := ih ((List.prefix_append before [e]).trans prior)
      cases e with
      | report n =>
        -- only for an opening is there something to know
        cases last
        refine hs.heed (distinct_of_cacheRun run) edits ?_
        rintro d rfl
        exact openings before t d prior run
      | parse uri p =>
        cases last
        exact hs.parse edits

/-! ### Earlier parses -/

/-- A document was parsed in the course of a history when it had a version. -/
def Parsed (IsParse : Uri → String → ParsedFile → Prop) (h : Host σ) (compiler : σ)
    (es : List CacheEvent) (uri : Uri) (version : Option Int) (p : ParsedFile) : Prop :=
  ∃ before after t, es = before ++ .parse uri p :: after ∧
    Run (cacheStep? h) (Edits IsParse) { compiler } before t ∧ t.store.version? uri = version

theorem Parsed.snoc {compiler : σ} {es : List CacheEvent} {version : Option Int} {p : ParsedFile}
    (hp : Parsed IsParse h compiler es uri version p) (e : CacheEvent) :
    Parsed IsParse h compiler (es ++ [e]) uri version p := by
  obtain ⟨before, after, t, rfl, hp⟩ := hp
  exact ⟨before, after ++ [e], t, by simp, hp⟩

/-- What is kept for a document was parsed before, when the document had that version. -/
theorem parsed_of_kept {compiler : σ} {es : List CacheEvent} {version : Option Int} {p : ParsedFile}
    (run : Run (cacheStep? h) (Edits IsParse) { compiler } es t)
    (kept : t.cache.find? uri version = some p) : Parsed IsParse h compiler es uri version p := by
  induction run generalizing p with
  | nil => cases kept
  | @snoc s t es e run edits last ih =>
    cases e with
    | report n =>
      cases last
      refine (ih ?_).snoc _
      rcases cache_heed (h := h) edits with he | ⟨u, -, he⟩ <;> rw [he] at kept
      · exact kept
      · by_cases hu : u = uri
        · rw [hu, ParseCache.find?_erase_self] at kept
          cases kept
        · rwa [ParseCache.find?_erase_of_ne hu] at kept
    | parse u q =>
      cases last
      by_cases hu : u = uri
      · subst hu
        rw [ParseCache.find?_insert_self] at kept
        split at kept
        · next hv =>
          cases kept
          exact ⟨es, [], s, rfl, run, hv⟩
        · cases kept
      · rw [ParseCache.find?_insert_of_ne hu] at kept
        exact (ih kept).snoc _

/-- The cache is coherent if no document is opened with a version under which another text of it was
parsed before. -/
theorem coherent_of_versions {compiler : σ} {es : List CacheEvent}
    (new : ∀ before d p, before ++ [.report (.opened d)] <+: es →
      Parsed IsParse h compiler before d.uri (some d.version) p → IsParse d.uri d.text p)
    (run : Run (cacheStep? h) (Edits IsParse) { compiler } es t) : t.Coherent IsParse := by
  refine (coherent_iff compiler es).2 ?_ es t (List.prefix_refl es) run
  intro before s d prior run' _ p kept
  exact new before d p prior (parsed_of_kept run' kept)

end Session

/-! ### A history -/

namespace Sample

/-- A parser that makes one token of a text. -/
def parse (uri : Uri) (text : String) : ParsedFile :=
  { file := uri, tokens := [{ (default : Token) with content := text }], syntaxTree := {} }

/-- The document with a text, as the editor opens it for the first time. -/
def first (text : String) : TextDocument := ⟨uri, Keyword.languageId, 1, text⟩

/-- The document is opened and parsed, closed, and opened with another text. -/
def reopening : List CacheEvent :=
  [.report (.opened (first "int one;")), .parse uri (parse uri "int one;"), .report (.closed uri),
    .report (.opened (first "int other;"))]

end Sample

namespace Session

open Sample

/-- A document that is opened again at version 1 is found parsed as it was before it was closed. -/
theorem old_parse_found :
    ∃ t : Session Unit,
      Run (cacheStep? host) (Edits fun uri text p => p = parse uri text) { compiler := () }
        reopening t ∧
      (t.store.find? uri).map (fun d => (d.text, d.version)) = some (some "int other;", some 1) ∧
      t.cache.find? uri (t.store.version? uri) = some (parse uri "int one;") ∧
      ¬ t.Coherent fun uri text p => p = parse uri text := by
  let s : Session Unit := { compiler := () }
  let s₁ : Session Unit := s.heed host (.opened (first "int one;"))
  let s₂ : Session Unit :=
    { s₁ with cache := s₁.cache.insert uri (s₁.store.version? uri) (parse uri "int one;") }
  let s₃ : Session Unit := s₂.heed host (.closed uri)
  let s₄ : Session Unit := s₃.heed host (.opened (first "int other;"))
  have found : s₄.cache.find? uri (s₄.store.version? uri) = some (parse uri "int one;") := rfl
  have parsed : s₁.Edits (fun uri text p => p = parse uri text)
      (.parse uri (parse uri "int one;")) := ⟨_, _, rfl, rfl, rfl⟩
  have opened : s₄.store.find? uri =
      some ⟨uri, .source, some "int other;", some 1, {}⟩ := rfl
  refine ⟨s₄, ?_, by rw [opened]; rfl, found, fun coherent => ?_⟩
  · exact .cons trivial rfl (.cons parsed rfl (.cons trivial rfl (.single trivial rfl)))
  · have same : parse uri "int one;" = parse uri "int other;" :=
      coherent uri _ _ _ opened rfl found
    have texts := congrArg (·.tokens.map (·.content)) same
    exact absurd texts (by decide)

end Session

end LanguageServer
