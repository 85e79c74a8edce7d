import LanguageServer.Store.Action
import Mathlib.Data.List.Nodup

/-!
# What changes of the store leave as it was

* `Store.Distinct`: every name has one document at most, which every change establishes or keeps;
* `Store.Edited`: the changes that reports of the editor lead to, about some names;
* `Store.Edited.find?_eq`: documents of other names stay;
* `Store.Edited.inherits`: an analysis stays with its document, and new documents have none;
* `Store.edited_performAll`: the documents that actions are about, and no others, are edited.
-/

namespace LanguageServer

/-! ### One item per key -/

section RetainLast

variable {α κ : Type} [BEq κ] (key : α → κ)

theorem retainLast_sublist (xs : List α) : (retainLast key xs).Sublist xs := by
  induction xs with
  | nil => exact .slnil
  | cons x xs ih =>
    unfold retainLast
    split
    · exact ih.cons x
    · exact ih.cons_cons x

variable [LawfulBEq κ]

theorem nodup_retainLast (xs : List α) : ((retainLast key xs).map key).Nodup := by
  induction xs with
  | nil => exact List.nodup_nil
  | cons x xs ih =>
    unfold retainLast
    split
    · exact ih
    · next h =>
      rw [List.map_cons, List.nodup_cons]
      refine ⟨fun hx => h ?_, ih⟩
      obtain ⟨y, hy, hyx⟩ := List.mem_map.1 hx
      exact List.any_eq_true.2 ⟨y, (retainLast_sublist key xs).subset hy, by simp [hyx]⟩

theorem retainLast_of_nodup {xs : List α} (h : (xs.map key).Nodup) : retainLast key xs = xs := by
  induction xs with
  | nil => rfl
  | cons x xs ih =>
    rw [List.map_cons, List.nodup_cons] at h
    have hx : xs.any (key · == key x) = false := by
      rw [List.any_eq_false]
      intro y hy he
      exact h.1 (List.mem_map.2 ⟨y, hy, by simpa using he⟩)
    simp [retainLast, hx, ih h.2]

/-- No key is lost. -/
theorem mem_map_retainLast {xs : List α} {k : κ} : k ∈ (retainLast key xs).map key ↔ k ∈ xs.map key := by
  induction xs with
  | nil => rfl
  | cons x xs ih =>
    unfold retainLast
    split
    · next later =>
      obtain ⟨y, hy, same⟩ := List.any_eq_true.1 later
      have first : key x ∈ xs.map key := List.mem_map.2 ⟨y, hy, by simpa using same⟩
      rw [ih, List.map_cons, List.mem_cons]
      exact ⟨Or.inr, fun h => h.elim (· ▸ first) id⟩
    · rw [List.map_cons, List.mem_cons, ih, List.map_cons, List.mem_cons]

end RetainLast

/-- The documents that a change of a notebook closes, opens or edits. -/
def NotebookChange.documents (c : NotebookChange) : List Uri :=
  (c.splice.map (·.closed)).getD [] ++ (c.splice.map (·.opened.map (·.uri))).getD [] ++
    c.edits.map (·.uri)

namespace Store

variable {s t : Store} {uri u : Uri} {d : Document} {fs : Files}

/-! ### Looking up -/

/-- Every name has one document at most. -/
def Distinct (s : Store) : Prop := (s.documents.map (·.uri)).Nodup

theorem mem_of_find? (h : s.find? uri = some d) : d ∈ s.documents := List.mem_of_find?_eq_some h

theorem uri_of_find? (h : s.find? uri = some d) : d.uri = uri := by
  simpa using List.find?_some h

theorem find?_eq_none : s.find? uri = none ↔ ∀ d ∈ s.documents, d.uri ≠ uri := by
  simp [find?]

theorem find?_eq_none_iff_not_mem : s.find? uri = none ↔ uri ∉ s.documents.map (·.uri) := by
  simp [find?_eq_none]

theorem Distinct.find?_of_mem (hs : s.Distinct) (hd : d ∈ s.documents) : s.find? d.uri = some d := by
  obtain ⟨d', hd'⟩ : ∃ d', s.find? d.uri = some d' := by
    cases hf : s.find? d.uri with
    | none => exact absurd rfl (find?_eq_none.1 hf d hd)
    | some d' => exact ⟨d', rfl⟩
  rw [hd', List.inj_on_of_nodup_map hs (mem_of_find? hd') hd (uri_of_find? hd')]

theorem find?_append (h : s.find? uri = none) :
    ({ s with documents := s.documents ++ [d] } : Store).find? uri =
      if d.uri = uri then some d else none := by
  have hn : s.documents.find? (·.uri == uri) = none := h
  simp only [find?, List.find?_append, hn, Option.none_or, List.find?_singleton, beq_iff_eq]

theorem Distinct.append (hs : s.Distinct) (hn : s.find? d.uri = none) :
    ({ s with documents := s.documents ++ [d] } : Store).Distinct := by
  simp only [Distinct, List.map_append, List.map_cons, List.map_nil]
  refine List.nodup_append.2 ⟨hs, List.nodup_singleton _, ?_⟩
  intro a ha b hb he
  obtain ⟨d', hd', rfl⟩ := List.mem_map.1 ha
  rw [List.mem_singleton.1 hb] at he
  exact find?_eq_none.1 hn d' hd' he

theorem find?_append_of_ne (h : d.uri ≠ uri) :
    ({ s with documents := s.documents ++ [d] } : Store).find? uri = s.find? uri := by
  simp [find?, List.find?_append, h]

/-! ### Changing a document -/

theorem mem_updateFirst {α : Type} {p : α → Bool} {f : α → α} {xs : List α} {y : α}
    (h : y ∈ updateFirst p f xs) : y ∈ xs ∨ ∃ x ∈ xs, p x = true ∧ y = f x := by
  induction xs with
  | nil => cases h
  | cons x xs ih =>
    unfold updateFirst at h
    split at h
    · next hp =>
      rcases List.mem_cons.1 h with rfl | h
      · exact Or.inr ⟨x, List.mem_cons_self, hp, rfl⟩
      · exact Or.inl (List.mem_cons_of_mem _ h)
    · rcases List.mem_cons.1 h with rfl | h
      · exact Or.inl List.mem_cons_self
      · rcases ih h with h | ⟨z, hz, hp, rfl⟩
        · exact Or.inl (List.mem_cons_of_mem _ h)
        · exact Or.inr ⟨z, List.mem_cons_of_mem _ hz, hp, rfl⟩

theorem map_updateFirst {α κ : Type} {p : α → Bool} {f : α → α} {key : α → κ}
    (hf : ∀ x, p x = true → key (f x) = key x) (xs : List α) :
    (updateFirst p f xs).map key = xs.map key := by
  induction xs with
  | nil => rfl
  | cons x xs ih =>
    unfold updateFirst
    split
    · next hp => simp [hf x hp]
    · simp [ih]

theorem uris_update {f : Document → Document} (hf : ∀ d, d.uri = u → (f d).uri = u) :
    (s.update u f).documents.map (·.uri) = s.documents.map (·.uri) := by
  refine map_updateFirst (fun d hd => ?_) s.documents
  have hd : d.uri = u := by simpa using hd
  rw [hf d hd, hd]

theorem find?_updateFirst {α : Type} {p : α → Bool} {f : α → α}
    (keeps : ∀ x, p x = true → p (f x) = true) (xs : List α) :
    (updateFirst p f xs).find? p = (xs.find? p).map f := by
  induction xs with
  | nil => rfl
  | cons x xs ih =>
    unfold updateFirst
    by_cases hp : p x = true
    · simp [hp, keeps x hp]
    · simp [hp, ih]

theorem find?_update_self {f : Document → Document} (hf : ∀ d, d.uri = u → (f d).uri = u) :
    (s.update u f).find? u = (s.find? u).map f :=
  find?_updateFirst (fun d hd => by simpa using hf d (by simpa using hd)) s.documents

theorem find?_update_of_some {f : Document → Document} (name : ∀ d, (f d).uri = d.uri)
    (hd : s.find? u = some d) : (s.update u f).find? u = some (f d) := by
  rw [find?_update_self fun d hd => (name d).trans hd, hd]
  rfl

theorem find?_update_of_ne {f : Document → Document} (hf : ∀ d, d.uri = u → (f d).uri = u)
    (hu : u ≠ uri) : (s.update u f).find? uri = s.find? uri := by
  simp only [update, find?]
  induction s.documents with
  | nil => rfl
  | cons d ds ih =>
    unfold updateFirst
    by_cases hd : d.uri = u
    · simp [hd, hf d hd, hu]
    · simp only [hd, beq_iff_eq, if_false, List.find?_cons, ih]

theorem find?_remove_self : (s.remove u).find? u = none := by
  simp [find?, remove]

theorem find?_filter_of_ne {α : Type} (key : α → Uri) (hu : u ≠ uri) (xs : List α) :
    (xs.filter (key · != u)).find? (key · == uri) = xs.find? (key · == uri) := by
  rw [List.find?_filter]
  congr 1
  funext x
  by_cases hx : key x = uri
  · simp [hx, Ne.symm hu]
  · simp [hx]

theorem find?_remove_of_ne (hu : u ≠ uri) : (s.remove u).find? uri = s.find? uri :=
  find?_filter_of_ne Document.uri hu s.documents

theorem find?_remove_of_none (h : s.find? uri = none) : (s.remove u).find? uri = none := by
  by_cases hu : u = uri
  · rw [hu]
    exact find?_remove_self
  · rw [find?_remove_of_ne hu, h]

/-! ### Registering -/

theorem distinct_removeDuplicates (s : Store) : s.removeDuplicates.Distinct :=
  nodup_retainLast _ _

theorem Distinct.documents_removeDuplicates (h : s.Distinct) :
    s.removeDuplicates.documents = s.documents := retainLast_of_nodup _ h

theorem Distinct.find?_removeDuplicates (h : s.Distinct) :
    s.removeDuplicates.find? uri = s.find? uri := by
  rw [find?, h.documents_removeDuplicates, find?]

theorem find?_removeDuplicates_eq_none : s.removeDuplicates.find? uri = none ↔ s.find? uri = none := by
  rw [find?_eq_none_iff_not_mem, removeDuplicates, mem_map_retainLast, find?_eq_none_iff_not_mem]

theorem make_ok {language : String} {text : Option String} (h : make fs uri language text = .ok d) :
    ∃ l t, d = .fresh uri l t := by
  simp only [make, bind, Except.bind] at h
  split at h
  · cases h
  · split at h
    · cases h
    · exact ⟨_, _, (Except.ok.inj h).symm⟩

/-- All that can follow from the registration of a name. -/
theorem register_cases (fs : Files) (uri : Uri) (language : String) (text : Option String)
    (s : Store) :
    (∃ d, s.removeDuplicates.find? uri = some d ∧
      s.register fs uri language text = (s.removeDuplicates, .ok d)) ∨
    (∃ d, s.removeDuplicates.find? uri = none ∧ make fs uri language text = .ok d ∧
      s.register fs uri language text =
        ({ s.removeDuplicates with documents := s.removeDuplicates.documents ++ [d] }, .ok d)) ∨
    (∃ e, s.removeDuplicates.find? uri = none ∧
      s.register fs uri language text = (s.removeDuplicates, .error e)) := by
  simp only [register]
  cases hf : s.removeDuplicates.find? uri with
  | some d => exact Or.inl ⟨d, rfl, rfl⟩
  | none =>
    refine Or.inr ?_
    cases hm : make fs uri language text with
    | ok d => exact Or.inl ⟨d, rfl, rfl, rfl⟩
    | error e => exact Or.inr ⟨e, rfl, rfl⟩

/-- A name that was registered has the document that was reported. -/
theorem find?_register {language : String} {text : Option String} {t : Store}
    (h : s.register fs uri language text = (t, .ok d)) : t.find? uri = some d := by
  obtain ⟨d', hd, he⟩ | ⟨d', hn, hm, he⟩ | ⟨e, -, he⟩ := register_cases fs uri language text s
  · rw [he] at h
    cases h
    exact hd
  · rw [he] at h
    cases h
    obtain ⟨l, t, rfl⟩ := make_ok hm
    simp [find?_append hn, Document.fresh]
  · rw [he] at h
    cases h

theorem find?_register_error {language : String} {text : Option String} {t : Store}
    {e : DocumentError} (h : s.register fs uri language text = (t, .error e)) :
    t.find? uri = none := by
  obtain ⟨d', hd, he⟩ | ⟨d', hn, hm, he⟩ | ⟨e, hn, he⟩ := register_cases fs uri language text s
  · rw [he] at h
    cases h
  · rw [he] at h
    cases h
  · rw [he] at h
    cases h
    exact hn

/-- After a registration every name has one document at most. -/
theorem distinct_register (fs : Files) (uri : Uri) (language : String) (text : Option String)
    (s : Store) : (s.register fs uri language text).1.Distinct := by
  obtain ⟨d, -, he⟩ | ⟨d, hn, hm, he⟩ | ⟨e, -, he⟩ := register_cases fs uri language text s <;> rw [he]
  · exact distinct_removeDuplicates s
  · obtain ⟨l, t, rfl⟩ := make_ok hm
    exact (distinct_removeDuplicates s).append hn
  · exact distinct_removeDuplicates s

/-- A name that had no document gets one without an analysis. -/
theorem analysis_register {language : String} {text : Option String} {t : Store}
    (closed : s.find? uri = none) (h : s.register fs uri language text = (t, .ok d)) :
    d.analysis = {} := by
  have unknown : s.removeDuplicates.find? uri = none := find?_removeDuplicates_eq_none.2 closed
  obtain ⟨d', hd, -⟩ | ⟨d', -, hm, he⟩ | ⟨e, -, he⟩ := register_cases fs uri language text s
  · rw [unknown] at hd
    cases hd
  · rw [he] at h
    cases h
    obtain ⟨l, t, rfl⟩ := make_ok hm
    rfl
  · rw [he] at h
    cases h

/-- A name that has a document is not registered anew. -/
theorem Distinct.register_of_find? (fs : Files) (hs : s.Distinct) (hd : s.find? uri = some d)
    (language : String) (text : Option String) :
    s.register fs uri language text = (s.removeDuplicates, .ok d) := by
  simp [register, hs.find?_removeDuplicates, hd]

/-! ### Edits -/

/-- What reports of the editor about some names change: notebooks, texts and versions; documents are
registered and removed, duplicates first. -/
inductive Edited (about : Uri → Prop) : Store → Store → Prop
  | refl (s : Store) : Edited about s s
  | trans {s t u : Store} (first : Edited about s t) (second : Edited about t u) : Edited about s u
  | notebooks (s : Store) (ns : List Notebook) : Edited about s { s with notebooks := ns }
  | deduplicate (s : Store) : Edited about s s.removeDuplicates
  | add {s : Store} (uri : Uri) (l : Language) (text : Option String) (named : about uri)
      (unknown : s.find? uri = none) :
      Edited about s { s with documents := s.documents ++ [.fresh uri l text] }
  | update (s : Store) (uri : Uri) (f : Document → Document) (named : about uri)
      (name : ∀ d, (f d).uri = d.uri) (analysis : ∀ d, (f d).analysis = d.analysis) :
      Edited about s (s.update uri f)
  | remove (s : Store) (uri : Uri) (named : about uri) : Edited about s (s.remove uri)

namespace Edited

variable {about other : Uri → Prop}

theorem mono (h : Edited about s t) (hsub : ∀ u, about u → other u) : Edited other s t := by
  induction h with
  | refl s => exact .refl s
  | trans _ _ ih ih' => exact ih.trans ih'
  | notebooks s ns => exact .notebooks s ns
  | deduplicate s => exact .deduplicate s
  | add uri l text named unknown => exact .add uri l text (hsub uri named) unknown
  | update s uri f named name analysis => exact .update s uri f (hsub uri named) name analysis
  | remove s uri named => exact .remove s uri (hsub uri named)

theorem distinct (h : Edited about s t) (hs : s.Distinct) : t.Distinct := by
  induction h with
  | refl => exact hs
  | trans _ _ ih ih' => exact ih' (ih hs)
  | notebooks => exact hs
  | deduplicate s => exact distinct_removeDuplicates s
  | add _ _ _ _ unknown => exact hs.append unknown
  | update s uri f _ name _ =>
    rw [Distinct, uris_update fun d hd => (name d).trans hd]
    exact hs
  | remove s uri => exact hs.sublist (List.filter_sublist.map _)

/-- Documents of other names stay. -/
theorem find?_eq (h : Edited about s t) (hs : s.Distinct) (huri : ¬ about uri) :
    t.find? uri = s.find? uri := by
  induction h with
  | refl => rfl
  | trans first _ ih ih' => rw [ih' (first.distinct hs), ih hs]
  | notebooks => rfl
  | deduplicate => exact hs.find?_removeDuplicates
  | add u l text named _ => exact find?_append_of_ne fun he => huri (he ▸ named)
  | update s u f named name _ =>
    exact find?_update_of_ne (fun d hd => (name d).trans hd) fun he => huri (he ▸ named)
  | remove s u named => exact find?_remove_of_ne fun he => huri (he ▸ named)

/-- An analysis stays with its document, and new documents have none. -/
theorem inherits (h : Edited about s t) {d : Document} (hd : d ∈ t.documents) :
    d.analysis = {} ∨ ∃ d' ∈ s.documents, d'.uri = d.uri ∧ d'.analysis = d.analysis := by
  induction h generalizing d with
  | refl => exact Or.inr ⟨d, hd, rfl, rfl⟩
  | trans _ _ ih ih' =>
    rcases ih' hd with h | ⟨d', hd', hu, ha⟩
    · exact Or.inl h
    · rw [← hu, ← ha]
      exact ih hd'
  | notebooks => exact Or.inr ⟨d, hd, rfl, rfl⟩
  | deduplicate s => exact Or.inr ⟨d, (retainLast_sublist _ _).subset hd, rfl, rfl⟩
  | add =>
    rcases List.mem_append.1 hd with hd | hd
    · exact Or.inr ⟨d, hd, rfl, rfl⟩
    · rw [List.mem_singleton.1 hd]
      exact Or.inl rfl
  | update s uri f _ name analysis =>
    rcases mem_updateFirst hd with hd | ⟨d', hd', -, rfl⟩
    · exact Or.inr ⟨d, hd, rfl, rfl⟩
    · exact Or.inr ⟨d', hd', (name d').symm, (analysis d').symm⟩
  | remove => exact Or.inr ⟨d, (List.mem_filter.1 hd).1, rfl, rfl⟩

end Edited

/-! ### What reports edit -/

variable (fs) (about : Uri → Prop)

theorem edited_register (hu : about uri) (language : String) (text : Option String) :
    Edited about s (s.register fs uri language text).1 := by
  obtain ⟨d, -, he⟩ | ⟨d, hn, hm, he⟩ | ⟨e, -, he⟩ := register_cases fs uri language text s <;> rw [he]
  · exact .deduplicate s
  · obtain ⟨l, t, rfl⟩ := make_ok hm
    exact (Edited.deduplicate s).trans (.add uri l t hu hn)
  · exact .deduplicate s

theorem edited_opened (hu : about uri) (text : String) (version : Int) :
    Edited about s (s.update uri (·.opened text version)) :=
  .update s uri _ hu (fun _ => rfl) fun _ => rfl

@[simp] theorem uri_saved (d : Document) (text : Option String) : (d.saved text).uri = d.uri := by
  cases text <;> rfl

@[simp] theorem analysis_saved (d : Document) (text : Option String) :
    (d.saved text).analysis = d.analysis := by
  cases text <;> rfl

theorem edited_withNotebook (s : Store) (notebook : Uri) :
    Edited about s (s.withNotebook notebook) := by
  simp only [withNotebook]
  split
  · exact .deduplicate s
  · exact (Edited.deduplicate s).trans (.notebooks _ _)

theorem edited_updateNotebook (s : Store) (notebook : Uri) (f : Notebook → Notebook) :
    Edited about s (s.updateNotebook notebook f) :=
  (edited_withNotebook about s notebook).trans (.notebooks _ _)

theorem edited_write (named : about uri) (language : String) (text : Option String)
    {f : Document → Document} (name : ∀ d, (f d).uri = d.uri)
    (analysis : ∀ d, (f d).analysis = d.analysis) (s : Store) :
    Edited about s (s.write fs uri language text f).1 := by
  have registered := edited_register (s := s) fs about named language text
  rw [write]
  split
  · next he =>
    rw [he] at registered
    exact registered.trans (.update _ uri f named name analysis)
  · next he =>
    rw [he] at registered
    exact registered

theorem edited_closeCell {closed : Uri} (named : about closed) (notebook : Uri) (s : Store) :
    Edited about s (closeCell notebook s closed) := by
  simp only [closeCell]
  have first := edited_withNotebook about s notebook
  split
  · exact (first.trans (edited_updateNotebook about _ _ _)).trans (.remove _ closed named)
  · exact first

/-! ### What actions edit -/

/-- The documents that an action is about. -/
def Action.names : Action → List Uri
  | .openCell cell => [cell.uri]
  | .editCell edit => [edit.uri]
  | .closeCell _ closed => [closed]
  | .revise _ _ => []

theorem edited_perform {a : Action} (named : ∀ u ∈ a.names, about u) (s : Store) :
    Edited about s (a.perform fs s).1 := by
  cases a with
  | openCell cell =>
    exact edited_write fs about (named _ List.mem_cons_self) _ _
      (f := (·.opened cell.text cell.version)) (fun _ => rfl) (fun _ => rfl) s
  | editCell edit =>
    exact edited_write fs about (named _ List.mem_cons_self) _ _
      (f := (·.changed edit.changes edit.version)) (fun _ => rfl) (fun _ => rfl) s
  | closeCell notebook closed => exact edited_closeCell about (named _ List.mem_cons_self) notebook s
  | revise notebook revision => exact edited_updateNotebook about s notebook _

variable {fs about}

theorem performAll_preserves {P : Store → Prop} {as : List Action}
    (step : ∀ a ∈ as, ∀ t, P t → P (a.perform fs t).1) (hs : P s) : P (performAll fs s as).1 := by
  induction as generalizing s with
  | nil => exact hs
  | cons a as ih =>
    have first := step a List.mem_cons_self s hs
    rw [performAll]
    split
    · next he =>
      rw [he] at first
      exact ih (fun b hb => step b (List.mem_cons_of_mem _ hb)) first
    · next he =>
      rw [he] at first
      exact first

/-- Actions edit no other documents than those that they are about. -/
theorem edited_performAll {as : List Action} (named : ∀ u ∈ as.flatMap Action.names, about u)
    (s : Store) : Edited about s (performAll fs s as).1 :=
  performAll_preserves (P := Edited about s)
    (fun a ha t ht => ht.trans
      (edited_perform fs about (fun u hu => named u (List.mem_flatMap.2 ⟨a, ha, hu⟩)) t))
    (.refl s)

/-- An edit with the names that are to be compiled, if it did not fail. -/
structure Reports (about : Uri → Prop) (s : Store) (r : Store × Except DocumentError (List Uri)) :
    Prop where
  edited : Edited about s r.1
  named : ∀ uris, r.2 = .ok uris → ∀ u ∈ uris, about u

theorem reports_report {touched : List Uri} {r : Store × Option DocumentError}
    (edited : Edited about s r.1) (named : ∀ u ∈ touched, about u) :
    Reports about s (report touched r) := by
  refine ⟨by rwa [report_fst], fun uris done => ?_⟩
  obtain ⟨-, rfl⟩ := report_ok_iff.1 (Prod.ext rfl done : report touched r = (_, .ok uris))
  exact named

theorem flatMap_names_opening (o : NotebookOpening) :
    o.actions.flatMap Action.names = o.texts.map (·.uri) := by
  simp [NotebookOpening.actions, Action.names, List.map_eq_flatMap, List.flatMap_assoc]

theorem flatMap_names_change (c : NotebookChange) :
    c.actions.flatMap Action.names = c.documents := by
  cases hc : c.splice <;> cases hd : c.data <;>
    simp [NotebookChange.actions, NotebookChange.cellActions, CellSplice.actions,
      NotebookChange.documents, Action.names, List.map_eq_flatMap, List.flatMap_assoc, hc, hd]

variable (fs) (about)

theorem reports_openNotebook (opening : NotebookOpening)
    (h : ∀ cell ∈ opening.texts, about cell.uri) (s : Store) :
    Reports about s (s.openNotebook fs opening) := by
  rw [← List.forall_mem_map] at h
  rw [openNotebook_eq]
  exact reports_report (edited_performAll (by rwa [flatMap_names_opening]) s) h

theorem reports_changeNotebook (change : NotebookChange) (h : ∀ u ∈ change.documents, about u)
    (s : Store) : Reports about s (s.changeNotebook fs change) := by
  rw [changeNotebook_eq]
  refine reports_report (edited_performAll (by rwa [flatMap_names_change]) s) fun u hu => h u ?_
  rw [NotebookChange.documents, List.append_assoc]
  exact List.mem_append_right _ hu

end Store

end LanguageServer
