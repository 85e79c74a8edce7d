import LanguageServer.Feature.References
import LanguageServer.Proofs.Tables
import Mathlib.Data.List.Induction
import Mathlib.Data.List.Nodup

/-!
# Which uses of a definition are listed

A place is a span in a file. Of the uses that a compilation found, those are listed whose span is new; so
of two uses at the same span of two files only the first one is.

* `distinctPlaces`: the places that are used, each once;
* `distinctSites_sublist`, `nodup_ranges`: which of them are listed;
* `SpansApart`: no two files use a definition at the same span;
* `Snapshot.usesAt`: the uses of what stands under a position;
* `uses_complete_iff`: when all places are listed and counted.
-/

namespace LanguageServer

variable {sites : List ReferenceSite} {site : ReferenceSite}

/-! ### Places -/

/-- The places that are used, each once, in the order of their first uses. A use without a file is at no
place. -/
def distinctPlaces (sites : List ReferenceSite) : List ReferenceSite :=
  (sites.filter (·.file.isSome)).eraseDups

/-- No two files use the definition at the same span. -/
def SpansApart (sites : List ReferenceSite) : Prop :=
  ∀ a ∈ sites, ∀ b ∈ sites, a.file.isSome → b.file.isSome → a.range = b.range → a.file = b.file

instance (sites : List ReferenceSite) : Decidable (SpansApart sites) :=
  inferInstanceAs (Decidable (∀ a ∈ sites, ∀ b ∈ sites,
    a.file.isSome → b.file.isSome → a.range = b.range → a.file = b.file))

theorem mem_distinctPlaces : site ∈ distinctPlaces sites ↔ site ∈ sites ∧ site.file.isSome := by
  rw [distinctPlaces, List.mem_eraseDups, List.mem_filter]

theorem distinctPlaces_concat (sites : List ReferenceSite) (site : ReferenceSite) :
    distinctPlaces (sites ++ [site]) =
      if site.file.isSome ∧ site ∉ sites then distinctPlaces sites ++ [site]
      else distinctPlaces sites := by
  rw [distinctPlaces, List.filter_append, List.eraseDups_append]
  by_cases placed : site.file.isSome
  · by_cases old : site ∈ sites
    · have same : [site].removeAll (sites.filter (·.file.isSome)) = [] := by
        simp [List.removeAll, old, Option.isSome_iff_ne_none.1 placed]
      simp [distinctPlaces, placed, old, same]
    · have new : [site].removeAll (sites.filter (·.file.isSome)) = [site] := by
        simp [List.removeAll, old]
      have one : [site].eraseDups = [site] := rfl
      simp [distinctPlaces, placed, old, new, one]
  · simp [distinctPlaces, placed]

/-! ### The uses that are listed -/

theorem distinctSites_concat (sites : List ReferenceSite) (site : ReferenceSite) :
    distinctSites (sites ++ [site]) =
      if site.file.isSome ∧ ∀ seen ∈ distinctSites sites, seen.range ≠ site.range then
        distinctSites sites ++ [site]
      else distinctSites sites := by
  have passed : (site.file.isNone || (distinctSites sites).any (·.range == site.range)) = true ↔
      ¬ (site.file.isSome ∧ ∀ seen ∈ distinctSites sites, seen.range ≠ site.range) := by
    cases site.file <;> simp
  conv_lhs => rw [distinctSites, List.foldl_append, ← distinctSites]
  rw [List.foldl_cons, List.foldl_nil]
  simp only [passed, ite_not]

/-- A use at a place has its span among those that are listed. -/
theorem exists_mem_distinctSites (hs : site ∈ sites) (placed : site.file.isSome) :
    ∃ listed ∈ distinctSites sites, listed.range = site.range := by
  induction sites using List.reverseRecOn with
  | nil => cases hs
  | append_singleton sites last ih =>
    rw [distinctSites_concat]
    rcases List.mem_append.1 hs with old | new
    · obtain ⟨listed, mem, same⟩ := ih old
      split
      · exact ⟨listed, List.mem_append_left _ mem, same⟩
      · exact ⟨listed, mem, same⟩
    · obtain rfl := List.mem_singleton.1 new
      split
      · exact ⟨site, by simp, rfl⟩
      · next seen =>
        by_contra unlisted
        exact seen ⟨placed, fun listed mem same => unlisted ⟨listed, mem, same⟩⟩

/-- The uses that are listed are places, each once and in their order. -/
theorem distinctSites_sublist (sites : List ReferenceSite) :
    (distinctSites sites).Sublist (distinctPlaces sites) := by
  induction sites using List.reverseRecOn with
  | nil => exact List.Sublist.refl _
  | append_singleton sites last ih =>
    rw [distinctSites_concat, distinctPlaces_concat]
    by_cases old : last.file.isSome ∧ last ∉ sites
    · rw [if_pos old]
      split
      · exact ih.append (List.Sublist.refl _)
      · exact ih.trans (List.sublist_append_left _ _)
    · rw [if_neg old, if_neg]
      · exact ih
      · rintro ⟨placed, new⟩
        -- the span of a use that was there before is among those that are listed
        have before : last ∈ sites := by_contra fun h => old ⟨placed, h⟩
        obtain ⟨listed, mem, same⟩ := exists_mem_distinctSites before placed
        exact new listed mem same

/-- No span is listed twice. -/
theorem nodup_ranges (sites : List ReferenceSite) :
    ((distinctSites sites).map (·.range)).Nodup := by
  induction sites using List.reverseRecOn with
  | nil => exact List.nodup_nil
  | append_singleton sites last ih =>
    rw [distinctSites_concat]
    split
    · next new =>
      rw [List.map_append]
      refine ih.append (List.nodup_singleton _) (List.disjoint_singleton.2 fun h => ?_)
      obtain ⟨seen, mem, same⟩ := List.mem_map.1 h
      exact new.2 seen mem same
    · exact ih

/-- All places are listed if no two of them have the same span. -/
theorem SpansApart.distinctSites_eq (h : SpansApart sites) :
    distinctSites sites = distinctPlaces sites := by
  induction sites using List.reverseRecOn with
  | nil => rfl
  | append_singleton sites last ih =>
    have same := ih fun a ha b hb => h a (List.mem_append_left _ ha) b (List.mem_append_left _ hb)
    rw [distinctSites_concat, distinctPlaces_concat, same]
    congr 1
    refine propext (and_congr_right fun placed => ⟨fun new old => ?_, fun new seen hs range => ?_⟩)
    · exact new last (mem_distinctPlaces.2 ⟨old, placed⟩) rfl
    · obtain ⟨old, placed'⟩ := mem_distinctPlaces.1 hs
      have file := h seen (List.mem_append_left _ old) last (by simp) placed' placed range
      obtain rfl : seen = last := by
        cases seen
        cases last
        simp_all
      exact new old

/-- As many uses are listed as there are places exactly if no two of these have the same span. -/
theorem length_distinctSites_eq_iff :
    (distinctSites sites).length = (distinctPlaces sites).length ↔ SpansApart sites := by
  constructor
  · intro count a ha b hb placed placed' range
    have all := (distinctSites_sublist sites).eq_of_length count
    have mem {site : ReferenceSite} (hs : site ∈ sites) (placed : site.file.isSome) :
        site ∈ distinctSites sites := all ▸ mem_distinctPlaces.2 ⟨hs, placed⟩
    exact congrArg (·.file) (List.inj_on_of_nodup_map (nodup_ranges sites) (mem ha placed)
      (mem hb placed') range)
  · intro apart
    rw [apart.distinctSites_eq]

/-! ### What the editor is told -/

/-- The uses of what stands under a position: of a function, and of a struct. -/
def Snapshot.usesAt (s : Snapshot) (p : Position) : List (List ReferenceSite) :=
  ((s.program.functionAt? s.uri p [.function, .general, .operator]).map (·.2.sites)).toList ++
    ((s.program.structAt? s.uri p).map (·.2.sites)).toList

theorem references_eq (s : Snapshot) (p : Position) :
    references s p = (s.usesAt p).flatMap fun sites =>
      (distinctSites sites).filterMap (·.location?) := by
  rw [references, Snapshot.usesAt]
  cases s.program.functionAt? s.uri p [.function, .general, .operator] <;>
    cases s.program.structAt? s.uri p <;>
    simp

/-- **Which uses are listed.** All places where a function or a struct is used are listed, and all of them
are counted, exactly if no two files use it at the same span. -/
theorem uses_complete_iff (sites : List ReferenceSite) :
    (distinctSites sites = distinctPlaces sites ∧
      (∀ s p, sites ∈ Snapshot.usesAt s p →
        (distinctPlaces sites).filterMap (·.location?) <:+: references s p) ∧
      ∀ range, (usesLens range sites).title =
        toString (distinctPlaces sites).length ++ " reference") ↔ SpansApart sites := by
  constructor
  · rintro ⟨all, -, -⟩
    exact length_distinctSites_eq_iff.1 (congrArg List.length all)
  · intro apart
    have all := apart.distinctSites_eq
    refine ⟨all, fun s p under => ?_, fun range => ?_⟩
    · rw [references_eq, ← all]
      obtain ⟨before, after, uses⟩ := List.append_of_mem under
      rw [uses, List.flatMap_append, List.flatMap_cons]
      exact ⟨_, _, List.append_assoc .. ⟩
    · rw [usesLens, all]

/-! ### Uses in two files -/

namespace Sample

/-- A function that the main file declares, with its uses. -/
def usedAt (sites : List ReferenceSite) : Snapshot :=
  .single mainFile none { program := { functions := [{ declared mainFile "first" with sites }] } }

/-- A use in the first columns of a line. -/
def useIn (file : Option Uri) (line : Nat) : ReferenceSite := ⟨⟨⟨line, 0⟩, ⟨line, 5⟩⟩, file⟩

/-- Uses in two files at different spans, one of them found twice and one without a file. -/
def scattered : List ReferenceSite :=
  [useIn (some importedFile) 3, useIn none 4, useIn (some mainFile) 4, useIn (some importedFile) 3]

/-- Uses in two files at the same span. -/
def aligned : List ReferenceSite := [useIn (some mainFile) 3, useIn (some importedFile) 3]

end Sample

open Sample in
/-- The case of uses in two files at different spans. -/
theorem scattered_uses_listed :
    SpansApart scattered ∧ scattered ∈ (usedAt scattered).usesAt ⟨0, 0⟩ ∧
      [⟨importedFile, ⟨⟨3, 0⟩, ⟨3, 5⟩⟩⟩, ⟨mainFile, ⟨⟨4, 0⟩, ⟨4, 5⟩⟩⟩] <:+:
        references (usedAt scattered) ⟨0, 0⟩ := by
  have apart : SpansApart scattered := by decide +kernel
  have under : scattered ∈ (usedAt scattered).usesAt ⟨0, 0⟩ := by decide +kernel
  have places : (distinctPlaces scattered).filterMap (·.location?) =
      [⟨importedFile, ⟨⟨3, 0⟩, ⟨3, 5⟩⟩⟩, ⟨mainFile, ⟨⟨4, 0⟩, ⟨4, 5⟩⟩⟩] := by decide +kernel
  exact ⟨apart, under, places ▸ ((uses_complete_iff scattered).2 apart).2.1 _ _ under⟩

open Sample in
/-- Of two uses at the same span of two files one is lost: it is not listed, and not counted. -/
theorem use_in_other_file_lost :
    aligned ∈ (usedAt aligned).usesAt ⟨0, 0⟩ ∧ distinctPlaces aligned = aligned ∧
      distinctSites aligned = [useIn (some mainFile) 3] ∧
      references (usedAt aligned) ⟨0, 0⟩ = [⟨mainFile, ⟨⟨3, 0⟩, ⟨3, 5⟩⟩⟩] ∧
      (lenses (usedAt aligned)).map (·.title) = ["1 reference"] := by
  decide +kernel

end LanguageServer
