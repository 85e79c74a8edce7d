import LanguageServer.Project
import LanguageServer.Proofs.Locating
import Mathlib.Data.List.Nodup

/-!
# The configuration of everything that is open

The markers of all documents are folded into a project, and then the settings. What was said first wins, so
the project can be read off the list of all that was said: nothing is repeated in it, and what says nothing,
or nothing new, can be left out of the list.

* `appendNew_eq`, `nodup_map_appendNew`, `filter_appendNew`: lists without repetition;
* `Section`, `Project.sections`, `Project.ofSections`, `Project.discover_eq`: what is said, and what is kept
  of it;
* `Project.search_eq`, `Project.exists_directory`: where markers are, and where their directories are;
* `Project.discover_without`, `Project.discover_append`: what changes nothing;
* `Project.configurations_folded`: all of them together.
-/

namespace LanguageServer

/-! ### Lists without repetition -/

section

variable {α κ : Type} [BEq κ] [LawfulBEq κ] {key : α → κ} {xs ys zs : List α}

theorem appendNew_append (same : α → α → Bool) (xs ys zs : List α) :
    appendNew same xs (ys ++ zs) = appendNew same (appendNew same xs ys) zs := List.foldl_append

theorem appendNew_cons (y : α) : appendNew (key · == key ·) xs (y :: ys) =
    appendNew (key · == key ·) (if key y ∈ xs.map key then xs else xs ++ [y]) ys := by
  have known : (xs.any (key · == key y) = true) ↔ key y ∈ xs.map key := by simp
  rw [appendNew, List.foldl_cons, ← appendNew]
  simp only [known]

/-- The items at the end of a list are compared with those before them and with each other. -/
theorem appendNew_eq : appendNew (key · == key ·) xs ys =
    xs ++ (ys.filter fun y => key y ∉ xs.map key).eraseDupsBy (key · == key ·) := by
  induction ys generalizing xs with
  | nil => simp [appendNew, List.eraseDupsBy, List.eraseDupsBy.loop]
  | cons y ys ih =>
    rw [appendNew_cons]
    split
    case isTrue old => rw [ih, List.filter_cons_of_neg (by simpa using old)]
    case isFalse new =>
      rw [ih, List.filter_cons_of_pos (by simpa using new), List.eraseDupsBy_cons, List.filter_filter,
        List.append_assoc, List.singleton_append]
      refine congrArg (fun rest => xs ++ y :: List.eraseDupsBy _ rest) (List.filter_congr fun x _ => ?_)
      by_cases same : key x = key y <;> simp [same]

theorem appendNew_nil (key : α → κ) (xs : List α) :
    appendNew (key · == key ·) [] xs = xs.eraseDupsBy (key · == key ·) := by
  rw [appendNew_eq]
  simp

theorem mem_map_appendNew {k : κ} :
    k ∈ (appendNew (key · == key ·) xs ys).map key ↔ k ∈ xs.map key ∨ k ∈ ys.map key := by
  induction ys generalizing xs with
  | nil => simp [appendNew]
  | cons y ys ih =>
    rw [appendNew_cons, ih, List.map_cons, List.mem_cons]
    split
    case isTrue old =>
      refine ⟨Or.imp_right .inr, ?_⟩
      rintro (before | same | after)
      · exact .inl before
      · exact .inl (same ▸ old)
      · exact .inr after
    case isFalse => simp [or_assoc]

theorem nodup_map_appendNew (key : α → κ) {xs ys : List α} (h : (xs.map key).Nodup) :
    ((appendNew (key · == key ·) xs ys).map key).Nodup := by
  induction ys generalizing xs with
  | nil => exact h
  | cons y ys ih =>
    rw [appendNew_cons]
    split
    case isTrue => exact ih h
    case isFalse new =>
      refine ih ?_
      rw [List.map_append, List.map_singleton]
      exact List.nodup_append_comm.1 (List.nodup_cons.2 ⟨new, h⟩)

/-- Nothing is added to a list by items that are all in it. -/
theorem appendNew_eq_self (known : ∀ y ∈ ys, key y ∈ xs.map key) :
    appendNew (key · == key ·) xs ys = xs := by
  rw [appendNew_eq, List.filter_eq_nil_iff.2 fun y mem => by simpa using known y mem]
  exact List.append_nil xs

/-- Items can be left out before as well as after, if those that are the same are left out together. -/
theorem filter_appendNew (key : α → κ) {xs ys : List α} {keep : α → Bool}
    (together : ∀ x ∈ xs ++ ys, ∀ y ∈ xs ++ ys, key x = key y → keep x = keep y) :
    (appendNew (key · == key ·) xs ys).filter keep =
      appendNew (key · == key ·) (xs.filter keep) (ys.filter keep) := by
  induction ys generalizing xs with
  | nil => rfl
  | cons y ys ih =>
    have last : y ∈ xs ++ y :: ys := by simp
    rw [appendNew_cons, List.filter_cons]
    split
    case isTrue old =>
      obtain ⟨x, mem, same⟩ := List.mem_map.1 old
      have both := together x (List.mem_append_left _ mem) y last same
      have fewer : xs ++ ys ⊆ xs ++ y :: ys := fun x mem => by simp_all [or_left_comm]
      rw [ih fun x memx z memz => together x (fewer memx) z (fewer memz)]
      split
      case isTrue kept =>
        rw [appendNew_cons, if_pos]
        exact List.mem_map.2 ⟨x, List.mem_filter.2 ⟨mem, both.trans kept⟩, same⟩
      case isFalse => rfl
    case isFalse new =>
      rw [ih (by simpa using together), List.filter_append, List.filter_singleton]
      split
      case isTrue kept =>
        have new' : key y ∉ (xs.filter keep).map key := fun mem =>
          new (List.map_subset key (List.filter_subset_self xs) mem)
        rw [appendNew_cons, if_neg new', kept, cond_true]
      case isFalse dropped => rw [Bool.eq_false_iff.2 dropped, cond_false, List.append_nil]

end

/-! ### Sections -/

/-- What is said in one place, and the directory that its directories are relative to. -/
structure Section where
  configuration : Configuration
  base : Option Path

/-- The directories that a section names. -/
def Section.directories (s : Section) : List Path :=
  s.configuration.directories.map fun d =>
    match s.base with
    | some b => b.join ⟨d⟩
    | none => ⟨d⟩

namespace Project

/-- What some sections say together: all that they say in their order, and of what is the same only the
first. -/
def ofSections (sections : List Section) : Project where
  directories := (sections.flatMap Section.directories).eraseDupsBy Path.sameAs
  imports := (sections.flatMap (·.configuration.imports)).eraseDups
  functions := (sections.flatMap (·.configuration.functions)).eraseDupsBy (·.name == ·.name)
  constants := (sections.flatMap (·.configuration.constants)).eraseDupsBy (·.name == ·.name)

/-- Nothing is in a project twice. -/
structure Distinct (p : Project) : Prop where
  directories : (p.directories.map Path.components).Nodup
  imports : p.imports.Nodup
  functions : (p.functions.map (·.name)).Nodup
  constants : (p.constants.map (·.name)).Nodup

/-- What a marker says, if it can be read. -/
def section? (fs : Files) (marker : Path) : Option Section :=
  (Configuration.load fs marker).toOption.map (⟨·, marker.parent?⟩)

/-- What all markers and the settings say that can be read. -/
def sections (fs : Files) (documents : List Uri) (settings : Json) : List Section :=
  ((documents.flatMap (search fs)).eraseDupsBy Path.sameAs).filterMap (section? fs) ++
    ((settings.find? settingsSection).bind Configuration.ofJson?).toList.map (⟨·, none⟩)

/-- The project with a section folded in. -/
def add (p : Project) (s : Section) : Project := p.merge s.configuration s.base

theorem foldl_add (p : Project) (ss : List Section) : ss.foldl add p =
    { directories := appendNew Path.sameAs p.directories (ss.flatMap Section.directories)
      imports := appendNew (· == ·) p.imports (ss.flatMap (·.configuration.imports))
      functions := appendNew (·.name == ·.name) p.functions (ss.flatMap (·.configuration.functions))
      constants := appendNew (·.name == ·.name) p.constants (ss.flatMap (·.configuration.constants)) } := by
  induction ss generalizing p with
  | nil => rfl
  | cons s ss ih =>
    rw [List.foldl_cons, ih]
    simp only [List.flatMap_cons, appendNew_append]
    rfl

theorem foldl_add_empty (ss : List Section) : ss.foldl add {} = ofSections ss := by
  rw [foldl_add, ofSections]
  congr 1
  · exact appendNew_nil Path.components _
  · exact appendNew_nil id _
  · exact appendNew_nil ExternalFunction.name _
  · exact appendNew_nil ExternalConstant.name _

theorem markers_eq (fs : Files) (documents : List Uri) :
    markers fs documents = (documents.flatMap (search fs)).eraseDupsBy Path.sameAs :=
  appendNew_nil Path.components _

/-- The settings come last. -/
theorem discover_eq_elim (fs : Files) (documents : List Uri) (settings : Json) :
    discover fs documents settings = ((settings.find? settingsSection).bind Configuration.ofJson?).elim
      (discover fs documents .null) ((discover fs documents .null).merge · none) := by
  rw [discover]
  cases (settings.find? settingsSection).bind Configuration.ofJson? <;> rfl

theorem discover_eq_foldl (fs : Files) (documents : List Uri) (settings : Json) :
    discover fs documents settings = (sections fs documents settings).foldl add {} := by
  have folded : discover fs documents .null =
      ((markers fs documents).filterMap (section? fs)).foldl add {} := by
    rw [List.foldl_filterMap]
    refine congrArg (List.foldl · _ _) (funext fun p => funext fun m => ?_)
    rw [section?]
    cases Configuration.load fs m <;> rfl
  rw [sections, List.foldl_append, ← markers_eq, ← folded, discover_eq_elim]
  cases (settings.find? settingsSection).bind Configuration.ofJson? <;> rfl

theorem discover_eq (fs : Files) (documents : List Uri) (settings : Json) :
    discover fs documents settings = ofSections (sections fs documents settings) := by
  rw [discover_eq_foldl, foldl_add_empty]

theorem distinct_foldl_add {p : Project} (h : p.Distinct) (ss : List Section) :
    (ss.foldl add p).Distinct := by
  rw [foldl_add]
  exact {
    directories := nodup_map_appendNew Path.components h.directories
    imports := by simpa using nodup_map_appendNew id (by simpa using h.imports)
    functions := nodup_map_appendNew ExternalFunction.name h.functions
    constants := nodup_map_appendNew ExternalConstant.name h.constants }

/-! ### Markers -/

variable {fs : Files} {u u' : Uri} {m m' : Path} {place : List String} {bytes : List UInt8}

/-- The name of a marker as a component. -/
def markerComponent : Path.Component := .name markerName.toList

theorem components_marker (d : Path) :
    (d.join ⟨markerName⟩).components = d.components ++ [markerComponent] :=
  Path.components_join_name d (by decide) (by decide)

theorem exists_of_mem_search (h : m ∈ search fs u) :
    ∃ d : Path, m = d.join ⟨markerName⟩ ∧ fs.isFile m = true := by
  rw [search] at h
  split at h
  · cases h
  · obtain ⟨mem, file⟩ := List.mem_filter.1 h
    obtain ⟨d, -, rfl⟩ := List.mem_map.1 mem
    exact ⟨d, rfl, file⟩

theorem isAbsolute_of_isFile (h : fs.isFile m = true) : m.isAbsolute = true := by
  by_contra relative
  simp [Files.isFile, Files.find?, Files.locate, relative] at h

/-- The markers of a document are the files among the candidates at all places above it. -/
theorem search_eq {p : Path} (h : u.toFilePath? = some p) : ∃ candidates : List Path,
    candidates.map Path.components = (Path.above p.components).map (· ++ [markerComponent]) ∧
      search fs u = candidates.filter fs.isFile := by
  refine ⟨p.ancestors.map (·.join ⟨markerName⟩), ?_, by rw [search, h]⟩
  rw [← Path.map_components_ancestors, List.map_map, List.map_map]
  exact List.map_congr_left fun d _ => components_marker d

/-- Directories that a marker names are seen from the directory that the marker is in. -/
theorem exists_directory (h : m ∈ search fs u) : ∃ b : Path, m.parent? = some b ∧
    m.components = b.components ++ [markerComponent] ∧
    ∀ d : Path, (b.join d).components =
      if d.isAbsolute then d.components else b.components ++ d.components.filter (· ≠ .here) := by
  obtain ⟨outer, rfl, file⟩ := exists_of_mem_search h
  have through := components_marker outer
  obtain ⟨b, parent, inside⟩ := Path.exists_parent? through (by decide)
  refine ⟨b, parent, by rw [through, inside], fun d => ?_⟩
  have named : b.text ≠ "" := by
    intro nowhere
    have here : outer.components = [] := by
      rw [← inside, show b = ⟨""⟩ from congrArg Path.mk nowhere]
      rfl
    have root := Path.isAbsolute_iff_head.1 (isAbsolute_of_isFile file)
    rw [through, here] at root
    cases root
  split
  case isTrue absolute => rw [Path.join, absolute, Bool.true_or, if_pos rfl]
  case isFalse relative => exact Path.components_join named (Bool.eq_false_iff.2 relative)

theorem locate_marker_congr (h : m ∈ search fs u) (h' : m' ∈ search fs u')
    (same : m.components = m'.components) : fs.locate m = fs.locate m' := by
  obtain ⟨d, rfl, -⟩ := exists_of_mem_search h
  obtain ⟨d', rfl, -⟩ := exists_of_mem_search h'
  obtain ⟨front, ends⟩ := Path.exists_pieces_join d (q := ⟨markerName⟩) (by decide)
  obtain ⟨front', ends'⟩ := Path.exists_pieces_join d' (q := ⟨markerName⟩) (by decide)
  exact Files.locate_congr (by decide) ends ends' same

/-! ### What cannot be read -/

/-- What the text of a marker says. -/
def ofText? (text : String) : Option Configuration := (Json.ofText? text).bind Configuration.ofJson?

theorem toOption_load (fs : Files) (p : Path) :
    (Configuration.load fs p).toOption = ((fs.find? p).bind Files.textIn?).bind ofText? := by
  rw [← Files.toOption_readText, Configuration.load]
  cases fs.readText p with
  | error => rfl
  | ok text =>
    cases said : (Json.ofText? text).bind Configuration.ofJson? <;> simp [Except.toOption, ofText?, said]

section

variable (file : fs.entry? place = some (.file bytes))

include file

theorem search_without (u : Uri) : search (fs.without place) u =
    (search fs u).filter fun m => (fs.locate m).toOption != some place := by
  rw [search, search]
  split
  · rfl
  · rw [List.filter_filter]
    exact List.filter_congr fun m _ => by rw [Files.isFile_without file, Bool.and_comm]

theorem markers_without (documents : List Uri) : markers (fs.without place) documents =
    (markers fs documents).filter fun m => (fs.locate m).toOption != some place := by
  have together : ∀ m ∈ documents.flatMap (search fs), ∀ m' ∈ documents.flatMap (search fs),
      m.components = m'.components →
        ((fs.locate m).toOption != some place) = ((fs.locate m').toOption != some place) := by
    intro m mem m' mem' same
    obtain ⟨u, -, found⟩ := List.mem_flatMap.1 mem
    obtain ⟨u', -, found'⟩ := List.mem_flatMap.1 mem'
    rw [locate_marker_congr found found' same]
  rw [markers, markers, funext (search_without file), ← List.filter_flatMap]
  exact Eq.symm (filter_appendNew Path.components together)

variable (malformed : (Percent.ofBytes? bytes).bind ofText? = none)

include malformed

theorem section?_of_leads (leads : (fs.locate m).toOption = some place) : section? fs m = none := by
  have found : fs.find? m = some (.file bytes) := by rw [Files.find?_eq, leads, Option.bind_some, file]
  rw [section?, toOption_load, found, Option.bind_some, Files.textIn?, malformed, Option.map_none]

theorem section?_without : section? (fs.without place) = section? fs := by
  funext m
  by_cases leads : (fs.locate m).toOption = some place
  · have gone : (fs.without place).find? m = none := by rw [Files.find?_without file, if_pos leads]
    rw [section?_of_leads file malformed leads, section?, toOption_load, gone]
    rfl
  · rw [section?, section?, toOption_load, toOption_load, Files.find?_without file, if_neg leads]

/-- A marker that cannot be read changes nothing. -/
theorem discover_without (documents : List Uri) (settings : Json) :
    discover (fs.without place) documents settings = discover fs documents settings := by
  have left : (markers (fs.without place) documents).filterMap (section? (fs.without place)) =
      (markers fs documents).filterMap (section? fs) := by
    rw [section?_without file malformed, markers_without file, List.filterMap_filter]
    refine List.filterMap_congr fun m _ => ?_
    by_cases leads : (fs.locate m).toOption = some place
    · rw [section?_of_leads file malformed leads, ite_self]
    · rw [if_pos (bne_iff_ne.2 leads)]
  rw [discover_eq, discover_eq, sections, sections, ← markers_eq, ← markers_eq, left]

end

/-- A document changes nothing if its markers are all among those of the others. -/
theorem discover_append (documents : List Uri) (u : Uri) (settings : Json)
    (covered : ∀ m ∈ search fs u, ∃ m' ∈ documents.flatMap (search fs), m'.sameAs m = true) :
    discover fs (documents ++ [u]) settings = discover fs documents settings := by
  have known : ∀ m ∈ search fs u, m.components ∈ (markers fs documents).map Path.components := by
    intro m mem
    obtain ⟨m', mem', same⟩ := covered m mem
    exact mem_map_appendNew.2 (.inr (List.mem_map.2 ⟨m', mem', beq_iff_eq.1 same⟩))
  have none : markers fs (documents ++ [u]) = markers fs documents := by
    rw [markers, List.flatMap_append, List.flatMap_singleton, appendNew_append]
    exact appendNew_eq_self known
  rw [discover_eq, discover_eq, sections, sections, ← markers_eq, ← markers_eq, none]

theorem discover_settings (fs : Files) (documents : List Uri) (settings : Json)
    (malformed : (settings.find? settingsSection).bind Configuration.ofJson? = none) :
    discover fs documents settings = discover fs documents .null := by
  rw [discover_eq_elim, malformed, Option.elim_none]

/-- The configuration of everything that is open repeats nothing, and says what the markers and the settings
say that can be read: the markers of the documents in turn, each once and the nearest first, and then the
settings. Of what is said more than once the first counts. What cannot be read changes nothing, and neither
does a document whose markers are those of others. -/
theorem configurations_folded (fs : Files) (documents : List Uri) (settings : Json) :
    (discover fs documents settings).Distinct ∧
    discover fs documents settings = ofSections (sections fs documents settings) ∧
    (∀ u, u.toFilePath? = none → search fs u = []) ∧
    (∀ u p, u.toFilePath? = some p → ∃ candidates : List Path,
      candidates.map Path.components = (Path.above p.components).map (· ++ [markerComponent]) ∧
      search fs u = candidates.filter fs.isFile) ∧
    (∀ u, ∀ m ∈ search fs u, ∃ b : Path,
      m.parent? = some b ∧ m.components = b.components ++ [markerComponent] ∧
      ∀ d : Path, (b.join d).components =
        if d.isAbsolute then d.components else b.components ++ d.components.filter (· ≠ .here)) ∧
    (∀ place bytes, fs.entry? place = some (.file bytes) → (Percent.ofBytes? bytes).bind ofText? = none →
      discover (fs.without place) documents settings = discover fs documents settings) ∧
    ((settings.find? settingsSection).bind Configuration.ofJson? = none →
      discover fs documents settings = discover fs documents .null) ∧
    (∀ u, (∀ m ∈ search fs u, ∃ m' ∈ documents.flatMap (search fs), m'.sameAs m = true) →
      discover fs (documents ++ [u]) settings = discover fs documents settings) := by
  refine ⟨?_, discover_eq fs documents settings, ?_, fun _ _ => search_eq, fun _ _ => exists_directory,
    ?_, ?_, ?_⟩
  · have empty : Distinct {} := ⟨List.nodup_nil, List.nodup_nil, List.nodup_nil, List.nodup_nil⟩
    rw [discover_eq_foldl]
    exact distinct_foldl_add empty _
  · intro u other
    rw [search, other]
  · exact fun _ _ file malformed => discover_without file malformed documents settings
  · exact discover_settings fs documents settings
  · exact fun u => discover_append documents u settings

/-- A marker that is not written to its end. -/
def Sample.unfinished : List UInt8 := "\x7b \"additionalImports\": [".toUTF8.toList

/-- A marker above the sources, and an unfinished one beside them. -/
def Sample.tree : Files := .withParents [
  (["p", "bblang.json"], .file
    "\x7b \"extraDirectories\": [\"lib\", \"./lib\"], \"additionalImports\": [\"std\"] \x7d".toUTF8.toList),
  (["p", "src", "bblang.json"], .file unfinished)]

/-- Settings in which the section is not a configuration. -/
def Sample.settings : Json := .obj [(settingsSection, .str "std")]

theorem nested_configurations_folded :
    let a : Uri := ⟨"file:///p/src/a.bbc"⟩
    let b : Uri := ⟨"file:///p/src/./b.bbc"⟩
    search Sample.tree ⟨"untitled:1"⟩ = [] ∧
    (∃ candidates : List Path,
      candidates.map Path.components =
        (Path.above (Path.components ⟨b.path⟩)).map (· ++ [markerComponent]) ∧
      search Sample.tree b = candidates.filter Sample.tree.isFile) ∧
    (∃ d : Path, Path.parent? ⟨"/p/bblang.json"⟩ = some d ∧
      (d.join ⟨"./lib"⟩).components = d.components ++ [.name "lib".toList]) ∧
    discover Sample.tree [a] Sample.settings = { directories := [⟨"/p/lib"⟩], imports := ["std"] } ∧
    discover (Sample.tree.without ["p", "src", "bblang.json"]) [a] Sample.settings =
      discover Sample.tree [a] Sample.settings ∧
    discover Sample.tree [a] Sample.settings = discover Sample.tree [a] .null ∧
    discover Sample.tree ([a] ++ [b]) Sample.settings = discover Sample.tree [a] Sample.settings := by
  intro a b
  obtain ⟨-, -, other, named, inside, away, unset, covered⟩ :=
    configurations_folded Sample.tree [a] Sample.settings
  refine ⟨other _ (by decide +kernel), named b _ (by decide +kernel), ?_, by decide +kernel, ?_, ?_, ?_⟩
  · obtain ⟨d, parent, -, seen⟩ := inside a ⟨"/p/bblang.json"⟩ (by decide +kernel)
    exact ⟨d, parent, seen ⟨"./lib"⟩⟩
  · exact away ["p", "src", "bblang.json"] Sample.unfinished (by decide +kernel) (by decide +kernel)
  · exact unset (by decide +kernel)
  · exact covered b (by decide +kernel)

end Project

end LanguageServer
