import LanguageServer.Feature.SignatureHelp
import LanguageServer.Proofs.Tables
import Mathlib.Data.List.Forall2

/-!
# Names in labels

The label of a function is put together piece by piece, and the places of the names of its parameters are
taken down on the way. They are still the places of these names when the label is complete.

* `Text.not_splitsPair`: a part of a text starts and ends between characters;
* `LabelSpan.slice`, `LabelSpan.Names`: what stands at a place in a text, and that it is a name;
* `LabelSpan.Marks`: a place where a name was put;
* `LabelParts.addParameter?`, `labelSpans?`: the places in words;
* `LabelParts.Records`: what is taken down while parameters are added;
* `Records.addParameter`, `Records.foldl`: one parameter more, and all of them;
* `label_names_parameters`: the names in a complete label.
-/

namespace LanguageServer

namespace Text

variable {c : Char} {u : Nat}

/-- No character has the number of a surrogate, and a pair ends with its low one. -/
theorem isHighSurrogate_of_mem_getLast? (h : u ∈ (encodeChar c).getLast?) : isHighSurrogate u = false := by
  have valid : c.toNat < 0xD800 ∨ 0xDFFF < c.toNat ∧ c.toNat < 0x110000 := c.valid
  suffices outside : ¬ (0xD800 ≤ u ∧ u < 0xDC00) by simpa [isHighSurrogate] using outside
  unfold encodeChar at h
  split at h
  · obtain rfl : c.toNat = u := by simpa using h
    omega
  · obtain rfl : 0xDC00 + (c.toNat - 0x10000) % 0x400 = u := by simpa using h
    omega

/-- A text does not end with the first code unit of a pair. -/
theorem any_getLast?_codeUnits (s : String) : (codeUnits s).getLast?.any isHighSurrogate = false := by
  rw [codeUnits, List.getLast?_flatMap]
  cases last : s.toList.reverse.findSome? fun c => (encodeChar c).getLast? with
  | none => rfl
  | some u =>
    obtain ⟨c, -, ends⟩ := List.exists_of_findSome?_eq_some last
    exact isHighSurrogate_of_mem_getLast? ends

theorem take_codeUnits (s t : String) : (codeUnits (s ++ t)).take (units16 s) = codeUnits s := by
  rw [codeUnits_append, ← length_codeUnits, List.take_left]

theorem drop_codeUnits (s t : String) : (codeUnits (s ++ t)).drop (units16 s) = codeUnits t := by
  rw [codeUnits_append, ← length_codeUnits, List.drop_left]

/-- The end of the first part of a text is between characters. -/
theorem not_splitsPair (s t : String) : splitsPair (codeUnits (s ++ t)) (units16 s) = false := by
  rw [splitsPair, take_codeUnits, any_getLast?_codeUnits, Bool.false_and]

theorem units16_eq_zero {s : String} (h : units16 s = 0) : s = "" := by
  rw [units16] at h
  cases chars : s.toList with
  | nil => exact String.toList_eq_nil_iff.1 chars
  | cons c cs =>
    have pos := unitSize_pos c
    rw [chars, unitsOf_cons] at h
    omega

end Text

variable {text name : String} {span : LabelSpan} {l : LabelParts} {p : CompiledParameter}
  {ps qs : List CompiledParameter}

/-! ### Places in a text -/

/-- The code units of a text from the first one of a place to the one after its last. -/
def LabelSpan.slice (text : String) (span : LabelSpan) : List Nat :=
  ((Text.codeUnits text).take span.2).drop span.1

/-- A place in a text is that of a name, and does not cut characters in two. -/
structure LabelSpan.Names (text name : String) (span : LabelSpan) : Prop where
  slice : span.slice text = Text.codeUnits name
  ordered : span.1 ≤ span.2
  inside : span.2 ≤ Text.units16 text
  whole_start : Text.splitsPair (Text.codeUnits text) span.1 = false
  whole_stop : Text.splitsPair (Text.codeUnits text) span.2 = false

/-- A place in a text is where a name was put. -/
def LabelSpan.Marks (text name : String) (span : LabelSpan) : Prop :=
  ∃ before after, text = before ++ name ++ after ∧
    span = (Text.units16 before, Text.units16 before + Text.units16 name)

namespace LabelSpan.Marks

/-- A text that goes on keeps its places. -/
theorem append (h : LabelSpan.Marks text name span) (more : String) :
    LabelSpan.Marks (text ++ more) name span := by
  obtain ⟨before, after, rfl, place⟩ := h
  exact ⟨before, after ++ more, String.append_assoc .., place⟩

/-- A place where a name was put is that of the name. -/
theorem names (h : LabelSpan.Marks text name span) : LabelSpan.Names text name span := by
  obtain ⟨before, after, rfl, rfl⟩ := h
  refine ⟨?_, Nat.le_add_right _ _, by simp, ?_, ?_⟩
  · rw [LabelSpan.slice, ← Text.units16_append, Text.take_codeUnits, Text.drop_codeUnits]
  · rw [String.append_assoc]
    exact Text.not_splitsPair ..
  · rw [← Text.units16_append]
    exact Text.not_splitsPair ..

/-- A name that is not empty has a place that is not. -/
theorem lt (h : LabelSpan.Marks text name span) (filled : name ≠ "") : span.1 < span.2 := by
  obtain ⟨before, after, rfl, rfl⟩ := h
  exact Nat.lt_add_of_pos_right (Nat.pos_of_ne_zero fun none => filled (Text.units16_eq_zero none))

end LabelSpan.Marks

/-! ### Adding parameters -/

namespace LabelParts

/-- The text of a label up to the name of the next parameter. -/
def upTo (l : LabelParts) (p : CompiledParameter) : String :=
  l.text ++ (if l.spans.isEmpty then "" else ", ") ++
    (if p.definition.isByReference then "ref " else "") ++ p.type.display ++ " "

/-- The label with one more parameter, whose place is taken down in words. -/
def addParameter? (l : LabelParts) (p : CompiledParameter) : Option LabelParts := do
  let name := p.definition.name.content
  let start := Word.ofCount (Text.units16 (l.upTo p))
  let stop ← Word.add? start (Word.ofCount (Text.units16 name))
  some ⟨l.upTo p ++ name, l.spans ++ [(start, stop)]⟩

theorem addParameter_eq (l : LabelParts) (p : CompiledParameter) :
    l.addParameter p =
      ⟨l.upTo p ++ p.definition.name.content, l.spans ++ [(Text.units16 (l.upTo p),
        Text.units16 (l.upTo p) + Text.units16 p.definition.name.content)]⟩ := rfl

theorem exists_upTo (l : LabelParts) (p : CompiledParameter) :
    ∃ more, l.upTo p = l.text ++ more ∧ 0 < Text.units16 more := by
  refine ⟨_, by rw [upTo, String.append_assoc, String.append_assoc, String.append_assoc], ?_⟩
  have blank : Text.units16 " " = 1 := rfl
  simp only [Text.units16_append, blank]
  omega

theorem units16_text_lt (l : LabelParts) (p : CompiledParameter) :
    Text.units16 l.text < Text.units16 (l.upTo p) := by
  obtain ⟨more, text, pos⟩ := l.exists_upTo p
  rw [text, Text.units16_append]
  omega

theorem units16_upTo_le (l : LabelParts) (p : CompiledParameter) :
    Text.units16 (l.upTo p) + Text.units16 p.definition.name.content =
      Text.units16 (l.addParameter p).text := by
  rw [addParameter_eq, Text.units16_append]

theorem units16_foldl_le (l : LabelParts) (ps : List CompiledParameter) :
    Text.units16 l.text ≤ Text.units16 (ps.foldl addParameter l).text := by
  induction ps generalizing l with
  | nil => exact Nat.le_refl _
  | cons p ps ih =>
    have next := l.units16_text_lt p
    have whole := l.units16_upTo_le p
    have rest := ih (l.addParameter p)
    rw [List.foldl_cons]
    omega

/-- Words hold the places in a label that is short enough. -/
theorem foldlM_addParameter? (l : LabelParts) (ps : List CompiledParameter)
    (short : Text.units16 (ps.foldl addParameter l).text < Word.size) :
    ps.foldlM addParameter? l = some (ps.foldl addParameter l) := by
  induction ps generalizing l with
  | nil => rfl
  | cons p ps ih =>
    rw [List.foldl_cons] at short
    have rest := units16_foldl_le (l.addParameter p) ps
    have whole := l.units16_upTo_le p
    have added : l.addParameter? p = some (l.addParameter p) := by
      rw [addParameter?, Word.ofCount_of_lt (by omega), Word.ofCount_of_lt (by omega),
        Word.add?_of_lt (by omega), addParameter_eq]
      rfl
    rw [List.foldlM_cons, added, List.foldl_cons]
    exact ih _ short

/-- What is taken down while parameters are added: the places of their names, one after the other. -/
structure Records (l : LabelParts) (ps : List CompiledParameter) : Prop where
  marks : List.Forall₂ (fun p span => LabelSpan.Marks l.text p.definition.name.content span) ps l.spans
  apart : l.spans.Pairwise fun a b => a.2 < b.1
  inside : ∀ span ∈ l.spans, span.2 ≤ Text.units16 l.text

namespace Records

/-- A parameter is put after everything that is there. -/
theorem addParameter (h : Records l ps) (p : CompiledParameter) :
    Records (l.addParameter p) (ps ++ [p]) := by
  obtain ⟨more, text, -⟩ := l.exists_upTo p
  have next := l.units16_text_lt p
  have whole := l.units16_upTo_le p
  refine ⟨List.rel_append ?_ (.cons ?_ .nil),
    List.pairwise_append.2 ⟨h.apart, List.pairwise_singleton .., ?_⟩, ?_⟩
  · refine h.marks.imp fun q span marks => ?_
    rw [addParameter_eq, text, String.append_assoc]
    exact marks.append _
  · exact ⟨l.upTo p, "", (String.append_empty ..).symm, rfl⟩
  · intro span mem last there
    obtain rfl := List.mem_singleton.1 there
    exact Nat.lt_of_le_of_lt (h.inside span mem) next
  · intro span mem
    rcases List.mem_append.1 mem with old | new
    · have before := h.inside span old
      omega
    · obtain rfl := List.mem_singleton.1 new
      exact Nat.le_of_eq whole

theorem foldl (h : Records l ps) (qs : List CompiledParameter) :
    Records (qs.foldl LabelParts.addParameter l) (ps ++ qs) := by
  induction qs generalizing l ps with
  | nil =>
    rw [List.append_nil]
    exact h
  | cons q qs ih =>
    rw [List.foldl_cons, List.append_cons]
    exact ih (h.addParameter q)

end Records

end LabelParts

/-! ### The complete label -/

/-- The places of the names of the parameters that a label shows, in words. -/
def labelSpans? (f : CompiledFunction) : Option (List LabelSpan) :=
  ((shownParameters f).foldlM LabelParts.addParameter? ⟨labelHead f, []⟩).map (·.spans)

theorem records_signature (f : CompiledFunction) :
    LabelParts.Records ((shownParameters f).foldl LabelParts.addParameter ⟨labelHead f, []⟩)
      (shownParameters f) := by
  have nothing : LabelParts.Records ⟨labelHead f, []⟩ [] := ⟨.nil, .nil, by simp⟩
  exact nothing.foldl (shownParameters f)

/-- **Names in labels.** A signature has one place for each parameter that is no receiver, in their order.
What stands there in the label is the name of the parameter: the place lies in the label, cuts no character
in two, is empty only if the name is, and ends before the next one starts. If words can count the code units
of the label, they hold all places. -/
theorem label_names_parameters (s : Snapshot) (active : Nat) (f : CompiledFunction)
    (short : Text.units16 (signature s active f).label < Word.size) :
    labelSpans? f = some (signature s active f).parameters ∧
    List.Forall₂
      (fun p span => LabelSpan.Names (signature s active f).label p.definition.name.content span ∧
        (p.definition.name.content ≠ "" → span.1 < span.2))
      (f.parameters.filter (!·.definition.isReceiver)) (signature s active f).parameters ∧
    (signature s active f).parameters.Pairwise fun a b => a.2 < b.1 := by
  have records := records_signature f
  refine ⟨?_, records.marks.imp fun p span marks => ?_, records.apart⟩
  · rw [signature, Text.units16_append] at short
    rw [labelSpans?, LabelParts.foldlM_addParameter? _ _ (by omega)]
    rfl
  · exact ⟨(marks.append ")").names, (marks.append ")").lt⟩

namespace Sample

/-- A parameter with a builtin type. -/
def parameter (modifiers : List String) (type : BuiltinType) (name : String) : CompiledParameter :=
  ⟨⟨modifiers.map word, .named (word type.keyword) default, word name, default⟩, .builtin type⟩

/-- A method of characters with a template parameter, whose parameters have names outside the basic plane,
of one letter, and of none. -/
def measuring : CompiledFunction :=
  let parameters := [parameter ["this"] .char "self", parameter ["ref"] .int "😀x", parameter [] .float "b",
    parameter [] .any ""]
  let f := declared mainFile "größe"
  { f with
    definition :=
      { f.definition with template := some [word "T"], parameters := parameters.map (·.definition) }
    parameters }

/-- The signature of that method, with the first parameter active. -/
def measured : Signature := signature (.single mainFile none {}) 0 measuring

end Sample

open Sample in
/-- The case of names outside the basic plane, of a receiver, and of a parameter without a name. -/
theorem measuring_parameters_named :
    Text.units16 measured.label < Word.size ∧
      measured.label = "void char.größe<T>(ref int 😀x, float b, any )" ∧
      labelSpans? measuring = some [(27, 30), (38, 39), (45, 45)] ∧
      LabelSpan.Names measured.label "😀x" (27, 30) ∧ LabelSpan.Names measured.label "b" (38, 39) ∧
      LabelSpan.Names measured.label "" (45, 45) := by
  have short : Text.units16 measured.label < Word.size := by decide +kernel
  have spans : measured.parameters = [(27, 30), (38, 39), (45, 45)] := by decide +kernel
  obtain ⟨words, named, -⟩ := label_names_parameters _ _ measuring short
  change labelSpans? measuring = some measured.parameters at words
  change List.Forall₂ _ _ measured.parameters at named
  rw [spans] at words named
  obtain ⟨first, named⟩ := List.forall₂_cons.1 named
  obtain ⟨second, named⟩ := List.forall₂_cons.1 named
  obtain ⟨third, -⟩ := List.forall₂_cons.1 named
  exact ⟨short, by decide +kernel, words, first.1, second.1, third.1⟩

end LanguageServer
