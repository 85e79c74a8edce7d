import LanguageServer.Proofs.Coding
import LanguageServer.Uri.Grammar
import Mathlib.Data.List.TakeWhile

/-!
# The names of files

The name of a file is its path in coded form after a scheme and an authority with nothing in it. Its parts
are found again, whatever the path holds, so that no two files share a name.

* `Layout`, `Layout.scheme?_uri`, `Layout.parts_uri`: a name with an authority, and its parts;
* `mem_encodePath`, `allCoded_flatMap_encodePathChar`: which characters a coded path has;
* `fileLayout`, `ofFilePath_eq`: how the name of a file is laid out;
* `isValid_ofFilePath`, `toFilePath?_ofFilePath`: it may be sent to the editor, and stands for its path;
* `file_name_round_trip`: no two files share a name.
-/

namespace LanguageServer.Uri

/-! ### Names with an authority -/

/-- The start of a text that is of a class, if the rest starts with something that is not. -/
theorem takeWhile_append_eq {p : Char → Bool} {xs ys : List Char} (h : ∀ c ∈ xs, p c = true)
    (stop : ∀ c ∈ ys.head?, p c = false) : (xs ++ ys).takeWhile p = xs := by
  rw [List.takeWhile_append_of_pos h]
  cases ys with
  | nil => exact List.append_nil xs
  | cons c cs =>
    have ends : ¬p c = true := by simp [stop c rfl]
    rw [List.takeWhile_cons_of_neg ends, List.append_nil]

/-- The characters of a text are other ones than one that it does not have. -/
theorem bne_of_not_mem {d : Char} {cs : List Char} (h : d ∉ cs) : ∀ c ∈ cs, (c != d) = true := by
  intro c hc
  refine bne_iff_ne.2 ?_
  rintro rfl
  exact h hc

/-- A name with an authority, in parts. The path is empty or starts with a separator; a query or a
fragment is in the tail, with its mark. -/
structure Layout where
  scheme : List Char
  authority : List Char
  path : List Char
  tail : List Char
  lettered : ∃ c ∈ scheme.head?, c.isAlpha = true
  spelled : ∀ c ∈ scheme, isSchemeChar c = true
  unended : ∀ c ∈ authority, endsAuthority c = false
  rooted : ∀ c ∈ path.head?, c = '/'
  unmarked : ∀ c ∈ path, endsPath c = false
  marked : ∀ c ∈ tail.head?, endsPath c = true

theorem marked_nil : ∀ c ∈ ([] : List Char).head?, endsPath c = true := by simp

namespace Layout

/-- The scheme and the authority, with what stands around them. -/
def head (l : Layout) : List Char := l.scheme ++ [':', '/', '/'] ++ l.authority

/-- The name. -/
def uri (l : Layout) : Uri := ⟨String.ofList (l.head ++ (l.path ++ l.tail))⟩

variable (l : Layout)

/-- What starts a path or ends it also ends an authority. -/
theorem endsAuthority_head : ∀ c ∈ (l.path ++ l.tail).head?, endsAuthority c = true := by
  intro c hc
  rw [List.head?_append] at hc
  cases first : l.path.head? with
  | some d =>
    obtain rfl : d = c := by simpa [first] using hc
    rw [l.rooted d first]
    rfl
  | none =>
    have mark := l.marked c (by simpa [first] using hc)
    unfold endsPath at mark
    unfold endsAuthority
    rw [Bool.or_assoc, mark, Bool.or_true]

theorem isScheme_of_long (long : 1 < l.scheme.length) : isScheme l.scheme = true := by
  obtain ⟨c, first, letter⟩ := l.lettered
  have spelled := l.spelled
  match named : l.scheme, first with
  | [c], _ => simp [named] at long
  | c :: d :: rest, rfl =>
    rw [named] at spelled
    rw [isScheme, letter, Bool.true_and, List.all_eq_true]
    exact fun e he => spelled e (List.mem_cons_of_mem _ he)

/-- A scheme of two characters or more is found again. -/
theorem splitScheme?_eq (long : 1 < l.scheme.length) :
    splitScheme? l.uri.text.toList =
      some (l.scheme, '/' :: '/' :: (l.authority ++ (l.path ++ l.tail))) := by
  have colon : isSchemeChar ':' = false := by decide
  have unbroken : ':' ∉ l.scheme := by
    intro hc
    exact absurd (l.spelled _ hc) (by simp [colon])
  have text : l.uri.text.toList =
      l.scheme ++ ':' :: '/' :: '/' :: (l.authority ++ (l.path ++ l.tail)) := by
    simp [uri, head]
  have scheme : (l.scheme ++ ':' :: '/' :: '/' :: (l.authority ++ (l.path ++ l.tail))).takeWhile
      (· != ':') = l.scheme := takeWhile_append_eq (bne_of_not_mem unbroken) (by simp)
  rw [splitScheme?, text]
  simp only [scheme, List.drop_left, l.isScheme_of_long long, if_true]

theorem scheme?_uri (long : 1 < l.scheme.length) :
    l.uri.scheme? = some (String.ofList l.scheme) := by
  rw [scheme?, l.splitScheme?_eq long]
  rfl

/-- One letter before a colon is no scheme. -/
theorem scheme?_uri_eq_none (short : l.scheme.length ≤ 1) : l.uri.scheme? = none := by
  obtain ⟨c, first, letter⟩ := l.lettered
  obtain ⟨rest, scheme⟩ := List.head?_eq_some_iff.1 first
  obtain rfl : rest = [] := by simpa [scheme] using short
  have other : (c != ':') = true := by
    refine bne_iff_ne.2 fun same => ?_
    rw [same] at letter
    exact absurd letter (by decide)
  simp [scheme?, splitScheme?, uri, head, scheme, other, isScheme]

theorem parts_uri (long : 1 < l.scheme.length) : l.uri.parts = ⟨l.head, l.path, l.tail⟩ := by
  have authority : (l.authority ++ (l.path ++ l.tail)).takeWhile (!endsAuthority ·) = l.authority :=
    takeWhile_append_eq (fun c hc => by simp [l.unended c hc])
      fun c hc => by simp [l.endsAuthority_head c hc]
  have path : (l.path ++ l.tail).takeWhile (!endsPath ·) = l.path :=
    takeWhile_append_eq (fun c hc => by simp [l.unmarked c hc]) fun c hc => by simp [l.marked c hc]
  simp only [parts, Parts.ofChars, l.splitScheme?_eq long, authority, List.drop_left, Parts.after, path]
  rfl

end Layout

/-! ### Coded paths -/

theorem allCoded_encodeByte_append (p : Char → Bool) (b : UInt8) (rest : List Char) :
    allCoded p (Percent.encodeByte b ++ rest) = allCoded p rest := by
  obtain ⟨high, low⟩ := Percent.digits_lt b
  show allCoded p ('%' :: Text.upperHexDigit _ :: Text.upperHexDigit _ :: rest) = _
  rw [allCoded, Text.hexValue?_upperHexDigit high, Text.hexValue?_upperHexDigit low]
  rfl

theorem allCoded_cons_of_ne {p : Char → Bool} {c : Char} (h : c ≠ '%') (rest : List Char) :
    allCoded p (c :: rest) = (p c && allCoded p rest) := by
  rw [allCoded]
  rintro a b tail rfl
  exact absurd rfl h

/-- What a coded path is made of: separators, characters that need no coding, and escapes. -/
theorem allCoded_flatMap_encodePathChar {p : Char → Bool} (separator : p '/' = true)
    (unreserved : ∀ c, Percent.isUnreserved c = true → p c = true) (cs : List Char) :
    allCoded p (cs.flatMap encodePathChar) = true := by
  induction cs with
  | nil => rfl
  | cons c cs ih =>
    rw [List.flatMap_cons, encodePathChar]
    split
    · rw [List.singleton_append, allCoded_cons_of_ne (by decide), separator, ih]
      rfl
    · rw [Percent.encodeChar]
      split
      · next plain =>
        rw [List.singleton_append, allCoded_cons_of_ne (Percent.ne_escape_of_isUnreserved plain),
          unreserved c plain, ih]
        rfl
      · induction String.utf8EncodeChar c with
        | nil => exact ih
        | cons b bs rest =>
          rw [List.flatMap_cons, List.append_assoc, allCoded_encodeByte_append, rest]

theorem isUnreserved_upperHexDigit {n : Nat} (h : n < 16) :
    Percent.isUnreserved (Text.upperHexDigit n) = true := by
  revert n
  decide

/-- A coded path has separators, characters that need no coding, and the marks of escapes. -/
theorem mem_encodePath {cs : List Char} {c : Char} (h : c ∈ encodePath cs) :
    c = '/' ∨ c = '%' ∨ Percent.isUnreserved c = true := by
  rw [encodePath_eq_flatMap] at h
  obtain ⟨d, -, hc⟩ := List.mem_flatMap.1 h
  rw [encodePathChar] at hc
  split at hc
  · exact .inl (List.mem_singleton.1 hc)
  · rw [Percent.encodeChar] at hc
    split at hc
    · next plain =>
      rw [List.mem_singleton.1 hc]
      exact .inr (.inr plain)
    · obtain ⟨b, -, hb⟩ := List.mem_flatMap.1 hc
      obtain ⟨high, low⟩ := Percent.digits_lt b
      simp only [Percent.encodeByte, List.mem_cons, List.not_mem_nil, or_false] at hb
      rcases hb with rfl | rfl | rfl
      · exact .inr (.inl rfl)
      · exact .inr (.inr (isUnreserved_upperHexDigit high))
      · exact .inr (.inr (isUnreserved_upperHexDigit low))

/-- A character that a coded path does not have ends none. -/
theorem not_mem_encodePath {cs : List Char} {c : Char}
    (h : (c != '/' && c != '%' && !Percent.isUnreserved c) = true) : c ∉ encodePath cs := by
  intro hc
  rcases mem_encodePath hc with rfl | rfl | plain
  · exact absurd h (by decide)
  · exact absurd h (by decide)
  · simp [plain] at h

theorem endsPath_of_mem_encodePath {cs : List Char} {c : Char} (h : c ∈ encodePath cs) :
    endsPath c = false := by
  refine Bool.eq_false_iff.2 fun ends => ?_
  rw [endsPath, Bool.or_eq_true, beq_iff_eq, beq_iff_eq] at ends
  rcases ends with rfl | rfl
  · exact not_mem_encodePath (by decide) h
  · exact not_mem_encodePath (by decide) h

/-! ### Files -/

/-- The name of a file, in parts. -/
def fileLayout (cs : List Char) (absolute : cs.head? = some '/') : Layout where
  scheme := "file".toList
  authority := []
  path := encodePath cs
  tail := []
  lettered := ⟨'f', rfl, rfl⟩
  spelled := by simp [isSchemeChar]
  unended := by simp
  rooted := by simp [head?_encodePath absolute]
  unmarked := fun _ => endsPath_of_mem_encodePath
  marked := marked_nil

theorem ofFilePath_eq {p : Path} (absolute : p.text.toList.head? = some '/') :
    ofFilePath p = (fileLayout p.text.toList absolute).uri := by
  rw [ofFilePath_of_rooted absolute, Layout.uri, Layout.head]
  simp [fileLayout]

/-- The name of a file may be sent to the editor. -/
theorem isValid_ofFilePath {p : Path} (absolute : p.text.toList.head? = some '/') :
    (ofFilePath p).isValid = true := by
  obtain ⟨rest, coded⟩ := List.head?_eq_some_iff.1 (head?_encodePath absolute)
  have text : (ofFilePath p).text.toList = "file://".toList ++ encodePath p.text.toList := by
    rw [ofFilePath_of_rooted absolute, String.toList_ofList]
  have without {d : Char} (mark : (d != '/' && d != '%' && !Percent.isUnreserved d) = true)
      (start : d ∉ "file://".toList) :
      (ofFilePath p).text.toList.takeWhile (· != d) = (ofFilePath p).text.toList := by
    refine List.takeWhile_eq_self_iff.2 (bne_of_not_mem fun hc => ?_)
    rw [text] at hc
    rcases List.mem_append.1 hc with hc | hc
    · exact start hc
    · exact not_mem_encodePath mark hc
  have path : allCoded (fun c => isPathChar c || c == '/') (encodePath p.text.toList) = true := by
    rw [encodePath_eq_flatMap]
    refine allCoded_flatMap_encodePathChar (by decide) (fun c plain => ?_) _
    simp [isPathChar, plain]
  rw [isValid, isReference]
  simp only [without (d := '#') (by decide) (by decide), without (d := '?') (by decide) (by decide),
    List.drop_length, List.drop_nil]
  rw [text, coded]
  rw [coded] at path
  have scheme : isSchemeChar 'i' = true ∧ isSchemeChar 'l' = true ∧ isSchemeChar 'e' = true := by decide
  simpa [isAddress, isHierarchy, isAuthority, isNetworkPlace, isExtra, allCoded, scheme] using path

/-- An absolute path without backward separators is found again in its name. -/
theorem toFilePath?_ofFilePath {p : Path} (absolute : p.text.toList.head? = some '/')
    (forwards : '\\' ∉ p.text.toList) : (ofFilePath p).toFilePath? = some p := by
  have long : 1 < (fileLayout p.text.toList absolute).scheme.length :=
    (by decide : 1 < "file".toList.length)
  have file : (ofFilePath p).isFile = true := by
    rw [isFile, ofFilePath_eq absolute, Layout.scheme?_uri _ long]
    rfl
  rw [toFilePath?, if_pos file, path, ofFilePath_eq absolute, Layout.parts_uri _ long]
  show some (Path.mk (Percent.decode (encodePath p.text.toList))) = _
  rw [decode_encodePath, forward_eq_self forwards, String.ofList_toList]

/-- **The path of a file is found again in its name.** An absolute path without backward separators has a
name that lies in the file system, that may be sent to the editor and that stands for that very path. So two
such paths never share a name. -/
theorem file_name_round_trip (p : Path) (absolute : p.isAbsolute = true)
    (forwards : '\\' ∉ p.text.toList) :
    (ofFilePath p).isFile = true ∧ (ofFilePath p).isValid = true ∧
      (ofFilePath p).toFilePath? = some p ∧
      ∀ q : Path, q.isAbsolute = true → '\\' ∉ q.text.toList → ofFilePath q = ofFilePath p → q = p := by
  have root {q : Path} (h : q.isAbsolute = true) : q.text.toList.head? = some '/' := beq_iff_eq.1 h
  have found := toFilePath?_ofFilePath (root absolute) forwards
  have file : (ofFilePath p).isFile = true := by
    refine Decidable.byContradiction fun other => ?_
    rw [toFilePath?, if_neg other] at found
    cases found
  refine ⟨file, isValid_ofFilePath (root absolute), found, fun q absolute' forwards' same => ?_⟩
  have found' := toFilePath?_ofFilePath (root absolute') forwards'
  rw [same, found] at found'
  exact (Option.some.inj found').symm

/-- The case of a path with a space, an escape, the marks of other parts of a name, a letter beyond ASCII,
and separators in a row and at the end. -/
theorem odd_file_name_round_trip :
    Path.isAbsolute ⟨"//my docs/50%25?#é:@//"⟩ = true ∧
      '\\' ∉ "//my docs/50%25?#é:@//".toList ∧
      ofFilePath ⟨"//my docs/50%25?#é:@//"⟩ =
        ⟨"file:////my%20docs/50%2525%3F%23%C3%A9%3A%40//"⟩ ∧
      toFilePath? ⟨"file:////my%20docs/50%2525%3F%23%C3%A9%3A%40//"⟩ =
        some ⟨"//my docs/50%25?#é:@//"⟩ := by
  have absolute : Path.isAbsolute ⟨"//my docs/50%25?#é:@//"⟩ = true := by decide
  have forwards : '\\' ∉ "//my docs/50%25?#é:@//".toList := by decide
  have name : ofFilePath ⟨"//my docs/50%25?#é:@//"⟩ =
      ⟨"file:////my%20docs/50%2525%3F%23%C3%A9%3A%40//"⟩ := by decide +kernel
  exact ⟨absolute, forwards, name, name ▸ (file_name_round_trip _ absolute forwards).2.2.1⟩

end LanguageServer.Uri
