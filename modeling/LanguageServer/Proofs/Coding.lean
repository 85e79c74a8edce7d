import LanguageServer.Proofs.Resolution

/-!
# Coded texts are read back

A byte that is coded stands for itself again, and so does every text, whether its separators are coded
or not. So a path in coded form stands for the path with forward separators.

* `hexValue?_upperHexDigit`, `decodeBytes_encodeByte_append`: digits and bytes;
* `Percent.Coding`, `Coding.decode_flatMap`: ways to write characters that are read back;
* `Uri.encodePathChar`, `Uri.encodePath_eq_flatMap`: a coded path, character by character;
* `Uri.decode_encodePath`: what it stands for.
-/

namespace LanguageServer

theorem Text.hexValue?_upperHexDigit {n : Nat} (h : n < 16) :
    hexValue? (upperHexDigit n) = some n := by
  revert n
  decide

namespace Percent

/-! ### Bytes and characters -/

/-- A byte has two digits. -/
theorem digits_lt (b : UInt8) : b.toNat / 16 < 16 ∧ b.toNat % 16 < 16 := by
  have bound := b.toNat_lt
  omega

theorem decodeBytes_encodeByte_append (b : UInt8) (rest : List Char) :
    decodeBytes (encodeByte b ++ rest) = b :: decodeBytes rest := by
  obtain ⟨high, low⟩ := digits_lt b
  have whole : 16 * (b.toNat / 16) + b.toNat % 16 = b.toNat := Nat.div_add_mod _ _
  show decodeBytes ('%' :: Text.upperHexDigit _ :: Text.upperHexDigit _ :: rest) = _
  rw [decodeBytes, Text.hexValue?_upperHexDigit high, Text.hexValue?_upperHexDigit low]
  show UInt8.ofNat (16 * (b.toNat / 16) + b.toNat % 16) :: _ = _
  rw [whole, UInt8.ofNat_toNat]

theorem decodeBytes_flatMap_encodeByte_append (bs : List UInt8) (rest : List Char) :
    decodeBytes (bs.flatMap encodeByte ++ rest) = bs ++ decodeBytes rest := by
  induction bs with
  | nil => rfl
  | cons b bs ih =>
    rw [List.flatMap_cons, List.append_assoc, decodeBytes_encodeByte_append, ih, List.cons_append]

/-- What does not start an escape stands for itself. -/
theorem decodeBytes_cons_of_ne {c : Char} (h : c ≠ '%') (rest : List Char) :
    decodeBytes (c :: rest) = String.utf8EncodeChar c ++ decodeBytes rest := by
  rw [decodeBytes]
  rintro a b tail rfl
  exact absurd rfl h

theorem ne_escape_of_isUnreserved {c : Char} (h : isUnreserved c = true) : c ≠ '%' := by
  rintro rfl
  exact absurd h (by decide)

/-! ### Texts -/

/-- A way to write characters that is read back, whatever follows. -/
def Coding (f : Char → List Char) : Prop :=
  ∀ c rest, decodeBytes (f c ++ rest) = String.utf8EncodeChar c ++ decodeBytes rest

theorem coding_encodeChar : Coding encodeChar := by
  intro c rest
  rw [encodeChar]
  split
  · next unreserved => exact decodeBytes_cons_of_ne (ne_escape_of_isUnreserved unreserved) rest
  · exact decodeBytes_flatMap_encodeByte_append _ rest

theorem ofBytes?_flatMap_utf8EncodeChar (cs : List Char) :
    ofBytes? (cs.flatMap String.utf8EncodeChar) = some (String.ofList cs) := by
  have bytes : (⟨(cs.flatMap String.utf8EncodeChar).toArray⟩ : ByteArray) = cs.utf8Encode :=
    ByteArray.ext (by simp [List.utf8Encode])
  rw [ofBytes?, bytes, String.fromUTF8?, dif_pos ByteArray.isValidUTF8_utf8Encode]
  rfl

namespace Coding

variable {f : Char → List Char} (h : Coding f)

include h

theorem decodeBytes_flatMap (cs : List Char) :
    decodeBytes (cs.flatMap f) = cs.flatMap String.utf8EncodeChar := by
  induction cs with
  | nil => rfl
  | cons c cs ih => rw [List.flatMap_cons, h, ih, List.flatMap_cons]

/-- A text stands for itself again. -/
theorem decode_flatMap (cs : List Char) : decode (cs.flatMap f) = String.ofList cs := by
  rw [decode, decode?, h.decodeBytes_flatMap, ofBytes?_flatMap_utf8EncodeChar, Option.getD_some]

end Coding

end Percent

/-! ### Paths -/

namespace Uri

/-- A character of a path: a separator stays, and any other character is coded if it has to be. -/
def encodePathChar (c : Char) : List Char := if c = '/' then ['/'] else Percent.encodeChar c

theorem coding_encodePathChar : Percent.Coding encodePathChar := by
  intro c rest
  rw [encodePathChar]
  split
  · next separator =>
    rw [separator]
    exact Percent.decodeBytes_cons_of_ne (by decide) rest
  · exact Percent.coding_encodeChar c rest

theorem forward_eq_self {cs : List Char} (h : '\\' ∉ cs) : forward cs = cs := by
  induction cs with
  | nil => rfl
  | cons c cs ih =>
    obtain ⟨first, rest⟩ := List.ne_and_not_mem_of_not_mem_cons h
    rw [forward_cons, if_neg first.symm, ih rest]

/-- A path in coded form, character by character. -/
theorem encodePath_eq_flatMap (cs : List Char) :
    encodePath cs = (forward cs).flatMap encodePathChar := by
  show ['/'].intercalate (((forward cs).splitOn '/').map _) = _
  generalize forward cs = cs
  induction cs with
  | nil => rfl
  | cons c cs ih =>
    obtain ⟨first, others, split⟩ := List.exists_cons_of_ne_nil (List.splitOn_ne_nil '/' cs)
    rw [split] at ih
    rw [List.splitOn_cons_eq_if_modifyHead, split, List.flatMap_cons, ← ih, encodePathChar]
    by_cases separator : c = '/'
    · simp [separator, List.intercalate_cons_cons]
    · cases others <;> simp [separator, List.intercalate_cons_cons]

/-- A path in coded form stands for the path with forward separators. -/
theorem decode_encodePath (cs : List Char) :
    Percent.decode (encodePath cs) = String.ofList (forward cs) := by
  rw [encodePath_eq_flatMap, coding_encodePathChar.decode_flatMap]

end Uri

end LanguageServer
