import LanguageServer.Feature.Hover
import Mathlib.Algebra.Order.Ring.Int
import Mathlib.Order.Bounds.Basic

/-!
# Numbers are read back from their descriptions

A literal is shown in base two, ten and sixteen. Each of these texts, read by the rule of its base, is the
number again; in base two and sixteen it is the number modulo `2 ^ 32`.

* `Text.digit?`, `Text.natural?`, `Text.integer?`: how numbers are read;
* `Text.natural?_toDigits`, `natural?_zeros_append`: digits are read back, also after zeros;
* `Text.exists_bytesOf`: groups of eight digits;
* `Text.IsBinary`, `Text.exists_binaryText`: the text in base two;
* `Tells`, `literal_shows_value`: what the description of a literal says.
-/

namespace LanguageServer

namespace Text

variable {base n : Nat} {c : Char} {cs : List Char}

/-! ### Reading numbers -/

/-- The value of a digit, in a base up to sixteen. -/
def digit? (base : Nat) (c : Char) : Option Nat := (hexValue? c).filter (· < base)

/-- The number that digits stand for after a number to their left. -/
def naturalAfter? (base n : Nat) (cs : List Char) : Option Nat :=
  cs.foldlM (fun n c => (digit? base c).map (base * n + ·)) n

/-- The number that digits stand for. There is at least one digit, and nothing else. -/
def natural? (base : Nat) (cs : List Char) : Option Nat :=
  if cs.isEmpty then none else naturalAfter? base 0 cs

/-- A number in base ten, after a sign if it is negative. -/
def integer? (cs : List Char) : Option Int :=
  if cs.head? = some '-' then (natural? 10 cs.tail).map fun n => -(n : Int)
  else (natural? 10 cs).map fun n => (n : Int)

theorem hexValue?_digitChar (h : n < 16) : hexValue? n.digitChar = some n := by
  revert n
  decide

theorem digit?_digitChar (h : n < base) (hbase : base ≤ 16) : digit? base n.digitChar = some n := by
  simp [digit?, hexValue?_digitChar (h.trans_le hbase), h]

theorem naturalAfter?_append (xs ys : List Char) :
    naturalAfter? base n (xs ++ ys) = (naturalAfter? base n xs).bind (naturalAfter? base · ys) :=
  List.foldlM_append

theorem naturalAfter?_digitChar {d : Nat} (h : d < base) (hbase : base ≤ 16) :
    naturalAfter? base n [d.digitChar] = some (base * n + d) := by
  simp [naturalAfter?, digit?_digitChar h hbase]

/-- Digits are read back. -/
theorem naturalAfter?_toDigits (one_lt : 1 < base) (hbase : base ≤ 16) (n : Nat) :
    naturalAfter? base 0 (Nat.toDigits base n) = some n := by
  induction n using Nat.strongRecOn with
  | ind n ih =>
    rw [Nat.toDigits_eq_if one_lt]
    split
    · next small => rw [naturalAfter?_digitChar small hbase, Nat.mul_zero, Nat.zero_add]
    · next large =>
      -- the last digit is the remainder, and those before it are the digits of the quotient
      have smaller : n / base < n := Nat.div_lt_self (by omega) one_lt
      have last : n % base < base := Nat.mod_lt n (by omega)
      rw [naturalAfter?_append, ih _ smaller, Option.bind_some, naturalAfter?_digitChar last hbase,
        Nat.div_add_mod]

theorem natural?_toDigits (one_lt : 1 < base) (hbase : base ≤ 16) (n : Nat) :
    natural? base (Nat.toDigits base n) = some n := by
  rw [natural?, if_neg (by simp [Nat.toDigits_ne_nil]), naturalAfter?_toDigits one_lt hbase]

theorem naturalAfter?_zeros (hbase : 0 < base) (hbase' : base ≤ 16) (count : Nat) :
    naturalAfter? base 0 (List.replicate count '0') = some 0 := by
  induction count with
  | zero => rfl
  | succ count ih =>
    have zero : naturalAfter? base 0 ['0'] = some 0 := naturalAfter?_digitChar hbase hbase'
    rw [List.replicate_succ', naturalAfter?_append, ih, Option.bind_some, zero]

/-- Zeros in front change nothing. -/
theorem natural?_zeros_append (hbase : 0 < base) (hbase' : base ≤ 16) (count : Nat) (h : cs ≠ []) :
    natural? base (List.replicate count '0' ++ cs) = natural? base cs := by
  rw [natural?, natural?, if_neg (by simp [h]), if_neg (by simp [h]), naturalAfter?_append,
    naturalAfter?_zeros hbase hbase', Option.bind_some]

/-- What is read as a number consists of digits. -/
theorem isSome_digit?_of_naturalAfter? {m : Nat} (h : naturalAfter? base n cs = some m) :
    ∀ c ∈ cs, (digit? base c).isSome := by
  induction cs generalizing n with
  | nil => nofun
  | cons c cs ih =>
    rw [naturalAfter?, List.foldlM_cons] at h
    obtain ⟨next, first, rest⟩ := Option.bind_eq_some_iff.1 h
    obtain ⟨d, hd, -⟩ := Option.map_eq_some_iff.1 first
    exact List.forall_mem_cons.2 ⟨by rw [hd]; rfl, ih rest⟩

theorem isSome_digit?_of_natural? {m : Nat} (h : natural? base cs = some m) :
    ∀ c ∈ cs, (digit? base c).isSome := by
  rw [natural?] at h
  split at h
  · cases h
  · exact isSome_digit?_of_naturalAfter? h

theorem not_mem_of_natural? {m : Nat} (h : natural? base cs = some m) (hc : hexValue? c = none) :
    c ∉ cs := by
  intro mem
  have digit := isSome_digit?_of_natural? h c mem
  rw [digit?, hc] at digit
  cases digit

/-- A number is read back from base ten. -/
theorem integer?_toString (n : Int) : integer? (toString n).toList = some n := by
  have digits (m : Nat) : (toString m).toList = Nat.toDigits 10 m := by
    rw [Nat.toString_eq_ofList_toDigits, String.toList_ofList]
  have reads (m : Nat) : natural? 10 (Nat.toDigits 10 m) = some m :=
    natural?_toDigits (by decide) (by decide) m
  cases n with
  | ofNat m =>
    have unsigned : (Nat.toDigits 10 m).head? ≠ some '-' := fun h =>
      not_mem_of_natural? (reads m) rfl (List.mem_of_head? h)
    show integer? (toString m).toList = _
    rw [digits, integer?, if_neg unsigned, reads]
    rfl
  | negSucc m =>
    have signed : ("-" ++ toString (m + 1)).toList = '-' :: Nat.toDigits 10 (m + 1) := by
      rw [String.toList_append, digits]
      rfl
    show integer? ("-" ++ toString (m + 1)).toList = _
    rw [signed, integer?, if_pos List.head?_cons, List.tail_cons, reads]
    rfl

/-! ### Groups of eight -/

theorem bytesOf_append {group : List Char} (h : group.length = 8) (rest : List Char) :
    bytesOf (group ++ rest) = '_' :: group ++ bytesOf rest := by
  match group, h with
  | [_, _, _, _, _, _, _, _], _ => rfl

/-- Digits that fill groups are put into groups. -/
theorem exists_bytesOf {count : Nat} (h : cs.length = 8 * count) :
    ∃ groups : List (List Char), groups.length = count ∧ (∀ g ∈ groups, g.length = 8) ∧
      groups.flatten = cs ∧ bytesOf cs = groups.flatMap ('_' :: ·) := by
  induction count generalizing cs with
  | zero =>
    obtain rfl : cs = [] := List.length_eq_zero_iff.1 h
    exact ⟨[], rfl, nofun, rfl, rfl⟩
  | succ count ih =>
    have first : (cs.take 8).length = 8 := by
      rw [List.length_take]
      omega
    have fewer : (cs.drop 8).length = 8 * count := by
      rw [List.length_drop]
      omega
    obtain ⟨groups, size, eights, rest, shown⟩ := ih fewer
    refine ⟨cs.take 8 :: groups, by rw [List.length_cons, size],
      List.forall_mem_cons.2 ⟨first, eights⟩, ?_, ?_⟩
    · rw [List.flatten_cons, rest, List.take_append_drop]
    · rw [← List.take_append_drop 8 cs, bytesOf_append first, shown]
      simp

theorem length_padToBytes (digits : List Char) :
    (padToBytes digits).length = 8 * ((digits.length + 7) / 8) := by
  rw [padToBytes, List.length_append, List.length_replicate]
  omega

theorem filter_ne_of_not_mem (h : c ∉ cs) : cs.filter (· ≠ c) = cs :=
  List.filter_eq_self.2 fun d hd => by simpa using fun he : d = c => h (he ▸ hd)

/-- The digits are what is left of groups without the underscores. -/
theorem filter_flatMap_underscore {groups : List (List Char)} (h : '_' ∉ groups.flatten) :
    (groups.flatMap ('_' :: ·)).filter (· ≠ '_') = groups.flatten := by
  induction groups with
  | nil => rfl
  | cons g gs ih =>
    rw [List.flatten_cons, List.mem_append, not_or] at h
    rw [List.flatMap_cons, List.filter_append, ih h.2, List.filter_cons_of_neg (by simp),
      filter_ne_of_not_mem h.1, List.flatten_cons]

/-! ### Base two -/

/-- A text in base two: as few digits as the number has, if these are four at most; or else groups of eight
digits, each after an underscore, and as few of them as hold the number. -/
def IsBinary (n : Nat) (cs : List Char) : Prop :=
  natural? 2 (cs.filter (· ≠ '_')) = some n ∧
    if n < 2 ^ 4 then '_' ∉ cs ∧ IsLeast {m | 0 < m ∧ n < 2 ^ m} cs.length
    else ∃ groups : List (List Char), cs = groups.flatMap ('_' :: ·) ∧
      (∀ g ∈ groups, g.length = 8 ∧ '_' ∉ g) ∧ IsLeast {m | n < 2 ^ (8 * m)} groups.length

/-- A number has the fewest digits in which it can be written. -/
theorem isLeast_length_digits (n : Nat) :
    IsLeast {m | 0 < m ∧ n < 2 ^ m} (Nat.toDigits 2 n).length := by
  have some_digit : 0 < (Nat.toDigits 2 n).length := Nat.length_toDigits_pos
  exact ⟨⟨some_digit, (Nat.length_toDigits_le_iff Nat.one_lt_two some_digit).1 le_rfl⟩,
    fun m ⟨pos, fits⟩ => (Nat.length_toDigits_le_iff Nat.one_lt_two pos).2 fits⟩

/-- Digits that do not fill the last byte take another one. -/
theorem isLeast_bytes (h : ¬ n < 2 ^ 4) :
    IsLeast {m | n < 2 ^ (8 * m)} (((Nat.toDigits 2 n).length + 7) / 8) := by
  have some_digit : 0 < (Nat.toDigits 2 n).length := Nat.length_toDigits_pos
  refine ⟨(Nat.length_toDigits_le_iff Nat.one_lt_two (by omega)).1 (by omega), fun m fits => ?_⟩
  have some_byte : 0 < m := Nat.pos_of_ne_zero fun hm => by
    subst hm
    have : n < 1 := fits
    omega
  have := (Nat.length_toDigits_le_iff Nat.one_lt_two (by omega)).2 fits
  omega

theorem exists_binaryText (n : Int) :
    ∃ cs, binaryText n = String.ofList cs ∧ IsBinary (unsigned n) cs := by
  have reads : natural? 2 (Nat.toDigits 2 (unsigned n)) = some (unsigned n) :=
    natural?_toDigits (by decide) (by decide) _
  have short_iff : (Nat.toDigits 2 (unsigned n)).length ≤ 4 ↔ unsigned n < 2 ^ 4 :=
    Nat.length_toDigits_le_iff Nat.one_lt_two (by decide)
  have no_underscore : '_' ∉ Nat.toDigits 2 (unsigned n) := not_mem_of_natural? reads rfl
  by_cases short : unsigned n < 2 ^ 4
  · refine ⟨_, by rw [binaryText, if_pos (short_iff.2 short)], ?_, ?_⟩
    · rw [filter_ne_of_not_mem no_underscore, reads]
    · rw [if_pos short]
      exact ⟨no_underscore, isLeast_length_digits _⟩
  · obtain ⟨groups, size, eights, digits, shown⟩ :=
      exists_bytesOf (length_padToBytes (Nat.toDigits 2 (unsigned n)))
    have padded : natural? 2 groups.flatten = some (unsigned n) := by
      rw [digits, padToBytes, natural?_zeros_append (by decide) (by decide) _ Nat.toDigits_ne_nil, reads]
    have plain : '_' ∉ groups.flatten := not_mem_of_natural? padded rfl
    refine ⟨_, by rw [binaryText, if_neg (short_iff.not.2 short), shown], ?_, ?_⟩
    · rw [filter_flatMap_underscore plain, padded]
    · rw [if_neg short]
      refine ⟨groups, rfl, fun g hg => ⟨eights g hg, fun hc => plain ?_⟩, size ▸ isLeast_bytes short⟩
      exact List.mem_flatten.2 ⟨g, hg, hc⟩

/-! ### Words -/

/-- Numbers of 32 bits with a sign are written as they are modulo `2 ^ 32`. -/
theorem unsigned_eq {n : Int} (lower : -2 ^ 31 ≤ n) (upper : n < 2 ^ 31) :
    (unsigned n : Int) = n % 2 ^ 32 := by
  rw [unsigned]
  split
  · rw [wrap32]
    omega
  · omega

theorem unitChar?_eq (n : Int) :
    unitChar? n =
      if 0 ≤ n ∧ n ≤ 0xFFFF ∧ ¬ (0xD800 ≤ n ∧ n ≤ 0xDFFF) then some (Char.ofNat n.toNat) else none := by
  rw [unitChar?]
  refine if_congr (and_congr_right fun natural => and_congr_right fun small => ?_) rfl rfl
  show n.toNat < 0xD800 ∨ 0xDFFF < n.toNat ∧ n.toNat < 0x110000 ↔ _
  omega

end Text

/-! ### Descriptions -/

/-- Lines that tell a number after its type: in base two and sixteen modulo `2 ^ 32`, in base ten as it is,
and as a character if it is the code point of one that is a single code unit. -/
def Tells (type : String) (n : Int) (lines : List String) : Prop :=
  ∃ (k : Nat) (binary decimal hex : List Char), (k : Int) = n % 2 ^ 32 ∧
    lines = [type ++ "0b" ++ String.ofList binary, type ++ String.ofList decimal,
        type ++ "0x" ++ String.ofList hex] ++
      (if 0 ≤ n ∧ n ≤ 0xFFFF ∧ ¬ (0xD800 ≤ n ∧ n ≤ 0xDFFF) then
        [type ++ "'" ++ Text.asciiEscaped (Char.ofNat n.toNat) ++ "'"] else []) ∧
    Text.IsBinary k binary ∧ Text.integer? decimal = some n ∧ Text.natural? 16 hex = some k

theorem tells_literalLines {n : Int} (lower : -2 ^ 31 ≤ n) (upper : n < 2 ^ 31) (type : String) :
    Tells type n (literalLines type n) := by
  obtain ⟨binary, shown, isBinary⟩ := Text.exists_binaryText n
  refine ⟨Text.unsigned n, binary, (toString n).toList, Nat.toDigits 16 (Text.unsigned n),
    Text.unsigned_eq lower upper, ?_, isBinary, Text.integer?_toString n,
    Text.natural?_toDigits (by decide) (by decide) _⟩
  rw [literalLines, shown, Text.unitChar?_eq, String.ofList_toList]
  split <;> rfl

/-- The literals whose value is shown: integers of 32 bits, and characters. -/
inductive Expr.IsLiteral : Expr → Int → Prop
  | int (note : Annotation) {value : Int} (lower : -2 ^ 31 ≤ value) (upper : value < 2 ^ 31) :
    IsLiteral (.int note value) value
  | character (note : Annotation) (value : Char) : IsLiteral (.character note value) value.toNat

/-- **Literals show their value.** Whatever was said before about what encloses a literal, its own lines take
the place of it, and they tell its value. -/
theorem literal_shows_value (s : Snapshot) (n : Note) {e : Expr} {value : Int}
    (literal : e.IsLiteral value) :
    ∃ lines, ((Node.expr e).describe s n).definition = some (String.intercalate "\n" lines) ∧
      Tells (Ty.cast e.type?) value lines := by
  cases literal with
  | int note lower upper => exact ⟨_, rfl, tells_literalLines lower upper _⟩
  | character note value =>
    have small : value.toNat < 0x110000 := by
      rcases value.valid with h | h
      · exact Nat.lt_trans h (by decide)
      · exact h.2
    exact ⟨_, rfl, tells_literalLines (by omega) (by omega) _⟩

namespace Sample

/-- A document that was not compiled. -/
def blankPage : Snapshot := .single ⟨"untitled:page"⟩ none {}

/-- A number that has more than one byte in two's complement. -/
def negative : Expr := .int ⟨⟨⟨0, 0⟩, ⟨0, 3⟩⟩, none⟩ (-42)

/-- A character beyond the first byte. -/
def letter : Expr := .character ⟨⟨⟨1, 0⟩, ⟨1, 3⟩⟩, none⟩ 'é'

end Sample

open Sample in
/-- The cases of a negative number and of a letter. -/
theorem negative_number_and_letter_shown :
    (negative.IsLiteral (-42) ∧ literalText "" (-42) =
        "0b_11111111_11111111_11111111_11010110\n-42\n0xffffffd6" ∧
      ∃ lines, ((Node.expr negative).describe blankPage {}).definition =
        some (String.intercalate "\n" lines) ∧ Tells "" (-42) lines) ∧
    letter.IsLiteral 233 ∧ literalText "" 233 = "0b_11101001\n233\n0xe9\n'\\u\x7be9\x7d'" ∧
      ∃ lines, ((Node.expr letter).describe blankPage {}).definition =
        some (String.intercalate "\n" lines) ∧ Tells "" 233 lines :=
  have number : negative.IsLiteral (-42) := .int _ (by decide) (by decide)
  have character : letter.IsLiteral 233 := .character _ 'é'
  ⟨⟨number, by decide +kernel, literal_shows_value blankPage {} number⟩, character, by decide +kernel,
    literal_shows_value blankPage {} character⟩

end LanguageServer
