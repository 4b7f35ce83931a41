import Schemata.Proofs.Spelling
import Schemata.Text.Alphanumeric
import Schemata.Text.NameClasses

/-!
# Keys are read back

**Input.**  Keys of any characters, as they are written in an object expression.

**Algorithm.**  A key without quotes is itself.  Its characters are alphanumeric, which is more
than what names are made of: the classes are compared as tables, range by range
(`Ranges.minus`).  A quoted key is read from the left, escape by escape, up to the first quote
that no escape holds (`Text.readQuoted`).

**Results.**

* `Text.isNameContinue_iff`: which alphanumeric characters can stand in a name.
* `Text.readQuoted_escape`: a quoted text is read back.
* `Node.isName_iff_of_bare` and `Node.isName_of_ascii`: which keys without quotes are names.
* `Node.keys_read_back`: a key is written as it is or is read back from between its quotes.
-/

namespace Schemata
namespace Text

/-! ## Tables of characters -/

namespace Ranges

/-- What is left of ranges, in increasing order, without one more. -/
def without (first last : Nat) : Ranges → Ranges
  | [] => []
  | (low, high) :: rest =>
      bif Nat.blt high first then (low, high) :: without first last rest
      else bif Nat.blt last low then (low, high) :: rest
      else
        (bif Nat.blt low first then [(low, first - 1)] else []) ++
          (bif Nat.blt last high then [(last + 1, high)] else []) ++ without first last rest

/-- What is left of ranges without others. -/
def minus (ranges others : Ranges) : Ranges :=
  others.foldl (fun left range => left.without range.1 range.2) ranges

/-- Whether no range meets one of the others. -/
def apart (ranges others : Ranges) : Bool :=
  ranges.all fun range =>
    others.all fun other => Nat.blt range.2 other.1 || Nat.blt other.2 range.1

variable {ranges others : Ranges} {c : Char}

theorem contains_cons {range : Nat × Nat} : Ranges.contains (range :: ranges) c = true ↔
    (range.1 ≤ c.toNat ∧ c.toNat ≤ range.2) ∨ ranges.contains c = true := by
  rw [contains_iff, contains_iff, List.exists_mem_cons_iff]

theorem contains_append : Ranges.contains (ranges ++ others) c = true ↔
    ranges.contains c = true ∨ others.contains c = true := by
  simp only [contains_iff, List.mem_append, or_and_right, exists_or]

/-- A character in the ranges is in the one that is taken away, or is left. -/
theorem contains_without {first last : Nat} : ∀ {ranges : Ranges}, ranges.contains c = true →
    (first ≤ c.toNat ∧ c.toNat ≤ last) ∨ (without first last ranges).contains c = true
  | (low, high) :: rest, h => by
      have hrest : Ranges.contains rest c = true → (first ≤ c.toNat ∧ c.toNat ≤ last) ∨
          (without first last rest).contains c = true := contains_without
      rw [without]
      cases hhigh : Nat.blt high first with
      | true =>
          simp only [cond_true, contains_cons] at h ⊢
          tauto
      | false =>
          cases hlow : Nat.blt last low with
          | true => exact .inr h
          | false =>
              simp only [cond_false, contains_append]
              rcases contains_cons.1 h with ⟨hlow, hhigh⟩ | h
              · -- The character is before the range, in it, or after it.
                by_cases hbefore : c.toNat < first
                · have hlt : Nat.blt low first = true := Nat.blt_eq ▸ hlow.trans_lt hbefore
                  simp only [hlt, cond_true, contains_cons]
                  omega
                · by_cases hafter : last < c.toNat
                  · have hlt : Nat.blt last high = true := Nat.blt_eq ▸ hafter.trans_le hhigh
                    simp only [hlt, cond_true, contains_cons]
                    omega
                  · exact .inl ⟨by omega, by omega⟩
              · exact (hrest h).imp_right .inr

/-- A character in the ranges is in one of the others, or is left without them. -/
theorem contains_minus : ∀ (others : Ranges) {ranges : Ranges}, ranges.contains c = true →
    others.contains c = true ∨ (ranges.minus others).contains c = true
  | [], _, h => .inr h
  | (first, last) :: others, ranges, h => by
      rw [contains_cons, or_assoc]
      exact (contains_without h).imp_right (contains_minus others)

theorem not_contains_of_apart (h : ranges.apart others = true) (hc : ranges.contains c = true) :
    ¬ others.contains c = true := by
  obtain ⟨range, hrange, hlow, hhigh⟩ := contains_iff.1 hc
  rw [contains_iff]
  rintro ⟨other, hother, hlow', hhigh'⟩
  have happart := List.all_eq_true.1 (List.all_eq_true.1 h range hrange) other hother
  rw [Bool.or_eq_true, Nat.blt_eq, Nat.blt_eq] at happart
  omega

end Ranges

/-- The alphanumeric characters that cannot stand in a name: numerals that are neither digits nor
letters, letters in circles and squares, and the vertical tilde. -/
def strayRanges : Ranges := [
   (0xb2, 0xb3), (0xb9, 0xb9), (0xbc, 0xbe), (0x9f4, 0x9f9), (0xb72, 0xb77), (0xbf0, 0xbf2),
   (0xc78, 0xc7e), (0xd58, 0xd5e), (0xd70, 0xd78), (0xf2a, 0xf33), (0x1372, 0x137c),
   (0x17f0, 0x17f9), (0x2070, 0x2070), (0x2074, 0x2079), (0x2080, 0x2089), (0x2150, 0x215f),
   (0x2189, 0x2189), (0x2460, 0x249b), (0x24b6, 0x24ff), (0x2776, 0x2793), (0x2cfd, 0x2cfd),
   (0x2e2f, 0x2e2f), (0x3192, 0x3195), (0x3220, 0x3229), (0x3248, 0x324f), (0x3251, 0x325f),
   (0x3280, 0x3289), (0x32b1, 0x32bf), (0xa830, 0xa835), (0x10107, 0x10133), (0x10175, 0x10178),
   (0x1018a, 0x1018b), (0x102e1, 0x102fb), (0x10320, 0x10323), (0x10858, 0x1085f),
   (0x10879, 0x1087f), (0x108a7, 0x108af), (0x108fb, 0x108ff), (0x10916, 0x1091b),
   (0x109bc, 0x109bd), (0x109c0, 0x109cf), (0x109d2, 0x109ff), (0x10a40, 0x10a48),
   (0x10a7d, 0x10a7e), (0x10a9d, 0x10a9f), (0x10aeb, 0x10aef), (0x10b58, 0x10b5f),
   (0x10b78, 0x10b7f), (0x10ba9, 0x10baf), (0x10cfa, 0x10cff), (0x10e60, 0x10e7e),
   (0x10f1d, 0x10f26), (0x10f51, 0x10f54), (0x10fc5, 0x10fcb), (0x11052, 0x11065),
   (0x111e1, 0x111f4), (0x1173a, 0x1173b), (0x118ea, 0x118f2), (0x11c5a, 0x11c6c),
   (0x11fc0, 0x11fd4), (0x16b5b, 0x16b61), (0x16e80, 0x16e96), (0x1d2c0, 0x1d2d3),
   (0x1d2e0, 0x1d2f3), (0x1d360, 0x1d378), (0x1e8c7, 0x1e8cf), (0x1ec71, 0x1ecab),
   (0x1ecad, 0x1ecaf), (0x1ecb1, 0x1ecb4), (0x1ed01, 0x1ed2d), (0x1ed2f, 0x1ed3d),
   (0x1f100, 0x1f10c), (0x1f130, 0x1f149), (0x1f150, 0x1f169), (0x1f170, 0x1f189)]

def isStray (c : Char) : Bool := strayRanges.contains c

theorem alphanumeric_minus_nameContinue :
    alphanumericRanges.minus nameContinueRanges = strayRanges := by
  decide +kernel

theorem nameContinue_apart_stray : nameContinueRanges.apart strayRanges = true := by
  decide +kernel

theorem ascii_not_isStray {c : Char} (h : c.toNat < 0x80) : isStray c = false := by
  rw [isStray, ← Bool.not_eq_true, Ranges.contains_iff]
  rintro ⟨range, hrange, hlow, _⟩
  have hfirst : ∀ range ∈ strayRanges, 0x80 ≤ range.1 := by decide
  have := hfirst range hrange
  omega

/-- **Of the alphanumeric characters, those can stand in a name that are not stray.** -/
theorem isNameContinue_iff {c : Char} (h : isAlphanumeric c = true) :
    isNameContinue c = true ↔ isStray c = false := by
  rw [isAlphanumeric] at h
  rw [isNameContinue]
  split at h
  case isTrue hascii =>
    rw [if_pos hascii, h, ascii_not_isStray hascii, Bool.true_or]
    exact iff_of_true rfl rfl
  case isFalse hwide =>
    rw [if_neg hwide]
    constructor
    · intro hcontinue
      rw [← Bool.not_eq_true]
      exact Ranges.not_contains_of_apart nameContinue_apart_stray hcontinue
    · intro hstray
      rcases Ranges.contains_minus nameContinueRanges h with hcontinue | hleft
      · exact hcontinue
      · rw [alphanumeric_minus_nameContinue] at hleft
        rw [isStray, hleft] at hstray
        cases hstray

/-! ## Quoted texts -/

/-- The value of a hexadecimal digit. -/
def hexValue? (c : Char) : Option Nat :=
  if '0' ≤ c ∧ c ≤ '9' then some (c.toNat - '0'.toNat)
  else if 'a' ≤ c ∧ c ≤ 'f' then some (c.toNat - 'a'.toNat + 10)
  else if 'A' ≤ c ∧ c ≤ 'F' then some (c.toNat - 'A'.toNat + 10)
  else none

/-- The character of a code point of four digits. -/
def ofCode? (a b c d : Char) : Option Char := do
  let a ← hexValue? a
  let b ← hexValue? b
  let c ← hexValue? c
  let d ← hexValue? d
  let code := ((a * 16 + b) * 16 + c) * 16 + d
  if code.isValidChar then some (Char.ofNat code) else none

/-- The character for which a letter after a backslash stands. -/
def ofLetter? : Char → Option Char
  | '"' => some '"'
  | '\\' => some '\\'
  | 'n' => some '\n'
  | 'r' => some '\r'
  | 't' => some '\t'
  | _ => none

/-- What stands before the quote that ends a text, and what stands after it. -/
def readQuoted : List Char → Option (List Char × List Char)
  | [] => none
  | '"' :: rest => some ([], rest)
  | '\\' :: 'u' :: a :: b :: c :: d :: rest => do
      let char ← ofCode? a b c d
      let (text, after) ← readQuoted rest
      pure (char :: text, after)
  | '\\' :: letter :: rest => do
      let char ← ofLetter? letter
      let (text, after) ← readQuoted rest
      pure (char :: text, after)
  | '\\' :: [] => none
  | char :: rest => do
      let (text, after) ← readQuoted rest
      pure (char :: text, after)

theorem ofCode?_hexDigit {c : Char} (h : c.toNat < 0x20) :
    ofCode? '0' '0' (hexDigit (c.toNat / 16)) (hexDigit (c.toNat % 16)) = some c := by
  have hcode : ∀ n < 0x20, ofCode? '0' '0' (hexDigit (n / 16)) (hexDigit (n % 16)) =
      some (Char.ofNat n) := by decide
  rw [hcode _ h, Char.ofNat_toNat]

theorem ofLetter?_of_mem {c letter : Char} (h : (c, letter) ∈ sourceEscapes) :
    ofLetter? letter = some c ∧ letter ≠ 'u' := by
  have hletters : ∀ p ∈ sourceEscapes, ofLetter? p.2 = some p.1 ∧ p.2 ≠ 'u' := by decide
  exact hletters _ h

theorem readQuoted_letter {c letter : Char} (h : ofLetter? letter = some c) (hcode : letter ≠ 'u')
    (rest : List Char) : readQuoted ('\\' :: letter :: rest) =
      (readQuoted rest).map fun read => (c :: read.1, read.2) := by
  rw [readQuoted]
  · rw [h]
    cases readQuoted rest <;> rfl
  · intro a b c d after heq
    exact absurd heq hcode

theorem readQuoted_plain {c : Char} (hquote : c ≠ '"') (hbackslash : c ≠ '\\')
    (rest : List Char) : readQuoted (c :: rest) =
      (readQuoted rest).map fun read => (c :: read.1, read.2) := by
  rw [readQuoted]
  · cases readQuoted rest <;> rfl
  all_goals simp [hquote, hbackslash]

/-- An escaped character is read back. -/
theorem Escaped.readQuoted {c : Char} {text : List Char} (h : Escaped sourceEscapes c text)
    (rest : List Char) :
    Text.readQuoted (text ++ rest) =
      (Text.readQuoted rest).map fun read => (c :: read.1, read.2) := by
  cases h with
  | letter hmem =>
      obtain ⟨hletter, hcode⟩ := ofLetter?_of_mem hmem
      exact readQuoted_letter hletter hcode rest
  | code hcode =>
      simp only [List.cons_append, List.nil_append, Text.readQuoted, ofCode?_hexDigit hcode]
      cases Text.readQuoted rest <;> rfl
  | plain hquote hbackslash => exact readQuoted_plain hquote hbackslash rest

/-- **A quoted text is read back**, and its end is found. -/
theorem readQuoted_escape (rest : List Char) : ∀ text : List Char,
    readQuoted (escape sourceEscapes text ++ '"' :: rest) = some (text, rest)
  | [] => rfl
  | c :: text => by
      rw [escape_cons, List.append_assoc, (escaped_escapeChar sourceEscapes_faithful c).readQuoted,
        readQuoted_escape rest text]
      rfl

/-- No control character stands between the quotes. -/
theorem printable_escapeChar (c : Char) :
    ∀ d ∈ escapeChar sourceEscapes c, 0x20 ≤ d.toNat := by
  rw [escapeChar]
  split
  case h_1 letter hletter =>
    have hletters : ∀ p ∈ sourceEscapes, 0x20 ≤ p.2.toNat := by decide
    obtain ⟨before, after, hescapes, _⟩ := List.lookup_eq_some_iff.1 hletter
    intro d hd
    rcases List.mem_pair.1 hd with rfl | rfl
    · decide
    · exact hletters (c, d) (by simp [hescapes])
  case h_2 =>
    split
    case isTrue hcode =>
      have hdigits : ∀ n < 16, 0x20 ≤ (hexDigit n).toNat := by decide
      have hhigh := hdigits (c.toNat / 16) (by omega)
      have hlow := hdigits (c.toNat % 16) (by omega)
      simpa using ⟨hhigh, hlow⟩
    case isFalse hplain =>
      intro d hd
      rw [List.mem_singleton.1 hd]
      omega

theorem printable_escape (text : List Char) :
    ∀ d ∈ escape sourceEscapes text, 0x20 ≤ d.toNat := by
  intro d hd
  obtain ⟨c, _, hd⟩ := List.mem_flatMap.1 hd
  exact printable_escapeChar c d hd

end Text

namespace Node

open Literal (stringSource)

/-! ## Names -/

/-- Whether a character can begin a name in source. -/
def beginsName (c : Char) : Bool := Text.isNameStart c || c == '_' || c == '$'

/-- Whether a character can stand in a name in source. -/
def continuesName (c : Char) : Bool := Text.isNameContinue c || c == '$'

/-- Whether characters are a name in source. -/
def isName : List Char → Bool
  | [] => false
  | c :: rest => beginsName c && rest.all continuesName

/-- A character of keys without quotes can stand in a name unless it is stray. -/
theorem continuesName_iff {c : Char} (h : isKeyPart c = true) :
    continuesName c = true ↔ Text.isStray c = false := by
  rw [isKeyPart, Bool.or_eq_true, Bool.or_eq_true, beq_iff_eq, beq_iff_eq] at h
  rcases h with (halphanumeric | rfl) | rfl
  · rw [← Text.isNameContinue_iff halphanumeric, continuesName, Bool.or_eq_true, beq_iff_eq,
      or_iff_left_iff_imp]
    rintro rfl
    exact absurd halphanumeric (by decide)
  · decide +kernel
  · decide +kernel

/-- **A key without quotes is a name** where its first character begins names and none of the
others is stray. -/
theorem isName_iff_of_bare {c : Char} {rest : List Char} (h : isBareKey (c :: rest) = true) :
    isName (c :: rest) = true ↔
      beginsName c = true ∧ ∀ d ∈ rest, Text.isStray d = false := by
  obtain ⟨_, hparts⟩ := bareKey_parts h
  rw [isName, Bool.and_eq_true, List.all_eq_true]
  refine and_congr_right fun _ => forall₂_congr fun d hd => ?_
  exact continuesName_iff (hparts d (List.mem_cons_of_mem c hd))

theorem beginsName_of_ascii {c : Char} (h : isKeyPart c = true) (hascii : c.toNat < 0x80)
    (hdigit : c.isDigit = false) : beginsName c = true := by
  rw [isKeyPart, Bool.or_assoc, Bool.or_eq_true, Text.isAlphanumeric_of_ascii hascii,
    Char.isAlphanum, hdigit, Bool.or_false] at h
  rw [beginsName, Bool.or_assoc, Bool.or_eq_true, Text.isNameStart, if_pos hascii]
  exact h

/-- A key without quotes whose characters are in ASCII is a name. -/
theorem isName_of_ascii {key : List Char} (h : isBareKey key = true)
    (hascii : ∀ c ∈ key, c.toNat < 0x80) : isName key = true := by
  obtain ⟨hne, hparts⟩ := bareKey_parts h
  obtain ⟨c, rest, rfl⟩ := List.exists_cons_of_ne_nil hne
  have hdigit : c.isDigit = false := by
    rw [isBareKey, Bool.and_eq_true, Bool.not_eq_true'] at h
    exact h.1
  refine (isName_iff_of_bare h).2 ⟨?_, fun d hd => ?_⟩
  · exact beginsName_of_ascii (hparts c List.mem_cons_self) (hascii c List.mem_cons_self) hdigit
  · exact Text.ascii_not_isStray (hascii d (List.mem_cons_of_mem c hd))

/-! ## Keys -/

theorem propertyKey_injective : Function.Injective propertyKey := by
  intro key key' h
  have hcolon : (propertyKey key).toList ++ [':'] = (propertyKey key').toList ++ [':'] := by rw [h]
  exact (propertyKey_unique hcolon).1

/-- **Every key is read back.**  A key that is written as it is is made of characters of keys, and
it is a name where its first character begins names and none of the others is stray.  Any other
key is read back from between its quotes: no control character is among them, and the quote that
ends it is the first one that no escape holds.  Distinct keys are written as distinct texts. -/
theorem keys_read_back (key : String) :
    ((propertyKey key = key ∧ key.toList ≠ [] ∧ (∀ c ∈ key.toList, isKeyPart c = true) ∧
        (isName key.toList = true ↔
          (∃ c, key.toList.head? = some c ∧ beginsName c = true) ∧
            ∀ c ∈ key.toList.tail, Text.isStray c = false)) ∨
      ∃ body : List Char, (propertyKey key).toList = '"' :: body ++ ['"'] ∧
        (∀ c ∈ body, 0x20 ≤ c.toNat) ∧
        ∀ rest, Text.readQuoted (body ++ '"' :: rest) = some (key.toList, rest)) ∧
    ∀ key' : String, propertyKey key = propertyKey key' → key = key' := by
  refine ⟨?_, fun _ h => propertyKey_injective h⟩
  rw [propertyKey]
  split
  case isTrue hbare =>
    obtain ⟨hne, hparts⟩ := bareKey_parts hbare
    obtain ⟨c, rest, hkey⟩ := List.exists_cons_of_ne_nil hne
    refine .inl ⟨rfl, hne, hparts, ?_⟩
    rw [hkey] at hbare ⊢
    rw [isName_iff_of_bare hbare]
    simp only [List.head?_cons, List.tail_cons, Option.some.injEq, exists_eq_left']
  case isFalse =>
    exact .inr ⟨_, toList_stringSource key, Text.printable_escape _,
      fun rest => Text.readQuoted_escape rest key.toList⟩

/-- A numeral above the line is written without quotes and is no name. -/
theorem superscript_bare : propertyKey "²" = "²" ∧ isName "²".toList = false := by
  decide +kernel

end Node
end Schemata
