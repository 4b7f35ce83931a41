import Schemata.Proofs.Numerals

/-!
# How names, keys and literals are spelled

**Input.**  The parts of a line of generated source that stand for one thing: identifiers, keys
of objects and literals.

**Algorithm.**  Each of them is read from the left.  An identifier, a key without quotes and a
literal that is no text are runs of characters of a kind, which another character ends.  Between
quotes an escape is told apart by the character after its backslash.

**Results.**

* `Text.escape_unique`: a quoted text is read in one way, up to the quote that ends it.
* `Node.identifier_parts`: what an identifier is made of.
* `Node.propertyKey_unique`: a key is read in one way, up to the colon after it.
* `Literal.word_injective`: distinct literals that are no texts are distinct words.
-/

namespace Schemata

namespace Text

/-! ## Quoted texts -/

/-- Escapes that can be read: a quote and a backslash have one, no two characters share a letter
and none has the letter of code points. -/
structure Escapes.Faithful (escapes : Escapes) : Prop where
  quote : escapes.lookup '"' ≠ none
  backslash : escapes.lookup '\\' ≠ none
  letters : ∀ p ∈ escapes, ∀ q ∈ escapes, p.2 = q.2 → p.1 = q.1
  code : ∀ p ∈ escapes, p.2 ≠ 'u'

theorem sourceEscapes_faithful : sourceEscapes.Faithful := by
  constructor <;> decide

/-- A text stands for a character between quotes. -/
inductive Escaped (escapes : Escapes) (c : Char) : List Char → Prop
  | letter {letter : Char} : (c, letter) ∈ escapes → Escaped escapes c ['\\', letter]
  | code : c.toNat < 0x20 →
      Escaped escapes c
        ['\\', 'u', '0', '0', hexDigit (c.toNat / 16), hexDigit (c.toNat % 16)]
  | plain : c ≠ '"' → c ≠ '\\' → Escaped escapes c [c]

variable {escapes : Escapes} {c d : Char} {text text' rest rest' : List Char}

theorem escaped_escapeChar (h : escapes.Faithful) (c : Char) :
    Escaped escapes c (escapeChar escapes c) := by
  rw [escapeChar]
  split
  case h_1 letter hletter =>
    obtain ⟨before, after, hescapes, _⟩ := List.lookup_eq_some_iff.1 hletter
    exact .letter (by simp [hescapes])
  case h_2 hnone =>
    split
    case isTrue hcode => exact .code hcode
    case isFalse =>
      refine .plain ?_ ?_
      · rintro rfl
        exact h.quote hnone
      · rintro rfl
        exact h.backslash hnone

/-- No escaped character looks like the end of a text. -/
theorem Escaped.append_ne_quote (h : Escaped escapes c text) (rest : List Char) :
    text ++ rest ≠ '"' :: rest' := by
  intro heq
  cases h with
  | letter _ => exact absurd (List.cons.inj heq).1 (by decide)
  | code _ => exact absurd (List.cons.inj heq).1 (by decide)
  | plain hquote _ => exact hquote (List.cons.inj heq).1

/-- An escaped character at the start of a text is read in one way. -/
theorem Escaped.unique (h : escapes.Faithful) (hc : Escaped escapes c text)
    (hd : Escaped escapes d text') (heq : text ++ rest = text' ++ rest') :
    c = d ∧ rest = rest' := by
  cases hc with
  | letter hc =>
      cases hd with
      | letter hd =>
          obtain ⟨hletter, hrest⟩ := List.cons.inj (List.cons.inj heq).2
          exact ⟨h.letters _ hc _ hd hletter, hrest⟩
      | code _ => exact absurd (List.cons.inj (List.cons.inj heq).2).1 (h.code _ hc)
      | plain _ hbackslash => exact absurd (List.cons.inj heq).1.symm hbackslash
  | code hc =>
      cases hd with
      | letter hd => exact absurd (List.cons.inj (List.cons.inj heq).2).1.symm (h.code _ hd)
      | code hd =>
          simp only [List.cons_append, List.nil_append, List.cons.injEq, true_and] at heq
          obtain ⟨hhigh, hlow, hrest⟩ := heq
          have hhigh := hexDigit_injective _ (by omega) _ (by omega) hhigh
          have hlow := hexDigit_injective _ (by omega) _ (by omega) hlow
          exact ⟨Char.toNat_inj.1 (by omega), hrest⟩
      | plain _ hbackslash => exact absurd (List.cons.inj heq).1.symm hbackslash
  | plain _ hbackslash =>
      cases hd with
      | letter _ => exact absurd (List.cons.inj heq).1 hbackslash
      | code _ => exact absurd (List.cons.inj heq).1 hbackslash
      | plain _ _ => exact List.cons.inj heq

theorem escape_cons (c : Char) (text : List Char) :
    escape escapes (c :: text) = escapeChar escapes c ++ escape escapes text := rfl

/-- **A quoted text is read in one way**, up to the quote that ends it. -/
theorem escape_unique (h : escapes.Faithful) :
    ∀ {text text' : List Char},
      escape escapes text ++ '"' :: rest = escape escapes text' ++ '"' :: rest' →
        text = text' ∧ rest = rest'
  | [], [], heq => ⟨rfl, (List.cons.inj heq).2⟩
  | [], d :: text', heq => by
      rw [escape_cons, List.append_assoc] at heq
      exact absurd heq.symm ((escaped_escapeChar h d).append_ne_quote _)
  | c :: text, [], heq => by
      rw [escape_cons, List.append_assoc] at heq
      exact absurd heq ((escaped_escapeChar h c).append_ne_quote _)
  | c :: text, d :: text', heq => by
      rw [escape_cons, escape_cons, List.append_assoc, List.append_assoc] at heq
      obtain ⟨rfl, htext⟩ := (escaped_escapeChar h c).unique h (escaped_escapeChar h d) heq
      obtain ⟨rfl, hrest⟩ := escape_unique h htext
      exact ⟨rfl, hrest⟩

end Text

namespace Node

open Literal (stringSource)

variable {rest rest' : List Char}

/-! ## Identifiers -/

/-- The characters of identifiers. -/
def isPart (c : Char) : Bool := isPlain c || c == '$'

theorem isPlain_hexDigit : ∀ n < 16, isPlain (Nat.digitChar n) = true := by
  decide

theorem isPlain_of_mem_hexDigits {n : Nat} : ∀ c ∈ Text.hexDigits n, isPlain c = true := by
  induction n using Nat.strongRecOn with
  | ind n ih =>
      intro c hc
      rw [Text.hexDigits_eq, List.mem_append, List.mem_singleton] at hc
      rcases hc with hc | rfl
      · by_cases hlt : n < 16
        · rw [if_pos hlt] at hc
          cases hc
        · rw [if_neg hlt] at hc
          exact ih (n / 16) (by omega) c hc
      · exact isPlain_hexDigit _ (Nat.mod_lt _ (by omega))

theorem isPart_of_mem_codePoint {d : Char} : ∀ c ∈ codePoint d, isPart c = true := by
  intro c hc
  rw [codePoint, List.cons_append, List.mem_cons, List.mem_append, List.mem_singleton] at hc
  rcases hc with rfl | hc | rfl
  · rfl
  · rw [isPart, isPlain_of_mem_hexDigits c hc, Bool.true_or]
  · rfl

theorem isPart_of_mem_laterChar {d : Char} : ∀ c ∈ laterChar d, isPart c = true := by
  rw [laterChar]
  split
  case isTrue hplain =>
    intro c hc
    rw [List.mem_singleton.1 hc, isPart, hplain, Bool.true_or]
  case isFalse => exact isPart_of_mem_codePoint

theorem isPart_of_mem_firstChar {d : Char} : ∀ c ∈ firstChar d, isPart c = true := by
  rw [firstChar]
  split
  case isTrue hplain =>
    intro c hc
    rw [List.mem_singleton.1 hc, isPart, (Bool.and_eq_true_iff.1 hplain).1, Bool.true_or]
  case isFalse => exact isPart_of_mem_codePoint

theorem escapedName_parts (chars : List Char) :
    escapedName chars ≠ [] ∧ ∀ c ∈ escapedName chars, isPart c = true := by
  cases chars with
  | nil => exact ⟨List.cons_ne_nil _ _, List.all_eq_true.1 (by decide)⟩
  | cons d rest =>
      refine ⟨List.append_ne_nil_of_left_ne_nil (spells_firstChar d).ne_nil _, ?_⟩
      intro c hc
      rcases List.mem_append.1 hc with hc | hc
      · exact isPart_of_mem_firstChar c hc
      · obtain ⟨e, _, hc⟩ := List.mem_flatMap.1 hc
        exact isPart_of_mem_laterChar c hc

/-- An identifier is not empty and made of letters, digits, underscores and dollar signs. -/
theorem identifier_parts (name : String) :
    (identifier name).toList ≠ [] ∧ ∀ c ∈ (identifier name).toList, isPart c = true := by
  obtain ⟨hne, hparts⟩ := escapedName_parts name.toList
  simp only [identifier]
  split
  · rw [String.toList_append, String.toList_ofList]
    refine ⟨List.append_ne_nil_of_left_ne_nil hne _, fun c hc => ?_⟩
    rcases List.mem_append.1 hc with hc | hc
    · exact hparts c hc
    · rw [List.mem_singleton.1 hc]
      rfl
  · rw [String.toList_ofList]
    exact ⟨hne, hparts⟩

/-! ## Keys -/

/-- The characters of keys without quotes. -/
def isKeyPart (c : Char) : Bool := Text.isAlphanumeric c || c == '_' || c == '$'

theorem bareKey_parts {key : List Char} (h : isBareKey key = true) :
    key ≠ [] ∧ ∀ c ∈ key, isKeyPart c = true := by
  cases key with
  | nil => cases h
  | cons c rest =>
      rw [isBareKey, Bool.and_eq_true] at h
      exact ⟨List.cons_ne_nil _ _, List.all_eq_true.1 h.2⟩

theorem bareKey_append_ne_quote {key : List Char} (h : isBareKey key = true) :
    key ++ rest ≠ '"' :: rest' := by
  obtain ⟨hne, hparts⟩ := bareKey_parts h
  obtain ⟨c, others, rfl⟩ := List.exists_cons_of_ne_nil hne
  intro heq
  have hquote := hparts c List.mem_cons_self
  rw [(List.cons.inj heq).1] at hquote
  exact absurd hquote (by decide)

theorem toList_stringSource (text : String) :
    (stringSource text).toList = '"' :: Text.escape Text.sourceEscapes text.toList ++ ['"'] := by
  rw [stringSource, Text.quote, String.toList_ofList]

/-- A string literal is read in one way. -/
theorem stringSource_unique {text text' : String}
    (h : (stringSource text).toList ++ rest = (stringSource text').toList ++ rest') :
    text = text' ∧ rest = rest' := by
  simp only [toList_stringSource, List.cons_append, List.append_assoc, List.nil_append,
    List.cons.injEq, true_and] at h
  obtain ⟨htext, hrest⟩ := Text.escape_unique Text.sourceEscapes_faithful h
  exact ⟨String.toList_inj.1 htext, hrest⟩

/-- A key begins with a character of keys or with a quote. -/
theorem propertyKey_begins (key : String) :
    ∃ c others, (propertyKey key).toList = c :: others ∧ (isKeyPart c = true ∨ c = '"') := by
  rw [propertyKey]
  split
  case isTrue hbare =>
    obtain ⟨hne, hparts⟩ := bareKey_parts hbare
    obtain ⟨c, others, hkey⟩ := List.exists_cons_of_ne_nil hne
    exact ⟨c, others, hkey, .inl (hparts c (hkey ▸ List.mem_cons_self))⟩
  case isFalse => exact ⟨'"', _, toList_stringSource key, .inr rfl⟩

/-- **A key is read in one way**, up to the colon after it. -/
theorem propertyKey_unique {key key' : String}
    (h : (propertyKey key).toList ++ ':' :: rest = (propertyKey key').toList ++ ':' :: rest') :
    key = key' ∧ rest = rest' := by
  have hquoted : ∀ text : String, ∃ after, (stringSource text).toList = '"' :: after :=
    fun text => ⟨_, toList_stringSource text⟩
  have hcolon := Text.head?_cons_kind isKeyPart (c := ':') (by decide)
  rw [propertyKey, propertyKey] at h
  split at h
  case isTrue hbare =>
    split at h
    case isTrue hbare' =>
      obtain ⟨hkey, hrest⟩ := Text.run_unique isKeyPart (bareKey_parts hbare).2
        (bareKey_parts hbare').2 (hcolon rest) (hcolon rest') h
      exact ⟨String.toList_inj.1 hkey, (List.cons.inj hrest).2⟩
    case isFalse =>
      obtain ⟨after, hafter⟩ := hquoted key'
      rw [hafter] at h
      exact absurd h (bareKey_append_ne_quote hbare)
  case isFalse =>
    split at h
    case isTrue hbare' =>
      obtain ⟨after, hafter⟩ := hquoted key
      rw [hafter] at h
      exact absurd h.symm (bareKey_append_ne_quote hbare')
    case isFalse =>
      obtain ⟨hkey, hrest⟩ := stringSource_unique h
      exact ⟨hkey, (List.cons.inj hrest).2⟩

end Node

namespace Literal

/-! ## Literals -/

/-- A number that is none. -/
def isNaN : Literal → Bool
  | .number value => value.isNaN
  | _ => false

def isText : Literal → Bool
  | .string _ => true
  | _ => false

/-- The characters of literals that are no texts, and of methods of an identifier. -/
def isWordPart (c : Char) : Bool := Node.isPart c || c == '-' || c == '.'

theorem isWordPart_of_isPart {c : Char} (h : Node.isPart c = true) : isWordPart c = true := by
  rw [isWordPart, h, Bool.true_or, Bool.true_or]

theorem isWordPart_of_isDigit {c : Char} (h : c.isDigit = true) : isWordPart c = true := by
  simp [isWordPart, Node.isPart, Node.isPlain, Char.isAlphanum, h]

theorem isLower_of_isDigit {c : Char} (h : c.isDigit = true) : c.isLower = false := by
  unfold Char.isLower
  simp only [Char.isDigit, Bool.and_eq_true, decide_eq_true_eq, Bool.and_eq_false_iff,
    decide_eq_false_iff_not, ge_iff_le, UInt32.le_iff_toNat_le] at h ⊢
  exact .inl (fun hle => absurd (hle.trans h.2) (by decide))

/-- A word that begins with no small letter. -/
structure Numeral (word : String) : Prop where
  parts : ∀ c ∈ word.toList, isWordPart c = true
  begins : ∃ c, word.toList.head? = some c ∧ c.isLower = false

theorem Numeral.signed {word : String} (h : Numeral word) (negative : Prop) [Decidable negative] :
    Numeral (signed negative word) := by
  rw [Literal.signed]
  split
  · constructor
    · rw [String.toList_append]
      exact List.forall_mem_cons.2 ⟨by decide, h.parts⟩
    · exact ⟨'-', by rw [String.toList_append]; rfl, by decide⟩
  · rwa [String.empty_append]

theorem numeral_magnitudeText (x : Float) : Numeral (magnitudeText x) := by
  constructor
  · intro c hc
    rcases (shows_magnitudeText x).forall_mem c hc with hdigit | rfl
    · exact isWordPart_of_isDigit hdigit
    · decide
  · obtain ⟨c, hc, hdigit⟩ := head?_magnitudeText x
    exact ⟨c, hc, isLower_of_isDigit hdigit⟩

/-- A number in source is a word that begins with no small letter, even if it is none. -/
theorem numeral_numberSource (x : Float) : Numeral (numberSource x) := by
  cases hnan : x.isNaN with
  | true =>
      rw [numberSource, hnan, if_pos rfl]
      exact ⟨List.all_eq_true.1 (by decide), 'N', by decide, by decide⟩
  | false =>
      rw [numberSource_eq hnan]
      split
      · exact Numeral.signed ⟨List.all_eq_true.1 (by decide), 'I', by decide, by decide⟩ _
      · exact (numeral_magnitudeText x).signed _

theorem Numeral.ne {word other : String} (h : Numeral word) {c : Char}
    (hother : other.toList.head? = some c) (hlower : c.isLower = true) : word ≠ other := by
  rintro rfl
  obtain ⟨d, hd, hdlower⟩ := h.begins
  obtain rfl := Option.some.inj (hother.symm.trans hd)
  rw [hlower] at hdlower
  cases hdlower

/-- A literal that is no text is a word, and not the one that begins a function. -/
theorem source_word {literal : Literal} (h : literal.isText = false) :
    (∀ c ∈ literal.source.toList, isWordPart c = true) ∧ literal.source.toList ≠ [] ∧
      literal.source ≠ "function" := by
  cases literal with
  | null => exact ⟨List.all_eq_true.1 (by decide), by decide, by decide⟩
  | bool value =>
      cases value <;> exact ⟨List.all_eq_true.1 (by decide), by decide, by decide⟩
  | number value =>
      have hnumeral := numeral_numberSource value
      refine ⟨hnumeral.parts, ?_, hnumeral.ne (c := 'f') rfl rfl⟩
      obtain ⟨c, hc, _⟩ := hnumeral.begins
      intro hnil
      rw [show (numberSource value).toList = [] from hnil] at hc
      cases hc
  | string text => cases h

/-- **Distinct literals that are no texts are distinct words.** -/
theorem word_injective {literal other : Literal} (htext : literal.isText = false)
    (htext' : other.isText = false) (hnan : literal.isNaN = false) (hnan' : other.isNaN = false)
    (h : literal.source = other.source) : literal = other := by
  have hword : ∀ (x : Float) {other : Literal}, other.isText = false →
      (∀ y, other ≠ .number y) → numberSource x ≠ other.source := by
    intro x other htext hnumber
    have hnumeral := numeral_numberSource x
    cases other with
    | null => exact hnumeral.ne (c := 'n') rfl rfl
    | bool value =>
        cases value with
        | false => exact hnumeral.ne (c := 'f') rfl rfl
        | true => exact hnumeral.ne (c := 't') rfl rfl
    | number y => exact absurd rfl (hnumber y)
    | string text => cases htext
  cases literal with
  | string text => cases htext
  | number x =>
      cases other with
      | number y => rw [numberSource_injective hnan hnan' h]
      | _ => exact absurd h (hword x htext' nofun)
  | null =>
      cases other with
      | null => rfl
      | number y => exact absurd h.symm (hword y htext nofun)
      | bool value => cases value <;> exact absurd h (by decide)
      | string text => cases htext'
  | bool value =>
      cases other with
      | null => cases value <;> exact absurd h (by decide)
      | number y => exact absurd h.symm (hword y htext nofun)
      | bool value' => cases value <;> cases value' <;> first | rfl | exact absurd h (by decide)
      | string text => cases htext'

end Literal
end Schemata
