import Schemata.Proofs.Spelling

/-!
# Identifiers are legal and stay apart

**Input.**  Names of any characters, and root identifiers of any characters.

**Algorithm.**  Escaping leaves letters, digits, underscores and dollar signs, and never a digit
in the first place.  The mark of a reserved word is a dollar sign, which no reserved word holds,
so that a marked one is none.

**Results.**

* `identifier_legal`: the identifier of a name is a word and not reserved.
* `identifiers_apart`: distinct definitions have distinct functions, other than the root, also as
  identifiers; and identifiers are legal, distinct ones for distinct names.
-/

namespace Schemata
namespace Node

/-- A text with the form of an identifier. -/
structure IsWord (text : String) : Prop where
  nonempty : text ≠ ""
  parts : ∀ c ∈ text.toList, c.isAlphanum = true ∨ c = '_' ∨ c = '$'
  begins : ∀ c ∈ text.toList.head?, c.isDigit = false

-- The tests go through the text, since a quantifier over characters can be decided by going
-- through all characters that there are.
instance (text : String) : Decidable (IsWord text) :=
  decidable_of_iff (text ≠ "" ∧
      (text.toList.all fun c => c.isAlphanum || c == '_' || c == '$') = true ∧
      (text.toList.head?.all fun c => !c.isDigit) = true) <| by
    constructor
    · rintro ⟨hnonempty, hparts, hbegins⟩
      exact ⟨hnonempty, by simpa [or_assoc] using hparts,
        by simpa [Option.all_eq_true] using hbegins⟩
    · intro h
      exact ⟨h.nonempty, by simpa [or_assoc] using h.parts,
        by simpa [Option.all_eq_true] using h.begins⟩

/-- A text that can be an identifier. -/
structure IsIdentifier (text : String) : Prop extends IsWord text where
  free : text ∉ reservedWords

/-- An escaped name begins with no digit. -/
theorem escapedName_begins (chars : List Char) :
    ∃ c rest, escapedName chars = c :: rest ∧ c.isDigit = false := by
  cases chars with
  | nil => exact ⟨'$', [], rfl, by decide⟩
  | cons d rest =>
      rw [escapedName, firstChar]
      split
      case isTrue hplain =>
        exact ⟨d, _, rfl, by simpa using (Bool.and_eq_true_iff.1 hplain).2⟩
      case isFalse => exact ⟨'$', _, rfl, by decide⟩

theorem identifier_begins (name : String) :
    ∃ c rest, (identifier name).toList = c :: rest ∧ c.isDigit = false := by
  obtain ⟨c, rest, hescaped, hc⟩ := escapedName_begins name.toList
  simp only [identifier]
  split
  · exact ⟨c, rest ++ ['$'], by simp [hescaped], hc⟩
  · exact ⟨c, rest, by simp [hescaped], hc⟩

theorem identifier_not_reserved (name : String) : identifier name ∉ reservedWords := by
  simp only [identifier]
  split
  case isTrue =>
    intro hmem
    refine dollar_notMem_reservedWord _ hmem ?_
    simp
  case isFalse hfree => exact hfree

/-- **Identifiers are legal.** -/
theorem identifier_legal (name : String) : IsIdentifier (identifier name) := by
  obtain ⟨c, rest, hchars, hc⟩ := identifier_begins name
  constructor
  · constructor
    · rintro hempty
      rw [hempty] at hchars
      cases hchars
    · intro d hd
      have hpart := (identifier_parts name).2 d hd
      rw [isPart, isPlain, Bool.or_eq_true, Bool.or_eq_true, beq_iff_eq, beq_iff_eq] at hpart
      exact or_assoc.1 hpart
    · rw [hchars]
      rintro d ⟨⟩
      exact hc
  · exact identifier_not_reserved name

/-- **Names stay apart.**  On any root, distinct definitions have functions of distinct
identifiers, and none of them is the identifier of the root.  Distinct names have distinct
identifiers at all, and every identifier is legal. -/
theorem identifiers_apart (root : String) :
    (∀ a b, a ≠ b →
      identifier (definitionName a root) ≠ identifier (definitionName b root)) ∧
    (∀ a, identifier (definitionName a root) ≠ identifier root) ∧
    Function.Injective identifier ∧
    ∀ name, IsIdentifier (identifier name) := by
  refine ⟨fun a b hne heq => ?_, fun a heq => ?_, fun _ _ => identifier_injective,
    identifier_legal⟩
  · exact hne (definitionName_injective (identifier_injective heq))
  · exact definitionName_ne_root a root (identifier_injective heq)

/-- On a root of underscores, definitions of underscores move on by one each. -/
theorem underscores_apart :
    "_" ≠ "__" ∧ identifier (definitionName "_" "_") = "__" ∧
      identifier (definitionName "_" "_") ≠ identifier (definitionName "__" "_") ∧
      identifier (definitionName "_" "_") ≠ identifier "_" ∧
      identifier "__" ≠ identifier "_" ∧ IsIdentifier (identifier "1 class") := by
  obtain ⟨hapart, hroot, hinjective, hlegal⟩ := identifiers_apart "_"
  have hne : "_" ≠ "__" := by decide
  exact ⟨hne, by decide, hapart _ _ hne, hroot _, fun h => hne (hinjective h).symm, hlegal _⟩

end Node
end Schemata
