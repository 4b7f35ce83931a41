import Schemata.Literal
import Schemata.Text.Alphanumeric

/-!
# Identifiers and keys of generated source

Names of definitions may hold any character, identifiers of source may not.
`identifier` writes letters, digits and underscores of ASCII as they are and
every other character, a leading digit included, as its code point between
dollar signs; a reserved word gets a dollar sign at its end and the empty name
is a single one.  So distinct names have distinct identifiers.

`definitionName` keeps the function of a definition apart from the root
identifier, and `propertyKey` quotes a key only where it has to.

**Results.**  `definitionName_ne_root` and `definitionName_injective`: the function of a
definition is not the root, and distinct definitions have distinct functions.
-/

namespace Schemata
namespace Node

/-- The root identifier of source for which no other is asked. -/
def defaultRoot : String := "schemable"

/-- Words that are no identifiers. -/
def reservedWords : List String := [
  "break", "case", "catch", "class", "const", "continue", "debugger", "default", "delete",
  "do", "else", "enum", "export", "extends", "false", "finally", "for", "function", "if",
  "import", "in", "instanceof", "new", "null", "return", "super", "switch", "this", "throw",
  "true", "try", "typeof", "var", "void", "while", "with", "yield", "let", "static",
  "implements", "interface", "package", "private", "protected", "public", "await"]

/-- Characters that stand for themselves in an identifier, but for a digit in
the first place. -/
def isPlain (c : Char) : Bool := c.isAlphanum || c == '_'

/-- The code point of a character between dollar signs. -/
def codePoint (c : Char) : List Char := '$' :: Text.hexDigits c.toNat ++ ['$']

/-- A character after the first one of an identifier. -/
def laterChar (c : Char) : List Char := if isPlain c then [c] else codePoint c

/-- The first character of an identifier. -/
def firstChar (c : Char) : List Char :=
  if isPlain c && !c.isDigit then [c] else codePoint c

/-- The characters of a name, escaped. -/
def escapedName : List Char → List Char
  | [] => ['$']
  | c :: rest => firstChar c ++ rest.flatMap laterChar

/-- The identifier of a name. -/
def identifier (name : String) : String :=
  let escaped := String.ofList (escapedName name.toList)
  if escaped ∈ reservedWords then escaped ++ "$" else escaped

/-- What follows a leading part of a text. -/
def afterStart? (start text : List Char) : Option (List Char) :=
  if start.isPrefixOf text then some (text.drop start.length) else none

/-- The name of the function that defines the lazy schema `id`: the id itself,
or with one more underscore where it is the root followed by underscores only. -/
def definitionName (id root : String) : String :=
  match afterStart? root.toList id.toList with
  | some rest => if rest.all (· == '_') then id ++ "_" else id
  | none => id

theorem afterStart?_eq_some {start text rest : List Char} :
    afterStart? start text = some rest ↔ text = start ++ rest := by
  rw [afterStart?]
  by_cases h : start <+: text
  · obtain ⟨others, rfl⟩ := h
    simp
  · have hstart : start.isPrefixOf text = false := by
      exact Bool.eq_false_iff.2 fun hb => h (List.isPrefixOf_iff_prefix.1 hb)
    rw [hstart]
    constructor
    · intro hnone
      simp at hnone
    · rintro rfl
      exact absurd (List.prefix_append start rest) h

/-- A definition is renamed where it is the root followed by underscores only. -/
theorem definitionName_cases (id root : String) :
    (∃ n, id.toList = root.toList ++ List.replicate n '_' ∧ definitionName id root = id ++ "_") ∨
      ((∀ n, id.toList ≠ root.toList ++ List.replicate n '_') ∧ definitionName id root = id) := by
  rw [definitionName]
  cases hafter : afterStart? root.toList id.toList with
  | none =>
      refine .inr ⟨fun n h => ?_, rfl⟩
      rw [afterStart?_eq_some.2 h] at hafter
      cases hafter
  | some rest =>
      have hid := afterStart?_eq_some.1 hafter
      by_cases hall : rest.all (· == '_') = true
      · have hrest : rest = List.replicate rest.length '_' :=
          List.eq_replicate_of_mem fun c hc => by simpa using List.all_eq_true.1 hall c hc
        exact .inl ⟨rest.length, by rw [hid, ← hrest], by simp [hall]⟩
      · refine .inr ⟨fun n h => hall ?_, by simp [hall]⟩
        rw [hid] at h
        rw [List.append_cancel_left h]
        simp

theorem definitionName_ne_root (id root : String) : definitionName id root ≠ root := by
  rcases definitionName_cases id root with ⟨n, hid, hname⟩ | ⟨hid, hname⟩
  · intro h
    have hlength := congrArg (fun name => name.toList.length) (hname.symm.trans h)
    simp [hid] at hlength
  · intro h
    refine hid 0 ?_
    rw [← hname, h]
    simp

theorem definitionName_injective {id id' root : String}
    (h : definitionName id root = definitionName id' root) : id = id' := by
  rcases definitionName_cases id root with ⟨n, hid, hname⟩ | ⟨hid, hname⟩
  · rcases definitionName_cases id' root with ⟨n', hid', hname'⟩ | ⟨hid', hname'⟩
    · rw [hname, hname'] at h
      exact String.append_left_inj _ |>.1 h
    · refine absurd ?_ (hid' (n + 1))
      rw [← hname', ← h, hname, String.toList_append, hid, List.replicate_succ']
      simp
  · rcases definitionName_cases id' root with ⟨n', hid', hname'⟩ | ⟨hid', hname'⟩
    · refine absurd ?_ (hid (n' + 1))
      rw [← hname, h, hname', String.toList_append, hid', List.replicate_succ']
      simp
    · rw [← hname, h, hname']

/-- Whether a key can be written without quotes. -/
def isBareKey : List Char → Bool
  | [] => false
  | c :: rest =>
      !c.isDigit && (c :: rest).all fun c => Text.isAlphanumeric c || c == '_' || c == '$'

/-- A key of an object expression. -/
def propertyKey (key : String) : String :=
  if isBareKey key.toList then key else Literal.stringSource key

end Node
end Schemata
