import Schemata.Text.Visible

/-!
# Quoted text

Three spellings of a text between double quotes.

* `quote` writes a control character as a short escape, where its table has one,
  or as four hexadecimal digits after `\u`, and every other character as it is.
  The tables `jsonEscapes` and `sourceEscapes` give the two languages that use
  it.
* `display` is for messages: hidden characters are written as `\u` and the code
  point in braces.
-/

namespace Schemata
namespace Text

/-- The escape letters of a quoted text, by the character that they stand for. -/
abbrev Escapes := List (Char × Char)

/-- The escape letters of JSON. -/
def jsonEscapes : Escapes :=
  [('"', '"'), ('\\', '\\'), ('\x08', 'b'), ('\x0c', 'f'), ('\n', 'n'), ('\r', 'r'), ('\t', 't')]

/-- The escape letters of string literals in generated source. -/
def sourceEscapes : Escapes :=
  [('"', '"'), ('\\', '\\'), ('\n', 'n'), ('\r', 'r'), ('\t', 't')]

/-- A hexadecimal digit below sixteen. -/
def hexDigit (n : Nat) : Char := Nat.digitChar n

def hexDigits (n : Nat) : List Char := Nat.toDigits 16 n

/-- One character as it stands inside the quotes. -/
def escapeChar (escapes : Escapes) (c : Char) : List Char :=
  match escapes.lookup c with
  | some letter => ['\\', letter]
  | none =>
      if c.toNat < 0x20 then
        ['\\', 'u', '0', '0', hexDigit (c.toNat / 16), hexDigit (c.toNat % 16)]
      else [c]

/-- The characters between the quotes. -/
def escape (escapes : Escapes) (text : List Char) : List Char :=
  text.flatMap (escapeChar escapes)

def quote (escapes : Escapes) (text : String) : String :=
  String.ofList ('"' :: escape escapes text.toList ++ ['"'])

/-- One character of a text shown in a message. -/
def displayChar : Char → List Char
  | '"' => ['\\', '"']
  | '\\' => ['\\', '\\']
  | '\x00' => ['\\', '0']
  | '\t' => ['\\', 't']
  | '\r' => ['\\', 'r']
  | '\n' => ['\\', 'n']
  | c =>
      if isHidden c then ['\\', 'u', '\x7b'] ++ hexDigits c.toNat ++ ['\x7d']
      else [c]

/-- A text as messages show it. -/
def display (text : String) : String :=
  String.ofList ('"' :: text.toList.flatMap displayChar ++ ['"'])

end Text
end Schemata
