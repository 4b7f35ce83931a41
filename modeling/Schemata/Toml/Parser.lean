import Schemata.Toml.Lexeme
import Schemata.Toml.Table

/-!
# Reading TOML text

**Input.**  The text of a table.

**Algorithm.**  A text is a run of lines: headers, and keys with values.  An
array may go on over several lines, a table between braces may not.  The room
that a value has bounds how deep arrays and such tables are nested.

**Results.**  `ofText?` is the table that a text writes; dates and times stand
in it as objects with their text under `momentKey`.
-/

namespace Schemata
namespace Toml

open Json (Value)

/-! ## Values -/

/-- A value that begins with a given word. -/
def word? (word : String) (value : Value) (text : List Char) : Option (Value × List Char) :=
  if word.toList.isPrefixOf text then some (value, text.drop word.length) else none

/-- A value that holds no other values. -/
def scalar? (text : List Char) : Option (Value × List Char) :=
  match text with
  | '"' :: _ => (string? text).map fun (s, rest) => (.string s, rest)
  | '\'' :: _ => (string? text).map fun (s, rest) => (.string s, rest)
  | 't' :: _ => word? "true" (.bool true) text
  | 'f' :: _ => word? "false" (.bool false) text
  | _ => number? text

/-- The items of an array after its bracket or a comma, with the way to read
one of them. -/
def items? (value? : List Char → Option (Value × List Char)) :
    Nat → List Char → Option (List Value × List Char)
  | 0, _ => none
  | fuel + 1, text =>
      match skipLines text.length text with
      | ']' :: rest => some ([], rest)
      | text => do
          let (item, rest) ← value? text
          match skipLines rest.length rest with
          | ',' :: rest => do
              let (items, rest) ← items? value? fuel rest
              some (item :: items, rest)
          | ']' :: rest => some ([item], rest)
          | _ => none

/-- Splits a path into the way to a table and the key in it. -/
def splitPath? (path : List String) : Option (List String × String) :=
  path.getLast?.map fun key => (path.dropLast, key)

/-- A key with points and the value after it. -/
def pair? (value? : List Char → Option (Value × List Char)) (text : List Char) :
    Option ((List String × String × Value) × List Char) := do
  let (path, rest) ← path? text
  let (parents, key) ← splitPath? path
  let rest ← expect? '=' rest
  let (value, rest) ← value? (skipBlanks rest)
  some ((parents, key, value), rest)

/-- The entries of a table between braces, from its next pair on. -/
def pairs? (value? : List Char → Option (Value × List Char)) :
    Nat → Entries Item → List Char → Option (Entries Item × List Char)
  | 0, _, _ => none
  | fuel + 1, entries, text => do
      let ((parents, key, value), rest) ← pair? value? text
      let entries ← addValue? parents key value entries
      match skipBlanks rest with
      | ',' :: rest => pairs? value? fuel entries rest
      | '\x7d' :: rest => some (entries, rest)
      | _ => none

/-- A value with room for some levels of nesting. -/
def value? : Nat → List Char → Option (Value × List Char)
  | 0, text => scalar? text
  | room + 1, '[' :: rest =>
      (items? (value? room) (rest.length + 1) rest).map fun (items, rest) => (.array items, rest)
  | room + 1, '\x7b' :: rest =>
      match skipBlanks rest with
      | '\x7d' :: rest => some (.object [], rest)
      | _ =>
          (pairs? (value? room) (rest.length + 1) [] rest).map fun (entries, rest) =>
            (.object (Item.toMembers entries), rest)
  | _ + 1, text => scalar? text

/-! ## Lines -/

/-- A header with the end of its line. -/
def header? (closing : List Char) (text : List Char) :
    Option ((List String × String) × List Char) := do
  let (path, rest) ← path? text
  let place ← splitPath? path
  if closing.isPrefixOf rest then do
    let rest ← lineEnd? (rest.drop closing.length)
    some (place, rest)
  else none

/-- A draft after the lines of a text. -/
def written? : Nat → Draft → List Char → Option Draft
  | 0, _, _ => none
  | fuel + 1, draft, text =>
      match skipBlanks text with
      | [] => some draft
      | '[' :: '[' :: rest => do
          let ((parents, key), rest) ← header? [']', ']'] rest
          written? fuel (← draft.openElement? parents key) rest
      | '[' :: rest => do
          let ((parents, key), rest) ← header? [']'] rest
          written? fuel (← draft.openTable? parents key) rest
      | text =>
          match lineEnd? text with
          | some rest => written? fuel draft rest
          | none => do
              let ((parents, key, value), rest) ← pair? (value? (limit - 1)) text
              let rest ← lineEnd? rest
              written? fuel (← draft.addValue? parents key value) rest

/-- The table of a text, which may begin with a mark of its byte order. -/
def ofText? (text : String) : Option Value :=
  let text :=
    match text.toList with
    | c :: rest => if c.toNat == 0xFEFF then rest else c :: rest
    | [] => []
  ((written? (text.length + 1) {} text).bind Draft.close?).map fun entries =>
    .object (Item.toMembers entries)

end Toml
end Schemata
