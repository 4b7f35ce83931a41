import Schemata.Decimal.Reading
import Schemata.Json.Source

/-!
# Taking JSON text apart

**Input.**  The characters of a text.

**Algorithm.**  Recursive descent.  A string is scanned into characters and
16-bit units, which are then paired.  A number without point and exponent that
fits a 64-bit word is an integer.  Every other number keeps as many leading
digits as fit a word without sign and is scaled by a power of ten in floating
point.

**Results.**  `Source.ofText` gives the tree and whether only blanks follow it;
`Value.ofText?` is the value of a text that is JSON throughout.
-/

namespace Schemata
namespace Json

/-- The blanks of JSON. -/
def isBlank (c : Char) : Bool := c == ' ' || c == '\t' || c == '\n' || c == '\r'

/-- A text from its first character that is no blank. -/
def skipBlanks (text : List Char) : List Char := text.dropWhile isBlank

/-! ## Strings -/

/-- A part of a string: a character, or a 16-bit unit from a `\u` escape. -/
inductive Piece where
  | char (c : Char)
  | unit (n : Nat)

/-- The value of a hexadecimal digit. -/
def hexValue? (c : Char) : Option Nat :=
  if '0' ≤ c ∧ c ≤ '9' then some (c.toNat - 48)
  else if 'a' ≤ c ∧ c ≤ 'f' then some (c.toNat - 87)
  else if 'A' ≤ c ∧ c ≤ 'F' then some (c.toNat - 55)
  else none

/-- The number that hexadecimal digits spell. -/
def hexNumber? (digits : List Char) : Option Nat :=
  digits.foldl (fun n c => n.bind fun n => (hexValue? c).map fun d => 16 * n + d) (some 0)

/-- The character that an escape letter stands for. -/
def escapedChar? : Char → Option Char
  | '"' => some '"'
  | '\\' => some '\\'
  | '/' => some '/'
  | 'b' => some '\x08'
  | 'f' => some '\x0c'
  | 'n' => some '\n'
  | 'r' => some '\r'
  | 't' => some '\t'
  | _ => none

/-- The pieces up to the closing quote and the text after it. -/
def pieces? : List Char → Option (List Piece × List Char)
  | [] => none
  | '"' :: rest => some ([], rest)
  | '\\' :: 'u' :: a :: b :: c :: d :: rest =>
      match hexNumber? [a, b, c, d], pieces? rest with
      | some n, some (pieces, after) => some (.unit n :: pieces, after)
      | _, _ => none
  | '\\' :: letter :: rest =>
      match escapedChar? letter, pieces? rest with
      | some c, some (pieces, after) => some (.char c :: pieces, after)
      | _, _ => none
  | c :: rest =>
      if c.toNat < 0x20 || c == '\\' then none
      else (pieces? rest).map fun (pieces, after) => (.char c :: pieces, after)

/-- The characters of pieces in which the units are paired. -/
def assemble? : List Piece → Option (List Char)
  | [] => some []
  | .char c :: rest => (assemble? rest).map (c :: ·)
  | .unit high :: .unit low :: rest =>
      if 0xD800 ≤ high ∧ high < 0xDC00 ∧ 0xDC00 ≤ low ∧ low < 0xE000 then
        (assemble? rest).map (Char.ofNat (0x10000 + (high - 0xD800) * 0x400 + (low - 0xDC00)) :: ·)
      else if 0xD800 ≤ high ∧ high < 0xE000 then none
      else (assemble? (.unit low :: rest)).map (Char.ofNat high :: ·)
  | .unit n :: rest =>
      if 0xD800 ≤ n ∧ n < 0xE000 then none else (assemble? rest).map (Char.ofNat n :: ·)

/-- A string after its opening quote, and the text after it. -/
def string? (text : List Char) : Option (Option String × List Char) :=
  (pieces? text).map fun (pieces, after) => ((assemble? pieces).map String.ofList, after)

/-! ## Numbers -/

/-- The largest word without a sign. -/
def maxWord : Nat := 0xFFFFFFFFFFFFFFFF

/-- The leading digits that fit a word after `start`, and how many are left. -/
def leadingDigits (start : Nat) : List Char → Nat × Nat
  | [] => (start, 0)
  | c :: rest =>
      let next := 10 * start + Decimal.digitValue c
      if maxWord < next then (start, rest.length + 1) else leadingDigits next rest

/-- A float scaled by `10 ^ exponent`, in steps of at most 308 places; nothing
where it grows beyond all floats. -/
def scale? : Nat → Float → Int → Option Float
  | 0, value, _ => some value
  | fuel + 1, value, exponent =>
      if exponent.natAbs ≤ 308 then
        let power := Float.ofScientific 1 false exponent.natAbs
        let scaled := if 0 ≤ exponent then value * power else value / power
        if scaled.isInf then none else some scaled
      else if value == 0.0 then some value
      else if 0 ≤ exponent then none
      else scale? fuel (value / 1e308) (exponent + 308)

/-- The parts of a number after its sign. -/
structure Numeral where
  whole : List Char
  fraction : Option (List Char)
  exponent : Option Int

def exponentDigits? (text : List Char) : Option (Nat × List Char) :=
  match text.takeWhile Char.isDigit with
  | [] => none
  | digits => some (Decimal.natOfDigits digits 0, text.dropWhile Char.isDigit)

/-- An exponent if there is one, and the text after it. -/
def exponent? : List Char → Option (Option Int × List Char)
  | mark :: rest =>
      if mark == 'e' || mark == 'E' then
        match rest with
        | '+' :: digits => (exponentDigits? digits).map fun (n, after) => (some (n : Int), after)
        | '-' :: digits => (exponentDigits? digits).map fun (n, after) => (some (-(n : Int)), after)
        | digits => (exponentDigits? digits).map fun (n, after) => (some (n : Int), after)
      else some (none, mark :: rest)
  | [] => some (none, [])

/-- The parts of a number after its sign, and the text after it. -/
def numeral? (text : List Char) : Option (Numeral × List Char) :=
  let whole := text.takeWhile Char.isDigit
  let rest := text.dropWhile Char.isDigit
  if whole.isEmpty || (whole.head? == some '0' && whole.length != 1) then none
  else
    match rest with
    | '.' :: after =>
        let fraction := after.takeWhile Char.isDigit
        if fraction.isEmpty then none
        else
          (exponent? (after.dropWhile Char.isDigit)).map fun (exponent, after) =>
            (⟨whole, some fraction, exponent⟩, after)
    | _ => (exponent? rest).map fun (exponent, after) => (⟨whole, none, exponent⟩, after)

/-- The float of a numeral, if it is in range. -/
def Numeral.float? (n : Numeral) : Option Float :=
  let (digits, left) := leadingDigits 0 n.whole
  let (digits, places) :=
    match n.fraction with
    | none => (digits, 0)
    | some fraction =>
        let (digits, ignored) := leadingDigits digits fraction
        (digits, fraction.length - ignored)
  scale? 4 (Float.ofNat digits) (n.exponent.getD 0 + left - places)

def Numeral.number? (n : Numeral) (negative : Bool) : Option Number :=
  let float := n.float?.map fun x => Number.float (if negative then -x else x)
  match n.fraction, n.exponent with
  | none, none =>
      let value := Decimal.natOfDigits n.whole 0
      if negative then
        if 0 < value ∧ value ≤ 0x8000000000000000 then some (.integer (-(value : Int))) else float
      else if value ≤ maxWord then some (.integer value)
      else float
  | _, _ => float

/-! ## Values -/

/-- The text after a word that it begins with. -/
def afterWord? (word : String) (text : List Char) : Option (List Char) :=
  if word.toList.isPrefixOf text then some (text.drop word.length) else none

/-- A number with its sign, and the text after it. -/
def numberSource (text : List Char) : Source × List Char :=
  let (negative, digits) :=
    match text with
    | '-' :: rest => (true, rest)
    | _ => (false, text)
  match numeral? digits with
  | some (n, after) => (.number (n.number? negative), after)
  | none => (.broken, [])

/-- A word that stands for a value, and the text after it. -/
def wordSource (word : String) (value : Source) (text : List Char) : Source × List Char :=
  match afterWord? word text with
  | some after => (value, after)
  | none => (.broken, [])

mutual
/-- The first value of a text, and the text after it. -/
def valueSource : Nat → List Char → Source × List Char
  | 0, _ => (.broken, [])
  | fuel + 1, text =>
      match skipBlanks text with
      | '"' :: rest =>
          match string? rest with
          | some (text, after) => (.string text, after)
          | none => (.broken, [])
      | '[' :: rest =>
          match skipBlanks rest with
          | ']' :: after => (.array [] true, after)
          | rest =>
              let (items, closed, after) := itemSources fuel rest
              (.array items closed, after)
      | '\x7b' :: rest =>
          match skipBlanks rest with
          | '\x7d' :: after => (.object [] true, after)
          | '"' :: rest =>
              let (members, closed, after) := memberSources fuel rest
              (.object members closed, after)
          | _ => (.object [] false, [])
      | 'n' :: rest => wordSource "null" .null ('n' :: rest)
      | 't' :: rest => wordSource "true" (.bool true) ('t' :: rest)
      | 'f' :: rest => wordSource "false" (.bool false) ('f' :: rest)
      | c :: rest => if c == '-' || c.isDigit then numberSource (c :: rest) else (.broken, [])
      | [] => (.broken, [])

/-- The items of an array from one of them on, whether the array is closed, and
the text after it. -/
def itemSources : Nat → List Char → List Source × Bool × List Char
  | 0, _ => ([], false, [])
  | fuel + 1, text =>
      let (item, rest) := valueSource fuel text
      match skipBlanks rest with
      | ']' :: after => ([item], true, after)
      | ',' :: rest =>
          match skipBlanks rest with
          | ']' :: _ => ([item], false, [])
          | rest =>
              let (items, closed, after) := itemSources fuel rest
              (item :: items, closed, after)
      | _ => ([item], false, [])

/-- The members of an object after the quote of a key, whether the object is
closed, and the text after it. -/
def memberSources : Nat → List Char → List (Option String × Source) × Bool × List Char
  | 0, _ => ([], false, [])
  | fuel + 1, text =>
      match string? text with
      | none => ([], false, [])
      | some (key, rest) =>
          match skipBlanks rest with
          | ':' :: rest =>
              let (member, rest) := valueSource fuel rest
              match skipBlanks rest with
              | '\x7d' :: after => ([(key, member)], true, after)
              | ',' :: rest =>
                  match skipBlanks rest with
                  | '"' :: rest =>
                      let (members, closed, after) := memberSources fuel rest
                      ((key, member) :: members, closed, after)
                  | _ => ([(key, member)], false, [])
              | _ => ([(key, member)], false, [])
          | _ => ([(key, .broken)], false, [])
end

/-- The first value of a text, and whether only blanks follow it. -/
def Source.ofText (text : String) : Source × Bool :=
  let chars := text.toList
  let (source, rest) := valueSource (2 * chars.length + 2) chars
  (source, (skipBlanks rest).isEmpty)

/-- The value of a text that is JSON throughout. -/
def Value.ofText? (text : String) : Option Value :=
  match Source.ofText text with
  | (source, true) => source.value?
  | (_, false) => none

end Json
end Schemata
