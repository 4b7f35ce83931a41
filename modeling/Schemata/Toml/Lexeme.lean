import Schemata.Decimal.Reading
import Schemata.Json.Parser
import Schemata.Json.Value

/-!
# The smallest parts of TOML text

Blanks, comments, strings, keys, numbers, dates and times.  Every reader takes
the characters of a text and gives what it read and the text after it, or
nothing where its part is not in good form.
-/

namespace Schemata
namespace Toml

open Json (Value)

/-! ## Blanks and comments -/

/-- Blanks inside a line. -/
def isBlank (c : Char) : Bool := c == ' ' || c == '\t'

/-- A text from its first character that is no blank. -/
def skipBlanks (text : List Char) : List Char := text.dropWhile isBlank

/-- Characters of comments and strings: no control characters but tabs. -/
def isPrintable (c : Char) : Bool := c == '\t' || (0x20 ≤ c.toNat && c.toNat != 0x7F)

/-- The text after a line break. -/
def newline? : List Char → Option (List Char)
  | '\n' :: rest => some rest
  | '\r' :: '\n' :: rest => some rest
  | _ => none

/-- A text from the end of a comment that it may begin with. -/
def skipComment (text : List Char) : List Char :=
  match text with
  | '#' :: rest => rest.dropWhile isPrintable
  | _ => text

/-- The text after the rest of a line, which holds nothing. -/
def lineEnd? (text : List Char) : Option (List Char) :=
  match skipComment (skipBlanks text) with
  | [] => some []
  | rest => newline? rest

/-- A text from its first character that is no blank, line break or comment,
sought for some steps. -/
def skipLines : Nat → List Char → List Char
  | 0, text => text
  | fuel + 1, text =>
      match text with
      | '#' :: rest => skipLines fuel (rest.dropWhile isPrintable)
      | c :: rest =>
          if isBlank c then skipLines fuel rest
          else
            match newline? (c :: rest) with
            | some after => skipLines fuel after
            | none => c :: rest
      | [] => []

/-! ## Strings -/

def charOf? (code : Nat) : Option Char :=
  if code < 0xD800 ∨ (0xE000 ≤ code ∧ code < 0x110000) then some (Char.ofNat code) else none

/-- The character that a number of hexadecimal digits spell. -/
def hexChar? (count : Nat) (text : List Char) : Option (Char × List Char) := do
  let digits := text.take count
  if digits.length != count then none
  else
    let code ← Json.hexNumber? digits
    let c ← charOf? code
    some (c, text.drop count)

/-- The character of an escape, after its backslash. -/
def escape? : List Char → Option (Char × List Char)
  | 'b' :: rest => some ('\x08', rest)
  | 't' :: rest => some ('\t', rest)
  | 'n' :: rest => some ('\n', rest)
  | 'f' :: rest => some ('\x0c', rest)
  | 'r' :: rest => some ('\r', rest)
  | '"' :: rest => some ('"', rest)
  | '\\' :: rest => some ('\\', rest)
  | 'u' :: rest => hexChar? 4 rest
  | 'U' :: rest => hexChar? 8 rest
  | _ => none

/-- A string on one line with escapes, after its opening quote. -/
def basic? : Nat → List Char → Option (List Char × List Char)
  | 0, _ => none
  | fuel + 1, text =>
      match text with
      | '"' :: rest => some ([], rest)
      | '\\' :: rest => do
          let (c, rest) ← escape? rest
          let (cs, rest) ← basic? fuel rest
          some (c :: cs, rest)
      | c :: rest =>
          if isPrintable c then do
            let (cs, rest) ← basic? fuel rest
            some (c :: cs, rest)
          else none
      | [] => none

/-- A string on one line without escapes, after its opening quote. -/
def literal? (text : List Char) : Option (List Char × List Char) :=
  let content := text.takeWhile fun c => c != '\'' && isPrintable c
  match text.drop content.length with
  | '\'' :: rest => some (content, rest)
  | _ => none

/-- How a run of quotes goes on inside a string of several lines: up to two
quotes belong to it, and from three on the last three end it. -/
inductive QuoteRun where
  | inside (count : Nat)
  | closing (extra : Nat)

/-- What a run of quotes means. -/
def quoteRun? (count : Nat) : Option QuoteRun :=
  if count < 3 then some (.inside count)
  else if count ≤ 5 then some (.closing (count - 3))
  else none

/-- A text from its first character that is no blank and no line break, sought
for some steps. -/
def skipBreaks : Nat → List Char → List Char
  | 0, text => text
  | fuel + 1, text =>
      match newline? (skipBlanks text) with
      | some after => skipBreaks fuel after
      | none => skipBlanks text

/-- A string of several lines, after its opening quotes and a line break.  A
backslash at the end of a line joins it to the next text. -/
def lines? (quote : Char) (escapes : Bool) : Nat → List Char → Option (List Char × List Char)
  | 0, _ => none
  | fuel + 1, text =>
      match text with
      | [] => none
      | c :: rest =>
          if c == quote then
            let count := (text.takeWhile (· == quote)).length
            match quoteRun? count with
            | some (.inside count) => do
                let (cs, rest) ← lines? quote escapes fuel (text.drop count)
                some (List.replicate count quote ++ cs, rest)
            | some (.closing extra) => some (List.replicate extra quote, text.drop count)
            | none => none
          else if escapes && c == '\\' then
            match newline? (skipBlanks rest) with
            | some after =>
                lines? quote escapes fuel (skipBreaks after.length after)
            | none => do
                let (c, rest) ← escape? rest
                let (cs, rest) ← lines? quote escapes fuel rest
                some (c :: cs, rest)
          else
            match newline? text with
            | some after => do
                let (cs, rest) ← lines? quote escapes fuel after
                some ('\n' :: cs, rest)
            | none =>
                if isPrintable c then do
                  let (cs, rest) ← lines? quote escapes fuel rest
                  some (c :: cs, rest)
                else none

/-- A string of several lines, after its opening quotes. -/
def multiline? (quote : Char) (escapes : Bool) (text : List Char) :
    Option (List Char × List Char) :=
  let text := (newline? text).getD text
  lines? quote escapes (text.length + 1) text

def string? : List Char → Option (String × List Char)
  | '"' :: '"' :: '"' :: rest => (multiline? '"' true rest).map fun (cs, r) => (String.ofList cs, r)
  | '"' :: rest => (basic? (rest.length + 1) rest).map fun (cs, r) => (String.ofList cs, r)
  | '\'' :: '\'' :: '\'' :: rest =>
      (multiline? '\'' false rest).map fun (cs, r) => (String.ofList cs, r)
  | '\'' :: rest => (literal? rest).map fun (cs, r) => (String.ofList cs, r)
  | _ => none

/-! ## Keys -/

def isBareKeyChar (c : Char) : Bool := c.isAlphanum || c == '_' || c == '-'

/-- One part of a key. -/
def simpleKey? : List Char → Option (String × List Char)
  | '"' :: rest => (basic? (rest.length + 1) rest).map fun (cs, r) => (String.ofList cs, r)
  | '\'' :: rest => (literal? rest).map fun (cs, r) => (String.ofList cs, r)
  | text =>
      match text.takeWhile isBareKeyChar with
      | [] => none
      | key => some (String.ofList key, text.drop key.length)

/-- A key of parts between points, with the blanks after it. -/
def key? : Nat → List Char → Option (List String × List Char)
  | 0, _ => none
  | fuel + 1, text => do
      let (part, rest) ← simpleKey? (skipBlanks text)
      match skipBlanks rest with
      | '.' :: rest => do
          let (parts, rest) ← key? fuel rest
          some (part :: parts, rest)
      | rest => some ([part], rest)

/-- How deep containers may be nested, and how many parts a key may have. -/
def limit : Nat := 80

/-- A key that has not too many parts. -/
def path? (text : List Char) : Option (List String × List Char) := do
  let (parts, rest) ← key? (text.length + 1) text
  if parts.length < limit then some (parts, rest) else none

/-! ## Numbers -/

/-- Digits of a class, single underscores between them allowed. -/
def digits? (isDigit : Char → Bool) : List Char → Option (List Char × List Char)
  | [] => none
  | c :: rest =>
      if isDigit c then
        match rest with
        | '_' :: next :: rest =>
            if isDigit next then do
              let (ds, rest) ← digits? isDigit (next :: rest)
              some (c :: ds, rest)
            else none
        | '_' :: [] => none
        | next :: rest =>
            if isDigit next then do
              let (ds, rest) ← digits? isDigit (next :: rest)
              some (c :: ds, rest)
            else some ([c], next :: rest)
        | [] => some ([c], [])
      else none

/-- Decimal digits without a leading zero. -/
def wholeDigits? : List Char → Option (List Char × List Char)
  | '0' :: rest => some (['0'], rest)
  | text => digits? Char.isDigit text

/-- A sign, if there is one: whether it is negative. -/
def sign : List Char → Bool × List Char
  | '-' :: rest => (true, rest)
  | '+' :: rest => (false, rest)
  | text => (false, text)

/-- The exponent of a float, after its mark. -/
def exponent? (text : List Char) : Option (Int × List Char) := do
  let (negative, rest) := sign text
  let (digits, rest) ← digits? Char.isDigit rest
  let value : Int := Decimal.natOfDigits digits 0
  some (if negative then -value else value, rest)

/-- An exponent, if there is one. -/
def optionalExponent? (text : List Char) : Option (Option Int × List Char) :=
  match text with
  | 'e' :: rest => (exponent? rest).map fun (e, r) => (some e, r)
  | 'E' :: rest => (exponent? rest).map fun (e, r) => (some e, r)
  | _ => some (none, text)

/-- The float of a number with its sign; too large a number above zero is none. -/
def floatOf? (negative : Bool) (whole fraction : List Char) (exponent : Int) : Option Value :=
  let size :=
    Decimal.nearest (Decimal.natOfDigits (whole ++ fraction) 0) (exponent - fraction.length)
  if negative then some (.number (.float (-size)))
  else if size.isInf then none
  else some (.number (.float size))

/-- A float: a fraction, an exponent or both, or a word. -/
def float? (text : List Char) : Option (Value × List Char) :=
  let (negative, rest) := sign text
  match rest with
  | 'i' :: 'n' :: 'f' :: rest =>
      some (.number (.float (if negative then -Decimal.infinity else Decimal.infinity)), rest)
  | 'n' :: 'a' :: 'n' :: rest => some (.number (.float Decimal.notANumber), rest)
  | _ => do
      let (whole, rest) ← wholeDigits? rest
      match rest with
      | '.' :: rest => do
          let (fraction, rest) ← digits? Char.isDigit rest
          let (exponent, rest) ← optionalExponent? rest
          some (← floatOf? negative whole fraction (exponent.getD 0), rest)
      | _ => do
          let (exponent, rest) ← optionalExponent? rest
          some (← floatOf? negative whole [] (← exponent), rest)

/-- An integer that fits a 64-bit word with a sign. -/
def integerOf? (value : Int) : Option Value :=
  if -0x8000000000000000 ≤ value ∧ value < 0x8000000000000000 then some (.number (.integer value))
  else none

/-- An integer in a base other than ten, after its mark. -/
def radix? (base : Nat) (text : List Char) : Option (Value × List Char) := do
  let valueOf (c : Char) : Option Nat := (Json.hexValue? c).filter (· < base)
  let (digits, rest) ← digits? (fun c => (valueOf c).isSome) text
  let value := digits.foldl (fun n c => base * n + (valueOf c).getD 0) 0
  some (← integerOf? value, rest)

def integer? (text : List Char) : Option (Value × List Char) :=
  match text with
  | '0' :: 'x' :: rest => radix? 16 rest
  | '0' :: 'o' :: rest => radix? 8 rest
  | '0' :: 'b' :: rest => radix? 2 rest
  | _ => do
      let (negative, rest) := sign text
      let (digits, rest) ← wholeDigits? rest
      let value : Int := Decimal.natOfDigits digits 0
      some (← integerOf? (if negative then -value else value), rest)

/-! ## Dates and times -/

/-- A number of exactly so many digits in a range. -/
def fixed? (count low high : Nat) (text : List Char) : Option (Nat × List Char) :=
  let digits := text.take count
  let value := Decimal.natOfDigits digits 0
  if digits.length == count && digits.all Char.isDigit && low ≤ value && value ≤ high then
    some (value, text.drop count)
  else none

def expect? (c : Char) (text : List Char) : Option (List Char) :=
  match text with
  | d :: rest => if c == d then some rest else none
  | [] => none

def daysIn (year month : Nat) : Nat :=
  if month == 2 then
    (if year % 4 == 0 && (year % 100 != 0 || year % 400 == 0) then 29 else 28)
  else if month == 4 || month == 6 || month == 9 || month == 11 then 30
  else 31

/-- A number with at least so many digits. -/
def padded (width value : Nat) : String :=
  let digits := toString value
  String.ofList (List.replicate (width - digits.length) '0') ++ digits

def date? (text : List Char) : Option (String × List Char) := do
  let (year, rest) ← fixed? 4 0 9999 text
  let rest ← expect? '-' rest
  let (month, rest) ← fixed? 2 1 12 rest
  let rest ← expect? '-' rest
  let (day, rest) ← fixed? 2 1 (daysIn year month) rest
  some (padded 4 year ++ "-" ++ padded 2 month ++ "-" ++ padded 2 day, rest)

/-- The text of a fraction of a second, to nine places and without zeros at the
end. -/
def fractionText (digits : List Char) : String :=
  let kept := ((digits.take 9).reverse.dropWhile (· == '0')).reverse
  if kept.isEmpty then "" else "." ++ String.ofList kept

def time? (text : List Char) : Option (String × List Char) := do
  let (hour, rest) ← fixed? 2 0 23 text
  let rest ← expect? ':' rest
  let (minute, rest) ← fixed? 2 0 59 rest
  let rest ← expect? ':' rest
  let (second, rest) ← fixed? 2 0 60 rest
  let whole := padded 2 hour ++ ":" ++ padded 2 minute ++ ":" ++ padded 2 second
  match rest with
  | '.' :: after =>
      match after.takeWhile Char.isDigit with
      | [] => some (whole, rest)
      | digits => some (whole ++ fractionText digits, after.drop digits.length)
  | _ => some (whole, rest)

/-- The text of an offset, empty if there is none. -/
def offset (text : List Char) : String × List Char :=
  let zone (positive : Bool) (rest : List Char) : Option (String × List Char) := do
    let (hour, rest) ← fixed? 2 0 23 rest
    let rest ← expect? ':' rest
    let (minute, rest) ← fixed? 2 0 59 rest
    let sign := if positive || (hour == 0 && minute == 0) then "+" else "-"
    some (sign ++ padded 2 hour ++ ":" ++ padded 2 minute, rest)
  match text with
  | 'Z' :: rest => ("Z", rest)
  | 'z' :: rest => ("Z", rest)
  | '+' :: rest => (zone true rest).getD ("", text)
  | '-' :: rest => (zone false rest).getD ("", text)
  | _ => ("", text)

/-- The text of a date and time after the date. -/
def timeAfterDate? : List Char → Option (String × List Char)
  | c :: rest =>
      if c == 'T' || c == 't' || c == ' ' then do
        let (time, rest) ← time? rest
        let (zone, rest) := offset rest
        some ("T" ++ time ++ zone, rest)
      else none
  | [] => none

def moment? (text : List Char) : Option (String × List Char) :=
  match date? text with
  | some (date, rest) =>
      match timeAfterDate? rest with
      | some (time, rest) => some (date ++ time, rest)
      | none => some (date, rest)
  | none => time? text

def momentKey : String := "$__toml_private_datetime"

def momentValue (text : String) : Value := .object [(momentKey, .string text)]

def number? (text : List Char) : Option (Value × List Char) :=
  match moment? text with
  | some (moment, rest) => some (momentValue moment, rest)
  | none =>
      match float? text with
      | some answer => some answer
      | none => integer? text

end Toml
end Schemata
