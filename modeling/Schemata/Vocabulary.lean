import Schemata.DecodeError
import Schemata.Entries
import Schemata.Literal
import Schemata.Primitive

/-!
# The combinator vocabulary

A schema is written once against `Vocabulary` and read in several ways: as a
decoder, as an encoder, as generated source, as a tree of combinators.  Every
combinator is total; misuse such as an empty union has no place in the types.
-/

namespace Schemata

/-- A change to what a schema does that leaves its shape alone. -/
inductive Custom where
  /-- Decoded values are mapped forth, and values to encode are mapped back. -/
  | imap (forth back : Json.Value → Json.Value)
  /-- Decoded values are mapped by a function that may fail. -/
  | parse (step : Json.Value → Outcome Json.Value)
  /-- Values outside a predicate are refused, in both directions. -/
  | refine (holds : Json.Value → Bool) (expected : String)
  /-- Every failure becomes one leaf with a label. -/
  | relabel (expected : String)
  /-- Every failure is put under a message. -/
  | annotate (message : String)

/-- What a reading of schemas provides. -/
class Vocabulary (A : Type) where
  literal : Literal → A
  literals : NonEmpty Literal → A
  /-- A literal from the set, otherwise what the fallback takes. -/
  literalsOr : NonEmpty Literal → A → A
  primitive : Primitive → A
  /-- An object whose fields are all required, or all optional. -/
  object : FieldKind → Entries A → A
  /-- An object with any keys and values of one schema. -/
  record : A → A
  array : A → A
  /-- An array with a schema for each place. -/
  tuple : List A → A
  /-- A value that both sides take, merged. -/
  intersection : A → A → A
  /-- The field `tag` names the member to use. -/
  sum : String → Entries A → A
  /-- The first member that takes the value. -/
  union : NonEmpty A → A
  readonly : A → A
  custom : Custom → A → A
  /-- The first schema for decoding, the second for encoding. -/
  pair : A → A → A

end Schemata
