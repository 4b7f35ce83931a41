/-!
# The combinator catalog

The methods that generated source may call on the root identifier, with the
number of arguments that each takes.
-/

namespace Schemata

/-- The argument counts that a call may have. -/
inductive Arity where
  | exactly (count : Nat)
  | atLeast (count : Nat)
deriving Repr, DecidableEq

/-- Whether an argument count is accepted. -/
def Arity.accepts : Arity → Nat → Bool
  | .exactly n, count => count == n
  | .atLeast n, count => n ≤ count

/-- The words for an arity. -/
def Arity.text : Arity → String
  | .exactly n => toString n
  | .atLeast n => "at least " ++ toString n

/-- A method of the schema library. -/
structure Combinator where
  name : String
  arity : Arity
  description : String
deriving Repr, DecidableEq

namespace Combinator

/-- All methods, in the order in which they are listed. -/
def catalog : List Combinator := [
  ⟨"literal", .exactly 1, "Exactly one literal value"⟩,
  ⟨"literals", .exactly 1, "Any one of a closed set of literal values"⟩,
  ⟨"literalsOr", .exactly 2, "A literal from the set, otherwise the fallback schema"⟩,
  ⟨"string", .exactly 0, "A string"⟩,
  ⟨"number", .exactly 0, "A number"⟩,
  ⟨"boolean", .exactly 0, "A boolean"⟩,
  ⟨"UnknownArray", .exactly 0, "An array with untyped elements"⟩,
  ⟨"UnknownRecord", .exactly 0, "An object with untyped values"⟩,
  ⟨"type", .exactly 1, "An object with required fields"⟩,
  ⟨"partial", .exactly 1, "An object with optional fields"⟩,
  ⟨"record", .exactly 1, "An object with arbitrary keys and uniform values"⟩,
  ⟨"array", .exactly 1, "A homogeneous array"⟩,
  ⟨"tuple", .atLeast 0, "A fixed-length array with typed positions"⟩,
  ⟨"intersection", .exactly 2, "A value satisfying both schemas, merged"⟩,
  ⟨"sum", .exactly 1, "A tagged union selected by a discriminant field (curried)"⟩,
  ⟨"lazy", .exactly 2, "A named, possibly self-referential schema"⟩,
  ⟨"readonly", .exactly 1, "The same schema, marked immutable"⟩,
  ⟨"union", .atLeast 1, "The first member schema that matches, in order"⟩]

def find? (name : String) : Option Combinator := catalog.find? (·.name == name)

end Combinator
end Schemata
