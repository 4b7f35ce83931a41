import Schemata.Node.Basic
import Schemata.Vocabulary

/-!
# Schemas as generated source

The reading of schemas as source: a tree of calls on a root identifier that
rebuilds the schema.  A change has no source of its own; a schema is written as
the schema that it changes.

The root is no part of a schema: it is given when source is asked for, and handed
down to all parts, through cells and handles as well.  So a source stands on one
root throughout, and schemas that were made for different roots, each to keep its
own inside of one source, are not described.

**Results.**  `Vocabulary (Sourcing m)` is the reading of schemas as source.
-/

namespace Schemata

/-- The source of a schema, given the root identifier. -/
structure Sourcing (m : Type → Type) where
  node : String → m Node

namespace Sourcing

variable {m : Type → Type} [Monad m]

/-- The sources of several schemas. -/
def nodes (root : String) : List (Sourcing m) → m (List Node)
  | [] => pure []
  | part :: rest => do
      let node ← part.node root
      let others ← nodes root rest
      pure (node :: others)

/-- The sources of fields. -/
def fields (root : String) : Entries (Sourcing m) → m (List (String × Node))
  | [] => pure []
  | (key, part) :: rest => do
      let node ← part.node root
      let others ← fields root rest
      pure ((key, node) :: others)

/-- A call with fixed arguments. -/
def constant (name : String) (args : List Node) : Sourcing m where
  node root := pure (.method root name args)

/-- A call whose arguments are schemas. -/
def call (name : String) (args : List (Sourcing m)) : Sourcing m where
  node root := do pure (.method root name (← nodes root args))

/-- A call whose argument names fields. -/
def object (name : String) (parts : Entries (Sourcing m)) : Sourcing m where
  node root := do pure (.method root name [.object (← fields root parts)])

/-- The array of a set of literals. -/
def literalArray (values : NonEmpty Literal) : Node := .array (values.toList.map .literal)

/-- A set of literals with a fallback. -/
def literalsOr (values : NonEmpty Literal) (fallback : Sourcing m) : Sourcing m where
  node root := do pure (.method root "literalsOr" [literalArray values, ← fallback.node root])

/-- A sum: the call that gives the tag is called with the members. -/
def sum (tag : String) (parts : Entries (Sourcing m)) : Sourcing m where
  node root := do
    pure (.call (.method root "sum" [.literal (.string tag)]) [.object (← fields root parts)])

instance : Vocabulary (Sourcing m) where
  literal value := constant "literal" [.literal value]
  literals values := constant "literals" [literalArray values]
  literalsOr := literalsOr
  primitive kind := constant kind.combinator []
  object
    | .required, parts => object "type" parts
    | .optional, parts => object "partial" parts
  record part := call "record" [part]
  array part := call "array" [part]
  tuple parts := call "tuple" parts
  intersection left right := call "intersection" [left, right]
  sum := sum
  union parts := call "union" parts.toList
  readonly part := call "readonly" [part]
  custom _ part := part
  pair decoder _ := decoder

end Sourcing
end Schemata
