/-!
# Misuse of schemas

What can be wrong with a schema or a set of definitions that is read without
fault.
-/

namespace Schemata

/-- Why a schema cannot be built. -/
inductive SchemaError where
  /-- An argument list that needs an item has none. -/
  | empty (what : String)
  | unknownReference (name : String)
  | unknownRoot (name : String)
deriving Repr, DecidableEq

def SchemaError.message : SchemaError → String
  | .empty what => what ++ " requires at least one element"
  | .unknownReference name => "unknown schema reference: " ++ name
  | .unknownRoot name => "unknown root definition: " ++ name

end Schemata
