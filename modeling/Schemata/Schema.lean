import Schemata.Vocabulary

/-!
# Schemas

A schema as it is written, over artifacts that are built already.  A lazy schema
has a body in which `self` refers to it by the name that the body binds it to;
`ref` refers to a definition by name and is the innermost lazy schema of that name
around it, or a new one.

**Results.**  `Schema.given` lists the artifacts that a schema mentions, also
inside bodies: a schema keeps them alive.
-/

namespace Schemata

/-- A schema over artifacts. -/
inductive Schema (A : Type) where
  | literal (value : Literal)
  | literals (values : NonEmpty Literal)
  | literalsOr (values : NonEmpty Literal) (fallback : Schema A)
  | primitive (kind : Primitive)
  | object (kind : FieldKind) (fields : List (String × Schema A))
  | record (codomain : Schema A)
  | array (item : Schema A)
  | tuple (components : List (Schema A))
  | intersection (left right : Schema A)
  | sum (tag : String) (members : List (String × Schema A))
  | union (members : NonEmpty (Schema A))
  | readonly (inner : Schema A)
  | custom (change : Custom) (inner : Schema A)
  | pair (decoder encoder : Schema A)
  /-- A schema with an id whose body is built when it is first used.  The body
  binds its handle to a name; the handle can be kept under another. -/
  | lazy (id binder : String) (body : Schema A) (stash : Option String)
  /-- The innermost lazy schema that is bound to a name. -/
  | self (binder : String)
  /-- A definition by name. -/
  | ref (name : String)
  /-- An artifact that is built already. -/
  | artifact (built : A)

namespace Schema

variable {A : Type}

instance : Vocabulary (Schema A) where
  literal := .literal
  literals := .literals
  literalsOr := .literalsOr
  primitive := .primitive
  object := .object
  record := .record
  array := .array
  tuple := .tuple
  intersection := .intersection
  sum := .sum
  union := .union
  readonly := .readonly
  custom := .custom
  pair := .pair

mutual
/-- The artifacts that a schema mentions. -/
def given : Schema A → List A
  | .literal _ => []
  | .literals _ => []
  | .literalsOr _ fallback => given fallback
  | .primitive _ => []
  | .object _ fields => givenInFields fields
  | .record codomain => given codomain
  | .array item => given item
  | .tuple components => givenInAll components
  | .intersection left right => given left ++ given right
  | .sum _ members => givenInFields members
  | .union ⟨head, tail⟩ => given head ++ givenInAll tail
  | .readonly inner => given inner
  | .custom _ inner => given inner
  | .pair decoder encoder => given decoder ++ given encoder
  | .lazy _ _ body _ => given body
  | .self _ => []
  | .ref _ => []
  | .artifact built => [built]

def givenInAll : List (Schema A) → List A
  | [] => []
  | schema :: rest => given schema ++ givenInAll rest

def givenInFields : List (String × Schema A) → List A
  | [] => []
  | (_, schema) :: rest => given schema ++ givenInFields rest
end

end Schema
end Schemata
