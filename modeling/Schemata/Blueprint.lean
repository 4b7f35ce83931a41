import Schemata.Vocabulary

/-!
# Built schemas

A `Blueprint` is a schema as a tree of combinators whose lazy schemas are
numbered cells.  A leaf either owns its cell or is a handle of it: owning keeps
a cell alive, a handle does not.  A `Codec` is a blueprint to decode by and one
to encode by.

**Results.**  `Blueprint.fold` reads a blueprint in any vocabulary, given a
meaning of its cells.
-/

namespace Schemata

/-- The number of a lazy schema. -/
abbrev CellId := Nat

/-- A schema as a tree of combinators. -/
inductive Blueprint where
  | literal (value : Literal)
  | literals (values : NonEmpty Literal)
  | literalsOr (values : NonEmpty Literal) (fallback : Blueprint)
  | primitive (kind : Primitive)
  | object (kind : FieldKind) (fields : List (String × Blueprint))
  | record (codomain : Blueprint)
  | array (item : Blueprint)
  | tuple (components : List Blueprint)
  | intersection (left right : Blueprint)
  | sum (tag : String) (members : List (String × Blueprint))
  | union (members : NonEmpty Blueprint)
  | readonly (inner : Blueprint)
  | custom (change : Custom) (inner : Blueprint)
  | pair (decoder encoder : Blueprint)
  /-- A lazy schema that is kept alive. -/
  | owner (cell : CellId)
  /-- A lazy schema that is only referred to. -/
  | handle (cell : CellId)

namespace Blueprint

instance : Vocabulary Blueprint where
  literal := .literal
  literals := .literals
  literalsOr := .literalsOr
  primitive := .primitive
  object := .object
  record := .record
  array := .array
  tuple := .tuple
  intersection := .intersection
  sum := .sum
  union := .union
  readonly := .readonly
  custom := .custom
  pair := .pair

section Fold

variable {A : Type} [Vocabulary A] (owned referred : CellId → A)

mutual
/-- The reading of a blueprint, given the meaning of owned cells and of handles. -/
def fold : Blueprint → A
  | .literal value => Vocabulary.literal value
  | .literals values => Vocabulary.literals values
  | .literalsOr values fallback => Vocabulary.literalsOr values (fold fallback)
  | .primitive kind => Vocabulary.primitive kind
  | .object kind fields => Vocabulary.object kind (foldFields fields)
  | .record codomain => Vocabulary.record (fold codomain)
  | .array item => Vocabulary.array (fold item)
  | .tuple components => Vocabulary.tuple (foldAll components)
  | .intersection left right => Vocabulary.intersection (fold left) (fold right)
  | .sum tag members => Vocabulary.sum tag (foldFields members)
  | .union ⟨head, tail⟩ => Vocabulary.union ⟨fold head, foldAll tail⟩
  | .readonly inner => Vocabulary.readonly (fold inner)
  | .custom change inner => Vocabulary.custom change (fold inner)
  | .pair decoder encoder => Vocabulary.pair (fold decoder) (fold encoder)
  | .owner cell => owned cell
  | .handle cell => referred cell

def foldAll : List Blueprint → List A
  | [] => []
  | blueprint :: rest => fold blueprint :: foldAll rest

def foldFields : List (String × Blueprint) → Entries A
  | [] => []
  | (key, blueprint) :: rest => (key, fold blueprint) :: foldFields rest
end

end Fold

mutual
/-- The cells that a blueprint keeps alive. -/
def cells : Blueprint → List CellId
  | .literal _ => []
  | .literals _ => []
  | .literalsOr _ fallback => cells fallback
  | .primitive _ => []
  | .object _ fields => cellsOfFields fields
  | .record codomain => cells codomain
  | .array item => cells item
  | .tuple components => cellsOfAll components
  | .intersection left right => cells left ++ cells right
  | .sum _ members => cellsOfFields members
  | .union ⟨head, tail⟩ => cells head ++ cellsOfAll tail
  | .readonly inner => cells inner
  | .custom _ inner => cells inner
  | .pair decoder encoder => cells decoder ++ cells encoder
  | .owner cell => [cell]
  | .handle _ => []

def cellsOfAll : List Blueprint → List CellId
  | [] => []
  | blueprint :: rest => cells blueprint ++ cellsOfAll rest

def cellsOfFields : List (String × Blueprint) → List CellId
  | [] => []
  | (_, blueprint) :: rest => cells blueprint ++ cellsOfFields rest
end

end Blueprint

/-- A schema built for both directions. -/
structure Codec where
  decoder : Blueprint
  encoder : Blueprint

namespace Codec

def decoders (fields : Entries Codec) : Entries Blueprint := fields.map fun (k, c) => (k, c.decoder)

def encoders (fields : Entries Codec) : Entries Blueprint := fields.map fun (k, c) => (k, c.encoder)

instance : Vocabulary Codec where
  literal value := ⟨.literal value, .literal value⟩
  literals values := ⟨.literals values, .literals values⟩
  literalsOr values fallback :=
    ⟨.literalsOr values fallback.decoder, .literalsOr values fallback.encoder⟩
  primitive kind := ⟨.primitive kind, .primitive kind⟩
  object kind fields := ⟨.object kind (decoders fields), .object kind (encoders fields)⟩
  record codomain := ⟨.record codomain.decoder, .record codomain.encoder⟩
  array item := ⟨.array item.decoder, .array item.encoder⟩
  tuple components := ⟨.tuple (components.map decoder), .tuple (components.map encoder)⟩
  intersection left right :=
    ⟨.intersection left.decoder right.decoder, .intersection left.encoder right.encoder⟩
  sum tag members := ⟨.sum tag (decoders members), .sum tag (encoders members)⟩
  union members := ⟨.union (members.map decoder), .union (members.map encoder)⟩
  readonly inner := ⟨.readonly inner.decoder, .readonly inner.encoder⟩
  custom change inner := ⟨.custom change inner.decoder, .custom change inner.encoder⟩
  pair first second := ⟨first.decoder, second.encoder⟩

end Codec

/-- What can stand for a built schema: it has a blueprint for each direction,
and lazy schemas can be leaves of it. -/
class Artifact (A : Type) extends Vocabulary A where
  decoder : A → Blueprint
  encoder : A → Blueprint
  owner : CellId → A
  handle : CellId → A

instance : Artifact Blueprint where
  decoder blueprint := blueprint
  encoder blueprint := blueprint
  owner := .owner
  handle := .handle

instance : Artifact Codec where
  decoder := Codec.decoder
  encoder := Codec.encoder
  owner cell := ⟨.owner cell, .owner cell⟩
  handle cell := ⟨.handle cell, .handle cell⟩

/-- The cells that an artifact keeps alive. -/
def Artifact.cells {A : Type} [Artifact A] (artifact : A) : List CellId :=
  (Artifact.decoder artifact).cells ++ (Artifact.encoder artifact).cells

end Schemata
