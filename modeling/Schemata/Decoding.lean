import Schemata.Vocabulary

/-!
# Decoding

A decoder takes an untyped value to a decoded value or a failure.  The
combinators work over any monad, so that they serve plain functions as well as
decoders that keep lazy schemas in a store.

**Algorithm.**  A composite decodes all of its parts from left to right and
reports every part that fails, in that order.  Fields that are not declared and
items beyond a tuple are left out.

**Results.**  `Vocabulary (Decoding m)` is the reading of schemas as decoders.
-/

namespace Schemata

open Json

/-- A decoder in a monad. -/
structure Decoding (m : Type → Type) where
  decode : Value → m (Outcome Value)

namespace Outcome

/-- Two outcomes as one: the failures of both, or the values joined. -/
def both {α β γ : Type} (join : α → β → γ) : Outcome α → Outcome β → Outcome γ
  | .ok a, .ok b => .ok (join a b)
  | .error e, .ok _ => .error e
  | .ok _, .error e => .error e
  | .error e, .error f => .error (e ++ f)

/-- An outcome whose failure is put after a step. -/
def under {α : Type} (step : Step) : Outcome α → Outcome α
  | .ok a => .ok a
  | .error e => .error (DecodeError.under step e)

/-- An outcome whose value is mapped. -/
def map {α β : Type} (f : α → β) : Outcome α → Outcome β
  | .ok a => .ok (f a)
  | .error e => .error e

end Outcome

/-- The union of two decoded values: of two objects, the members of the left
one in place with the values of the right one, then the new members of the
right one; otherwise the right value. -/
def merge : Value → Value → Value
  | .object left, .object right => .object (Entries.setAll left right)
  | _, right => right

namespace Decoding

variable {m : Type → Type} [Monad m]

/-- The decoder that takes the values of a predicate as they are. -/
def test (holds : Value → Bool) (expected : String) : Decoding m where
  decode value := pure (if holds value then .ok value else .error (.leaf value expected))

/-- One of a set of literals. -/
def literals (values : NonEmpty Literal) : Decoding m :=
  test (fun value => values.toList.any (·.isMatch value)) (Literal.alternatives values.toList)

/-- One of a set of literals, or what the fallback takes. -/
def literalsOr (values : NonEmpty Literal) (fallback : Decoding m) : Decoding m where
  decode value :=
    if values.toList.any (·.isMatch value) then pure (.ok value) else fallback.decode value

/-- The field of an object, given the value under its key. -/
def field (kind : FieldKind) (key : String) (part : Decoding m) :
    Option Value → m (Outcome Members)
  | some value => do
      let outcome ← part.decode value
      pure ((outcome.under (.key key kind)).map fun decoded => [(key, decoded)])
  | none =>
      match kind with
      | .required => pure (.error (.under (.key key kind) .missing))
      | .optional => pure (.ok [])

/-- The declared fields of an object, in the order of their declaration. -/
def fields (kind : FieldKind) (members : Members) : Entries (Decoding m) → m (Outcome Members)
  | [] => pure (.ok [])
  | (key, part) :: rest => do
      let first ← field kind key part (Value.get? key members)
      let others ← fields kind members rest
      pure (first.both (· ++ ·) others)

/-- An object with declared fields. -/
def object (kind : FieldKind) (parts : Entries (Decoding m)) : Decoding m where
  decode
    | .object members => do pure ((← fields kind members parts).map .object)
    | value => pure (.error (.leaf value "object"))

/-- The members of an object, in their own order. -/
def entries (part : Decoding m) : Members → m (Outcome Members)
  | [] => pure (.ok [])
  | (key, value) :: rest => do
      let outcome ← part.decode value
      let first := (outcome.under (.key key .optional)).map fun decoded => (key, decoded)
      let others ← entries part rest
      pure (first.both (· :: ·) others)

/-- An object whose values are of one schema. -/
def record (part : Decoding m) : Decoding m where
  decode
    | .object members => do pure ((← entries part members).map .object)
    | value => pure (.error (.leaf value "object"))

/-- The items of an array, from an index on. -/
def items (part : Decoding m) : Nat → List Value → m (Outcome (List Value))
  | _, [] => pure (.ok [])
  | index, value :: rest => do
      let outcome ← part.decode value
      let others ← items part (index + 1) rest
      pure ((outcome.under (.index index .optional)).both (· :: ·) others)

/-- An array whose items are of one schema. -/
def array (part : Decoding m) : Decoding m where
  decode
    | .array values => do pure ((← items part 0 values).map .array)
    | value => pure (.error (.leaf value "array"))

/-- The places of a tuple, from an index on. -/
def places : Nat → List (Decoding m) → List Value → m (Outcome (List Value))
  | _, [], _ => pure (.ok [])
  | index, _ :: parts, [] => do
      let others ← places (index + 1) parts []
      let first : Outcome Value := .error (.under (.index index .required) .missing)
      pure (first.both (· :: ·) others)
  | index, part :: parts, value :: values => do
      let outcome ← part.decode value
      let others ← places (index + 1) parts values
      pure ((outcome.under (.index index .required)).both (· :: ·) others)

/-- An array with a schema for each place. -/
def tuple (parts : List (Decoding m)) : Decoding m where
  decode
    | .array values => do pure ((← places 0 parts values).map .array)
    | value => pure (.error (.leaf value "array"))

/-- A value that both sides take, merged. -/
def intersection (left right : Decoding m) : Decoding m where
  decode value := do
    let first ← left.decode value
    let second ← right.decode value
    pure (first.both merge second)

/-- The keys of a sum as they appear in a failure. -/
def keysLabel (keys : List String) : String :=
  if keys.isEmpty then "never" else Literal.alternatives (keys.map .string)

/-- The member of a sum that a value names. -/
def memberOf? {α : Type} (tag : String) (parts : Entries α) (value : Value) : Option α := do
  let named ← value.member? tag
  let key ← named.text?
  parts.lookup key

/-- The schema that the field `tag` names. -/
def sum (tag : String) (parts : Entries (Decoding m)) : Decoding m where
  decode
    | .object members =>
        match Value.get? tag members, memberOf? tag parts (.object members) with
        | none, _ => pure (.error (.under (.key tag .required) .missing))
        | some value, none =>
            pure (.error (.under (.key tag .required)
              (.leaf value (keysLabel (Entries.keys parts)))))
        | some _, some part => part.decode (.object members)
    | value => pure (.error (.leaf value "object"))

/-- The outcome of the first member that takes a value, from an index on. -/
def firstOf (value : Value) : Nat → Decoding m → List (Decoding m) → m (Outcome Value)
  | index, part, [] => do
      let outcome ← part.decode value
      pure (outcome.under (.member index))
  | index, part, next :: rest => do
      match ← part.decode value with
      | .ok decoded => pure (.ok decoded)
      | .error error => do
          match ← firstOf value (index + 1) next rest with
          | .ok decoded => pure (.ok decoded)
          | .error others => pure (.error (DecodeError.under (.member index) error ++ others))

/-- The first member that takes the value. -/
def union (parts : NonEmpty (Decoding m)) : Decoding m where
  decode value := firstOf value 0 parts.head parts.tail

/-- What a change does to the outcome for an input. -/
def customOutcome (input : Value) : Custom → Outcome Value → Outcome Value
  | .imap forth _, outcome => outcome.map forth
  | .parse step, .ok value => step value
  | .refine holds expected, .ok value =>
      if holds value then .ok value else .error (.leaf value expected)
  | .relabel expected, .error _ => .error (.leaf input expected)
  | .annotate message, .error error => .error (.under (.wrap message) error)
  | _, outcome => outcome

/-- A decoder with a change. -/
def custom (change : Custom) (part : Decoding m) : Decoding m where
  decode value := do pure (customOutcome value change (← part.decode value))

instance : Vocabulary (Decoding m) where
  literal value := literals (.singleton value)
  literals := literals
  literalsOr := literalsOr
  primitive kind := test kind.holds kind.label
  object := object
  record := record
  array := array
  tuple := tuple
  intersection := intersection
  sum := sum
  union := union
  readonly part := part
  custom := custom
  pair decoder _ := decoder

end Decoding
end Schemata
