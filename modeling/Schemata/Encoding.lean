import Schemata.Decoding

/-!
# Encoding

An encoder takes a decoded value back to an untyped one.  Encoding is total: a
value outside the domain of an encoder goes through it unchanged as far as its
parts let it.  The guard `accepts` tells whether a value is in the domain; a
union encodes by the first member whose guard holds.

**Algorithm.**  Guards look at the parts of a value from left to right and stop
at the first that fails, a union's at the first that holds.

**Results.**  `Vocabulary (Encoding m)` is the reading of schemas as encoders.
-/

namespace Schemata

open Json

/-- An encoder in a monad, with its guard. -/
structure Encoding (m : Type → Type) where
  encode : Value → m Value
  accepts : Value → m Bool

namespace Encoding

variable {m : Type → Type} [Monad m]

/-- The second condition if the first holds. -/
def andAlso (first second : m Bool) : m Bool := do
  if ← first then second else pure false

/-- The second condition unless the first holds. -/
def orElse (first second : m Bool) : m Bool := do
  if ← first then pure true else second

/-- The encoder that changes nothing, over the values of a predicate. -/
def test (holds : Value → Bool) : Encoding m where
  encode value := pure value
  accepts value := pure (holds value)

/-- One of a set of literals. -/
def literals (values : NonEmpty Literal) : Encoding m :=
  test fun value => values.toList.any (·.isMatch value)

/-- One of a set of literals, or what the fallback takes. -/
def literalsOr (values : NonEmpty Literal) (fallback : Encoding m) : Encoding m where
  encode value :=
    if values.toList.any (·.isMatch value) then pure value else fallback.encode value
  accepts value :=
    if values.toList.any (·.isMatch value) then pure true else fallback.accepts value

/-- The declared fields that an object has, encoded, in the order of their
declaration. -/
def encodeFields (members : Members) : Entries (Encoding m) → m Members
  | [] => pure []
  | (key, part) :: rest =>
      match Value.get? key members with
      | some value => do
          let encoded ← part.encode value
          let others ← encodeFields members rest
          pure ((key, encoded) :: others)
      | none => encodeFields members rest

/-- Whether every declared field is accepted, or may be absent. -/
def acceptsFields (kind : FieldKind) (members : Members) : Entries (Encoding m) → m Bool
  | [] => pure true
  | (key, part) :: rest =>
      match Value.get? key members with
      | some value => andAlso (part.accepts value) (acceptsFields kind members rest)
      | none =>
          match kind with
          | .required => pure false
          | .optional => acceptsFields kind members rest

/-- An object with declared fields. -/
def object (kind : FieldKind) (parts : Entries (Encoding m)) : Encoding m where
  encode
    | .object members => do pure (.object (← encodeFields members parts))
    | value => pure value
  accepts
    | .object members => acceptsFields kind members parts
    | _ => pure false

/-- The members of an object, encoded. -/
def encodeEntries (part : Encoding m) : Members → m Members
  | [] => pure []
  | (key, value) :: rest => do
      let encoded ← part.encode value
      let others ← encodeEntries part rest
      pure ((key, encoded) :: others)

/-- Whether every item is accepted. -/
def acceptsAll (part : Encoding m) : List Value → m Bool
  | [] => pure true
  | value :: rest => andAlso (part.accepts value) (acceptsAll part rest)

/-- An object whose values are of one schema. -/
def record (part : Encoding m) : Encoding m where
  encode
    | .object members => do pure (.object (← encodeEntries part members))
    | value => pure value
  accepts
    | .object members => acceptsAll part (members.map Prod.snd)
    | _ => pure false

/-- The items of an array, encoded. -/
def encodeAll (part : Encoding m) : List Value → m (List Value)
  | [] => pure []
  | value :: rest => do
      let encoded ← part.encode value
      let others ← encodeAll part rest
      pure (encoded :: others)

/-- An array whose items are of one schema. -/
def array (part : Encoding m) : Encoding m where
  encode
    | .array values => do pure (.array (← encodeAll part values))
    | value => pure value
  accepts
    | .array values => acceptsAll part values
    | _ => pure false

/-- The items that have a place, encoded. -/
def encodePlaces : List (Encoding m) → List Value → m (List Value)
  | part :: parts, value :: values => do
      let encoded ← part.encode value
      let others ← encodePlaces parts values
      pure (encoded :: others)
  | _, _ => pure []

/-- Whether every item that has a place is accepted there. -/
def acceptsPlaces : List (Encoding m) → List Value → m Bool
  | part :: parts, value :: values => andAlso (part.accepts value) (acceptsPlaces parts values)
  | _, _ => pure true

/-- An array with a schema for each place. -/
def tuple (parts : List (Encoding m)) : Encoding m where
  encode
    | .array values => do pure (.array (← encodePlaces parts values))
    | value => pure value
  accepts
    | .array values =>
        if parts.length ≤ values.length then acceptsPlaces parts values else pure false
    | _ => pure false

/-- A value that both sides take, merged. -/
def intersection (left right : Encoding m) : Encoding m where
  encode value := do
    let first ← left.encode value
    let second ← right.encode value
    pure (merge first second)
  accepts value := andAlso (left.accepts value) (right.accepts value)

/-- The schema that the field `tag` names. -/
def sum (tag : String) (parts : Entries (Encoding m)) : Encoding m where
  encode value :=
    match Decoding.memberOf? tag parts value with
    | some part => part.encode value
    | none => pure value
  accepts value :=
    match Decoding.memberOf? tag parts value with
    | some part => part.accepts value
    | none => pure false

/-- The value encoded by the first member whose guard holds. -/
def encodeFirst (value : Value) : List (Encoding m) → m Value
  | [] => pure value
  | part :: rest => do
      if ← part.accepts value then part.encode value else encodeFirst value rest

/-- Whether the guard of a member holds. -/
def acceptsAny (value : Value) : List (Encoding m) → m Bool
  | [] => pure false
  | part :: rest => orElse (part.accepts value) (acceptsAny value rest)

/-- The first member that takes the value. -/
def union (parts : NonEmpty (Encoding m)) : Encoding m where
  encode value := encodeFirst value parts.toList
  accepts value := acceptsAny value parts.toList

/-- The value that a change hands on to the encoder. -/
def customValue (value : Value) : Custom → Value
  | .imap _ back => back value
  | _ => value

/-- Whether a change lets an accepted value through. -/
def customAccepts (value : Value) : Custom → Bool
  | .refine holds _ => holds value
  | _ => true

/-- An encoder with a change. -/
def custom (change : Custom) (part : Encoding m) : Encoding m where
  encode value := part.encode (customValue value change)
  accepts value :=
    andAlso (part.accepts (customValue value change)) (pure (customAccepts value change))

instance : Vocabulary (Encoding m) where
  literal value := literals (.singleton value)
  literals := literals
  literalsOr := literalsOr
  primitive kind := test kind.holds
  object := object
  record := record
  array := array
  tuple := tuple
  intersection := intersection
  sum := sum
  union := union
  readonly part := part
  custom := custom
  pair _ encoder := encoder

end Encoding
end Schemata
