import Schemata.Schema
import Schemata.SchemaError

/-!
# Drafts of schemas

A draft is a schema as it is asked for: sets may be empty, and artifacts go by
their names.

**Algorithm.**  `check` goes through a draft from the outside in and from left to
right, the bodies of lazy schemas included, and stops at the first fault.

**Results.**  A draft without fault is a `Schema`; the names in it stand for the
artifacts that have them at this time.
-/

namespace Schemata
namespace Session

/-- A schema as it is asked for. -/
inductive Draft where
  | literal (value : Literal)
  | literals (values : List Literal)
  | literalsOr (values : List Literal) (fallback : Draft)
  | primitive (kind : Primitive)
  | object (kind : FieldKind) (fields : List (String × Draft))
  | record (codomain : Draft)
  | array (item : Draft)
  | tuple (components : List Draft)
  | intersection (left right : Draft)
  | sum (tag : String) (members : List (String × Draft))
  | union (members : List Draft)
  | readonly (inner : Draft)
  | custom (change : Custom) (inner : Draft)
  | pair (decoder encoder : Draft)
  | lazy (id : String) (body : Draft) (stash : Option String)
  | self (id : String)
  /-- The artifact of a name. -/
  | named (name : String)

/-- Why a request cannot be met. -/
inductive Fault where
  | schema (error : SchemaError)
  | noArtifact (name : String)

def Fault.message : Fault → String
  | .schema error => error.message
  | .noArtifact name => "no artifact " ++ name

/-- The items of an argument list that needs one. -/
def someOf {α : Type} (what : String) : List α → Except Fault (NonEmpty α)
  | [] => .error (.schema (.empty what))
  | head :: tail => .ok ⟨head, tail⟩

namespace Draft

variable {A : Type} (names : Entries A)

mutual
/-- The schema of a draft, or its first fault. -/
def check : Draft → Except Fault (Schema A)
  | .literal value => pure (.literal value)
  | .literals values => do pure (.literals (← someOf "literals" values))
  | .literalsOr values fallback => do
      let values ← someOf "literals" values
      pure (.literalsOr values (← check fallback))
  | .primitive kind => pure (.primitive kind)
  | .object kind fields => do pure (.object kind (← checkFields fields))
  | .record codomain => do pure (.record (← check codomain))
  | .array item => do pure (.array (← check item))
  | .tuple components => do pure (.tuple (← checkAll components))
  | .intersection left right => do
      let left ← check left
      let right ← check right
      pure (.intersection left right)
  | .sum tag members => do pure (.sum tag (← checkFields members))
  | .union members => do
      match members with
      | [] => throw (.schema (.empty "union"))
      | head :: tail => do
          let head ← check head
          let tail ← checkAll tail
          pure (.union ⟨head, tail⟩)
  | .readonly inner => do pure (.readonly (← check inner))
  | .custom change inner => do pure (.custom change (← check inner))
  | .pair decoder encoder => do
      let decoder ← check decoder
      let encoder ← check encoder
      pure (.pair decoder encoder)
  | .lazy id body stash => do pure (.lazy id id (← check body) stash)
  | .self id => pure (.self id)
  | .named name =>
      match names.lookup name with
      | some built => pure (.artifact built)
      | none => throw (.noArtifact name)

def checkAll : List Draft → Except Fault (List (Schema A))
  | [] => pure []
  | draft :: rest => do
      let schema ← check draft
      let schemas ← checkAll rest
      pure (schema :: schemas)

def checkFields : List (String × Draft) → Except Fault (List (String × Schema A))
  | [] => pure []
  | (key, draft) :: rest => do
      let schema ← check draft
      let schemas ← checkFields rest
      pure ((key, schema) :: schemas)
end

end Draft

end Session
end Schemata
