import Schemata.Document.Definition
import Schemata.Lazy.Store

/-!
# Building schemas

Building a schema gives an artifact and puts a cell into the store for each lazy
schema outside of other lazy schemas; no definition runs.  A definition runs
when its cell is first used, with a handle of the cell in scope.

**Results.**  `build` builds a schema in a scope, `resolve` gives the artifact of
a cell and runs its definition at most once, `run` runs it every time.
-/

namespace Schemata
namespace Lazy

variable {A : Type} [Artifact A]

mutual
/-- The artifact of a schema, with the handles of the lazy schemas around it. -/
def build (scope : List (String × A)) : Schema A → Run A A
  | .literal value => pure (Vocabulary.literal value)
  | .literals values => pure (Vocabulary.literals values)
  | .literalsOr values fallback => do pure (Vocabulary.literalsOr values (← build scope fallback))
  | .primitive kind => pure (Vocabulary.primitive kind)
  | .object kind fields => do pure (Vocabulary.object kind (.ofList (← buildFields scope fields)))
  | .record codomain => do pure (Vocabulary.record (← build scope codomain))
  | .array item => do pure (Vocabulary.array (← build scope item))
  | .tuple components => do pure (Vocabulary.tuple (← buildAll scope components))
  | .intersection left right => do
      let left ← build scope left
      let right ← build scope right
      pure (Vocabulary.intersection left right)
  | .sum tag members => do pure (Vocabulary.sum tag (.ofList (← buildFields scope members)))
  | .union ⟨head, tail⟩ => do
      let head ← build scope head
      let tail ← buildAll scope tail
      pure (Vocabulary.union ⟨head, tail⟩)
  | .readonly inner => do pure (Vocabulary.readonly (← build scope inner))
  | .custom change inner => do pure (Vocabulary.custom change (← build scope inner))
  | .pair decoder encoder => do
      let decoder ← build scope decoder
      let encoder ← build scope encoder
      pure (Vocabulary.pair decoder encoder)
  | .lazy id binder body stash => allocate id (.schema binder body stash) scope
  | .self binder =>
      match scope.lookup binder with
      | some handle => pure handle
      | none => throw (.unbound binder)
  | .ref name =>
      match scope.lookup name with
      | some handle => pure handle
      | none => allocate name .definition scope
  | .artifact built => pure built

def buildAll (scope : List (String × A)) : List (Schema A) → Run A (List A)
  | [] => pure []
  | schema :: rest => do
      let artifact ← build scope schema
      let artifacts ← buildAll scope rest
      pure (artifact :: artifacts)

def buildFields (scope : List (String × A)) : List (String × Schema A) → Run A (Entries A)
  | [] => pure []
  | (key, schema) :: rest => do
      let artifact ← build scope schema
      let artifacts ← buildFields scope rest
      pure ((key, artifact) :: artifacts)
end

variable (definitions : Entries Definition)

/-- The schema that the body of a cell stands for. -/
def bodySchema (cell : Cell A) : Run A (Schema A) :=
  match cell.body with
  | .schema _ body _ => pure body
  | .definition =>
      match definitions.lookup cell.id with
      | some definition => pure (definition.fold .ref)
      | none => throw (.unbound cell.id)

/-- The artifact that the definition of a cell gives. -/
def run (id : CellId) : Run A A := do
  let cell ← cell id
  let handle : A := Artifact.handle id
  let schema ← bodySchema definitions cell
  modify fun store =>
    { store with
      runs := id :: store.runs
      names := match cell.stash with
        | some name => store.names.set name handle
        | none => store.names }
  build ((cell.binder, handle) :: cell.scope) schema

/-- The artifact of a cell, from its definition if that has not run yet. -/
def resolve (id : CellId) : Run A A := do
  match (← cell id).resolved with
  | some artifact => pure artifact
  | none => do
      let artifact ← run definitions id
      changeCell id fun cell => { cell with resolved := some artifact }
      pure artifact

end Lazy
end Schemata
