import Schemata.Lazy.Running
import Schemata.Session.Draft

/-!
# Sessions

A session names artifacts and uses them, one request after the other.  Its state
is the store of its lazy schemas, in which the names are too.

**Results.**  `Session.answer` gives the answer to a request and the store after
it.  `Session.runCounts` says how often the definitions of each id have run.
-/

namespace Schemata
namespace Session

open Json (Value)
open Lazy (Halt Run Store)

/-- A request. -/
inductive Request where
  | define (name : String) (draft : Draft)
  | forget (name : String)
  | decode (name : String) (value : Value)
  | encode (name : String) (value : Value)
  | accepts (name : String) (value : Value)
  | roundTrip (name : String) (value : Value)
  | source (name : String)

/-- An answer. -/
inductive Answer where
  /-- A name has got an artifact, maybe in place of another. -/
  | defined (again : Bool)
  /-- A name has no artifact any more, and whether it had one. -/
  | forgotten (present : Bool)
  | decoded (outcome : Outcome Value)
  | encoded (value : Value)
  | accepted (inDomain : Bool)
  /-- A value decoded and encoded, and what decoding that gives. -/
  | roundTripped (decoded encoded : Value) (again : Outcome Value)
  | source (node : Node)
  | fault (fault : Fault)

/-- How deep calls of lazy schemas may be nested. -/
def depthLimit : Nat := 1000000

variable {A : Type} [Artifact A]

/-- The answer that the artifact of a name gives. -/
def withNamed (name : String) (use : A → Run A Answer) : Run A Answer := do
  match (← get).names.lookup name with
  | some artifact => use artifact
  | none => pure (.fault (.noArtifact name))

/-- Gives a name to the artifact of a draft. -/
def define (name : String) (draft : Draft) : Run A Answer := do
  let names := (← get).names
  match draft.check names with
  | .error fault => pure (.fault fault)
  | .ok schema => do
      let artifact ← Lazy.build [] schema
      modify fun store => { store with names := store.names.set name artifact }
      pure (.defined (names.lookup name).isSome)

/-- Takes an artifact from a name. -/
def forget (name : String) : Run A Answer := do
  let names := (← get).names
  modify fun store => { store with names := names.filter fun entry => entry.1 != name }
  pure (.forgotten (names.lookup name).isSome)

/-- Decodes a value, encodes what comes out and decodes that again. -/
def roundTrip (artifact : A) (value : Value) : Run A Answer :=
  Lazy.holding artifact do
    match ← Lazy.decode [] depthLimit artifact value with
    | .error error => pure (.decoded (.error error))
    | .ok decoded => do
        let encoded ← Lazy.encode [] depthLimit artifact decoded
        pure (.roundTripped decoded encoded (← Lazy.decode [] depthLimit artifact encoded))

/-- The answer to a request, in a session whose sources are on a root
identifier. -/
def answer (root : String) : Request → Run A Answer
  | .define name draft => define name draft
  | .forget name => forget name
  | .decode name value => withNamed name fun artifact => do
      pure (.decoded (← Lazy.decode [] depthLimit artifact value))
  | .encode name value => withNamed name fun artifact => do
      pure (.encoded (← Lazy.encode [] depthLimit artifact value))
  | .accepts name value => withNamed name fun artifact => do
      pure (.accepted (← Lazy.accepts [] depthLimit artifact value))
  | .roundTrip name value => withNamed name fun artifact => roundTrip artifact value
  | .source name => withNamed name fun artifact => do
      pure (.source (← Lazy.write [] depthLimit root artifact))

/-- How often the definitions of each id have run, in the order of the ids, those
that have not run left out. -/
def runCounts (store : Store A) : List (String × Nat) :=
  let ids := store.runs.filterMap fun cell => store.cells[cell]?.map (·.id)
  let sorted := ids.mergeSort fun a b => decide (a ≤ b)
  sorted.eraseDups.map fun id => (id, ids.count id)

end Session
end Schemata
