import Schemata.Blueprint
import Schemata.Schema

/-!
# The store of lazy schemas

A lazy schema is a cell of a `Store`: its id, what its definition needs, and the
artifact that its definition gave once it has run.  Artifacts are held by names
and by calls that are going on.

A cell is alive while an artifact that owns it is held, or belongs to a cell
that is alive: to its resolved artifact, or to an artifact that its body
mentions.  Handles keep nothing alive.

**Algorithm.**  `Store.isAlive` looks for a cell among the cells that held
artifacts own, then among those that these keep, and so on, one round for each
cell of the store at most.
-/

namespace Schemata
namespace Lazy

/-- What a definition builds. -/
inductive Body (A : Type) where
  /-- A schema, the name to which it binds the handle, and the name under which
  the handle is kept. -/
  | schema (binder : String) (schema : Schema A) (stash : Option String)
  /-- The definition whose name is the id of the cell. -/
  | definition

/-- A lazy schema. -/
structure Cell (A : Type) where
  id : String
  body : Body A
  /-- The handles of the lazy schemas around the cell under the names to which
  they are bound, innermost first. -/
  scope : List (String × A)
  /-- What the definition gave. -/
  resolved : Option A := none
  /-- Whether the source of the body is being written. -/
  writing : Bool := false

/-- Lazy schemas, and what is held. -/
structure Store (A : Type) where
  cells : Array (Cell A) := #[]
  /-- The artifacts that have names. -/
  names : Entries A := []
  /-- The artifacts that calls are using, innermost first. -/
  held : List A := []
  /-- The cells whose definitions have run, latest first. -/
  runs : List CellId := []

/-- Why a call has no answer. -/
inductive Halt where
  /-- Calls were nested deeper than allowed. -/
  | depth
  /-- A schema refers to a name that nothing has. -/
  | unbound (name : String)
  /-- A schema refers to a cell that is not in the store. -/
  | noCell (cell : CellId)
deriving Repr, DecidableEq

/-- A computation over a store. -/
abbrev Run (A : Type) := StateT (Store A) (Except Halt)

namespace Body

variable {A : Type}

/-- The artifacts that a body mentions. -/
def given : Body A → List A
  | .schema _ body _ => body.given
  | .definition => []

end Body

namespace Cell

variable {A : Type}

/-- The name to which the body of a cell binds its handle. -/
def binder (cell : Cell A) : String :=
  match cell.body with
  | .schema binder _ _ => binder
  | .definition => cell.id

/-- The name under which the handle of a cell is kept when its definition runs. -/
def stash (cell : Cell A) : Option String :=
  match cell.body with
  | .schema _ _ stash => stash
  | .definition => none

end Cell

namespace Store

variable {A : Type} [Artifact A]

/-- The cells that artifacts own. -/
def owned (artifacts : List A) : List CellId := artifacts.flatMap Artifact.cells

/-- The cells that are alive for being owned by a held artifact. -/
def roots (store : Store A) : List CellId :=
  owned store.held ++ owned (store.names.map Prod.snd)

/-- The cells that a cell keeps alive. -/
def kept (store : Store A) (cell : CellId) : List CellId :=
  match store.cells[cell]? with
  | some cell => owned (cell.resolved.toList ++ cell.body.given)
  | none => []

/-- Whether a cell is kept alive by others, sought for some rounds outwards from
the cells found last. -/
def isKept (store : Store A) (target : CellId) : Nat → List CellId → List CellId → Bool
  | 0, _, _ => false
  | rounds + 1, latest, found =>
      let next := ((latest.flatMap store.kept).filter fun cell => !found.contains cell).eraseDups
      if next.isEmpty then false
      else next.contains target || store.isKept target rounds next (next ++ found)

/-- Whether a cell is alive. -/
def isAlive (store : Store A) (target : CellId) : Bool :=
  store.roots.contains target || store.isKept target store.cells.size store.roots store.roots

end Store

/-! ## Steps over a store -/

section Steps

variable {A : Type}

/-- A cell of the store. -/
def cell (id : CellId) : Run A (Cell A) := do
  match (← get).cells[id]? with
  | some cell => pure cell
  | none => throw (.noCell id)

/-- A change to a cell. -/
def changeCell (id : CellId) (change : Cell A → Cell A) : Run A Unit :=
  modify fun store => { store with cells := store.cells.modify id change }

/-- A call that holds an artifact while it goes on. -/
def holding {α : Type} (artifact : A) (call : Run A α) : Run A α := do
  modify fun store => { store with held := artifact :: store.held }
  let answer ← call
  modify fun store => { store with held := store.held.tail }
  pure answer

/-- A new cell, owned by the artifact that is returned. -/
def allocate [Artifact A] (id : String) (body : Body A) (scope : List (String × A)) : Run A A := do
  let store ← get
  set { store with cells := store.cells.push ⟨id, body, scope, none, false⟩ }
  pure (Artifact.owner store.cells.size)

end Steps

end Lazy
end Schemata
