import Schemata.Document.Basic
import Schemata.Lazy.Running

/-!
# Interpreting documents

An interpretation of a document is an artifact for its root, with the store of
its lazy schemas.  Every definition becomes a lazy schema of its name, so
recursive and mutually recursive documents are no different from others.

A use that comes to an end nests no two calls of one definition with one purpose
on one value, since the inner call would make it once more.  Encoders inside
each other go down the levels of a value and then hand over to guards, which go
down the rest; so there are no more calls than one of each definition for each
level, and one of each for the level where they change over.

**Results.**  `Interpretation.decode`, `encode` and `accepts` use an artifact and
give the store after the call; `Document.source` is the source of the root.
-/

namespace Schemata

open Json (Value)
open Lazy (Halt Store)

/-- An artifact and the store of its lazy schemas. -/
structure Interpretation (A : Type) where
  artifact : A
  store : Store A

namespace Document

variable {A : Type} [Artifact A]

/-- The interpretation of a document: its root as a lazy schema. -/
def interpret (document : Document) : Interpretation A where
  artifact := Artifact.owner 0
  store := { cells := #[{ id := document.root, body := .definition, scope := [] }] }

/-- How deep calls for a value may be nested. -/
def callDepth (document : Document) (value : Value) : Nat :=
  (value.depth + 2) * (document.definitions.length + 1)

/-- How deep definitions may be nested in the source of a document. -/
def sourceDepth (document : Document) : Nat := document.definitions.length + 2

end Document

namespace Interpretation

variable {A : Type} [Artifact A]

/-- The answer of a call, and the interpretation after it. -/
def after {α : Type} (interpretation : Interpretation A) (call : Lazy.Run A α) :
    Except Halt (α × Interpretation A) := do
  let (answer, store) ← call.run interpretation.store
  pure (answer, { interpretation with store })

/-- The outcome of decoding a value. -/
def decode (document : Document) (interpretation : Interpretation A) (value : Value) :
    Except Halt (Outcome Value × Interpretation A) :=
  interpretation.after
    (Lazy.decode document.definitions (document.callDepth value) interpretation.artifact value)

/-- A value encoded. -/
def encode (document : Document) (interpretation : Interpretation A) (value : Value) :
    Except Halt (Value × Interpretation A) :=
  interpretation.after
    (Lazy.encode document.definitions (document.callDepth value) interpretation.artifact value)

/-- Whether a value is in the domain of the root. -/
def accepts (document : Document) (interpretation : Interpretation A) (value : Value) :
    Except Halt (Bool × Interpretation A) :=
  interpretation.after
    (Lazy.accepts document.definitions (document.callDepth value) interpretation.artifact value)

/-- The source of the root on a root identifier. -/
def source (document : Document) (interpretation : Interpretation A) (root : String) :
    Except Halt (Node × Interpretation A) :=
  interpretation.after
    (Lazy.write document.definitions document.sourceDepth root interpretation.artifact)

end Interpretation

namespace Document

/-- The outcome of decoding a value by the root of a document. -/
def decode (document : Document) (value : Value) : Except Halt (Outcome Value) := do
  let (outcome, _) ← Interpretation.decode document (document.interpret (A := Blueprint)) value
  pure outcome

/-- A value encoded by the root of a document. -/
def encode (document : Document) (value : Value) : Except Halt Value := do
  let (encoded, _) ← Interpretation.encode document (document.interpret (A := Blueprint)) value
  pure encoded

/-- Whether a value is in the domain of the root of a document. -/
def accepts (document : Document) (value : Value) : Except Halt Bool := do
  let (accepted, _) ← Interpretation.accepts document (document.interpret (A := Blueprint)) value
  pure accepted

/-- The source of the root of a document. -/
def source (document : Document) (root : String) : Except Halt Node := do
  let (node, _) ← Interpretation.source document (document.interpret (A := Blueprint)) root
  pure node

end Document
end Schemata
