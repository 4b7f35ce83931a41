import Schemata.Encoding
import Schemata.Lazy.Building
import Schemata.Node.Identifier
import Schemata.Sourcing

/-!
# Using built schemas

The meanings of a blueprint in which lazy schemas are cells of a store.  Using a
cell resolves it and uses the artifact that it gave.  A handle whose cell is not
alive any more refuses every value when it decodes, and changes none when it
encodes.

When source is written, a cell is written out with its definition, but for
inside its own body, where it is a call of the function that defines it.

**Results.**  `decode`, `encode`, `accepts` and `write` are the uses of an
artifact.  They nest calls of cells `depth` deep at most.
-/

namespace Schemata
namespace Lazy

open Json

variable {A : Type} [Artifact A] (definitions : Entries Definition)

/-- What a handle without its cell says was expected. -/
def deadLabel : String := "a live lazy schema"

/-- Decoding by a handle, given how its cell decodes. -/
def handleDecoding (id : CellId) (whole : Decoding (Run A)) : Decoding (Run A) where
  decode value := do
    if (← get).isAlive id then whole.decode value
    else pure (.error (.leaf value deadLabel))

/-- Encoding by a handle, given how its cell encodes. -/
def handleEncoding (id : CellId) (whole : Encoding (Run A)) : Encoding (Run A) where
  encode value := do
    if (← get).isAlive id then whole.encode value else pure value
  accepts value := do
    if (← get).isAlive id then whole.accepts value else pure false

/-- Decoding by a cell, with calls nested to a depth. -/
def cellDecoding : Nat → CellId → Decoding (Run A)
  | 0, _ => ⟨fun _ => throw .depth⟩
  | depth + 1, id => ⟨fun value =>
      holding (Artifact.owner id) do
        let artifact ← resolve definitions id
        let outcome ← ((Artifact.decoder artifact).fold (cellDecoding depth)
          (fun id => handleDecoding id (cellDecoding depth id))).decode value
        pure (outcome.under (.lazy (← cell id).id))⟩

/-- Encoding by a cell, with calls nested to a depth. -/
def cellEncoding : Nat → CellId → Encoding (Run A)
  | 0, _ => ⟨fun _ => throw .depth, fun _ => throw .depth⟩
  | depth + 1, id =>
      let part (artifact : A) : Encoding (Run A) :=
        (Artifact.encoder artifact).fold (cellEncoding depth)
          (fun id => handleEncoding id (cellEncoding depth id))
      ⟨fun value => holding (Artifact.owner id) do
          let artifact ← resolve definitions id
          (part artifact).encode value,
        fun value => holding (Artifact.owner id) do
          let artifact ← resolve definitions id
          (part artifact).accepts value⟩

/-- The source of a cell, with cells nested to a depth. -/
def cellSourcing : Nat → CellId → Sourcing (Run A)
  | 0, _ => ⟨fun _ => throw .depth⟩
  | depth + 1, id => ⟨fun root => do
      let this ← cell id
      let name := Node.definitionName this.id root
      if this.writing then pure (.call (.ident name) [])
      else do
        changeCell id fun cell => { cell with writing := true }
        let artifact ← run definitions id
        let body ← ((Artifact.decoder artifact).fold (cellSourcing depth)
          (cellSourcing depth)).node root
        changeCell id fun cell => { cell with writing := false }
        pure (.method root "lazy" [.literal (.string this.id), .function name body])⟩

/-- The outcome of decoding a value by an artifact. -/
def decode (depth : Nat) (artifact : A) (value : Value) : Run A (Outcome Value) :=
  holding artifact (((Artifact.decoder artifact).fold (cellDecoding definitions depth)
    (fun id => handleDecoding id (cellDecoding definitions depth id))).decode value)

/-- The reading of an artifact as an encoder. -/
def encoding (depth : Nat) (artifact : A) : Encoding (Run A) :=
  (Artifact.encoder artifact).fold (cellEncoding definitions depth)
    (fun id => handleEncoding id (cellEncoding definitions depth id))

/-- A value encoded by an artifact. -/
def encode (depth : Nat) (artifact : A) (value : Value) : Run A Value :=
  holding artifact ((encoding definitions depth artifact).encode value)

/-- Whether a value is in the domain of an artifact. -/
def accepts (depth : Nat) (artifact : A) (value : Value) : Run A Bool :=
  holding artifact ((encoding definitions depth artifact).accepts value)

/-- The source of an artifact on a root identifier. -/
def write (depth : Nat) (root : String) (artifact : A) : Run A Node :=
  holding artifact (((Artifact.decoder artifact).fold (cellSourcing definitions depth)
    (cellSourcing definitions depth)).node root)

end Lazy
end Schemata
