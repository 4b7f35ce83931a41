import Schemata.Node.Basic
import Schemata.Shape.Scalar

/-!
# Trees as JSON

A tree is written as an object of one member, whose key names the kind of node.
The fields of an object expression are pairs, so that their order and repeated
keys survive.

`toValue` writes a tree, `ofSource` reads one; a text is read from left to
right and the first fault is reported.
-/

namespace Schemata
namespace Node

/-- An object of one member. -/
def tagged (kind : String) (contents : Json.Value) : Json.Value := .object [(kind, contents)]

mutual
/-- The JSON value of a tree. -/
def toValue : Node → Json.Value
  | .literal value => tagged "literal" value.toValue
  | .ident name => tagged "ident" (.string name)
  | .member target property =>
      tagged "member" (.object [("object", target.toValue), ("property", .string property)])
  | .call callee args =>
      tagged "call" (.object [("callee", callee.toValue), ("args", .array (toValues args))])
  | .object fields => tagged "object" (.array (toPairs fields))
  | .array items => tagged "array" (.array (toValues items))
  | .function name body =>
      tagged "function" (.object [("name", .string name), ("body", body.toValue)])

def toValues : List Node → List Json.Value
  | [] => []
  | node :: rest => node.toValue :: toValues rest

def toPairs : List (String × Node) → List Json.Value
  | [] => []
  | (key, node) :: rest => .array [.string key, node.toValue] :: toPairs rest
end

open Shape

/-- The kinds of nodes. -/
def kinds : List String := ["literal", "ident", "member", "call", "object", "array", "function"]

/-- What a part of a node with several parts is. -/
inductive PartKind where
  | node
  | nodes
  | text

/-- The parts of a node read so far. -/
structure Parts where
  node : Option Node := none
  nodes : Option (List Node) := none
  text : Option String := none

/-- Whether a part has been read. -/
def Parts.has (parts : Parts) : PartKind → Bool
  | .node => parts.node.isSome
  | .nodes => parts.nodes.isSome
  | .text => parts.text.isSome

/-- A node kind that has several parts, by name and in order. -/
structure Compound where
  name : String
  parts : List (String × PartKind)

def Compound.form (compound : Compound) : String := "struct variant Node::" ++ compound.name

def Compound.expected (compound : Compound) : String :=
  compound.form ++ " with " ++ counted compound.parts.length "element"

/-- The compound kind of a name. -/
def compound? : String → Option Compound
  | "member" => some ⟨"Member", [("object", .node), ("property", .text)]⟩
  | "call" => some ⟨"Call", [("callee", .node), ("args", .nodes)]⟩
  | "function" => some ⟨"Function", [("name", .text), ("body", .node)]⟩
  | _ => none

/-- A part that must be there. -/
def required {α : Type} (name : String) (part : Option α) : Reading α :=
  match part with
  | some part => pure part
  | none => fail (.missingField name)

/-- A node of a compound kind from its parts. -/
def assemble (kind : String) (parts : Parts) : Reading Node :=
  match kind with
  | "member" => do
      let target ← required "object" parts.node
      let property ← required "property" parts.text
      pure (.member target property)
  | "call" => do
      let callee ← required "callee" parts.node
      let args ← required "args" parts.nodes
      pure (.call callee args)
  | _ => do
      let name ← required "name" parts.text
      let body ← required "body" parts.node
      pure (.function name body)

/-- The reading of a kind that stands without contents. -/
def bareKind (kind : String) : Reading Node :=
  if kind ∈ kinds then
    fail (.wrongType .bareVariant
      (if (compound? kind).isSome then "struct variant" else "newtype variant"))
  else fail (.unknownVariant kind kinds)

/-- A tree of a kind whose contents are no node, or not of its form. -/
def readLeaf (room : Nat) (kind : String) (contents : Json.Source) : Reading Node :=
  match kind, compound? kind with
  | _, some compound => unexpectedSource contents compound.form
  | "literal", none => do pure (.literal (← Literal.ofSource room contents))
  | "ident", none => do pure (.ident (← sourceText contents))
  | "array", none => unexpectedSource contents "a sequence"
  | "object", none => unexpectedSource contents "a sequence"
  | _, none => fail (.unknownVariant kind kinds)

/-- How deep containers may be nested inside one more container. -/
def inside (room : Nat) : Reading Nat :=
  match room with
  | 0 => malformed
  | room + 1 => pure room

mutual
/-- The tree of a source in which `room` containers may be nested. -/
def read (room : Nat) : Json.Source → Reading Node
  | .object members closed => do readTagged (← inside room) closed members
  | .string (some kind) => bareKind kind
  | _ => malformed

/-- The tree of an object of one member. -/
def readTagged (room : Nat) (closed : Bool) : List (Option String × Json.Source) → Reading Node
  | [] => malformed
  | (key, contents) :: rest => do
      let node ← readContents room (← Shape.key key) contents
      ending (rest.isEmpty && closed)
      pure node

/-- A tree of a kind from its contents. -/
def readContents (room : Nat) (kind : String) : Json.Source → Reading Node
  | .array items closed => do
      match compound? kind, kind with
      | some compound, _ =>
          assemble kind
            (← readInOrder (← inside room) compound.expected 0 {} compound.parts closed items)
      | none, "array" => pure (.array (← readAll (← inside room) closed items))
      | none, "object" => pure (.object (← readPairs (← inside room) closed items))
      | none, _ => readLeaf room kind (.array items closed)
  | .object members closed => do
      match compound? kind with
      | some compound =>
          assemble kind (← readByName (← inside room) compound.parts {} closed members)
      | none => readLeaf room kind (.object members closed)
  | .null => readLeaf room kind .null
  | .bool value => readLeaf room kind (.bool value)
  | .number value => readLeaf room kind (.number value)
  | .string text => readLeaf room kind (.string text)
  | .broken => readLeaf room kind .broken

def readAll (room : Nat) (closed : Bool) : List Json.Source → Reading (List Node)
  | [] => do
      ending closed
      pure []
  | item :: rest => do
      let node ← read room item
      let nodes ← readAll room closed rest
      pure (node :: nodes)

def readPairs (room : Nat) (closed : Bool) : List Json.Source → Reading (List (String × Node))
  | [] => do
      ending closed
      pure []
  | item :: rest => do
      let parts ←
        match item with
        | .array items pairClosed => do
            readInOrder (← inside room) "a tuple of size 2" 0 {} [("key", .text), ("value", .node)]
              pairClosed items
        | other => unexpectedSource other "a tuple of size 2"
      let key ← required "key" parts.text
      let value ← required "value" parts.node
      let fields ← readPairs room closed rest
      pure ((key, value) :: fields)

/-- The parts of a node in their order, from an index on. -/
def readInOrder (room : Nat) (expected : String) (index : Nat) (parts : Parts)
    (kinds : List (String × PartKind)) (closed : Bool) : List Json.Source → Reading Parts
  | [] => do
      ending closed
      if kinds.isEmpty then pure parts else fail (.wrongLength index expected)
  | item :: rest => do
      match kinds with
      | [] => malformed
      | (_, kind) :: kinds => do
          let parts ←
            match kind, item with
            | .text, item => do pure { parts with text := some (← sourceText item) }
            | .node, item => do pure { parts with node := some (← read room item) }
            | .nodes, .array items itemsClosed => do
                pure { parts with nodes := some (← readAll (← inside room) itemsClosed items) }
            | .nodes, other => unexpectedSource other "a sequence"
          readInOrder room expected (index + 1) parts kinds closed rest

/-- The parts of a node by name. -/
def readByName (room : Nat) (kinds : List (String × PartKind)) (parts : Parts) (closed : Bool) :
    List (Option String × Json.Source) → Reading Parts
  | [] => do
      ending closed
      pure parts
  | (key, item) :: rest => do
      let key ← Shape.key key
      match kinds.lookup key with
      | none => do
          skip item
          readByName room kinds parts closed rest
      | some kind => do
          if parts.has kind then fail (.duplicateField key)
          let parts ←
            match kind, item with
            | .text, item => do pure { parts with text := some (← sourceText item) }
            | .node, item => do pure { parts with node := some (← read room item) }
            | .nodes, .array items itemsClosed => do
                pure { parts with nodes := some (← readAll (← inside room) itemsClosed items) }
            | .nodes, other => unexpectedSource other "a sequence"
          readByName room kinds parts closed rest
end

/-- The tree of a source. -/
def ofSource (source : Json.Source) : Reading Node := read Json.nestingLimit source

end Node
end Schemata
