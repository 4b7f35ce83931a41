import Schemata.Document.Basic
import Schemata.Shape.Scalar

/-!
# Documents as JSON

**Input.**  A document, or the source of one.

**Algorithm.**  A definition is an object whose member `kind` names its kind and
whose other members are its parts, the kind first and the parts in a fixed
order.  It can also be read from an array of the kind and the parts.  A reader
goes through a definition twice: once to find its kind, taking all other members
as values, and once through those values in their order.

**Results.**  `Document.toValue` writes a document, `Document.readWhole` reads the
root and the definitions of one and reports the first fault.
-/

namespace Schemata

open Json (Value Source)
open Shape (Reading)

/-! ## Writing -/

def Primitive.kindName : Primitive → String
  | .string => "string"
  | .number => "number"
  | .boolean => "boolean"
  | .array => "unknown_array"
  | .object => "unknown_record"

def FieldKind.kindName : FieldKind → String
  | .required => "type"
  | .optional => "partial"

/-- The object of a kind and its parts. -/
def kindValue (kind : String) (parts : List (String × Value)) : Value :=
  .object (("kind", .string kind) :: parts)

def literalValues (values : NonEmpty Literal) : Value := .array (values.toList.map Literal.toValue)

mutual

/-- The JSON value of a definition. -/
def Definition.toValue : Definition → Value
  | .literal value => kindValue "literal" [("value", value.toValue)]
  | .literals values => kindValue "literals" [("values", literalValues values)]
  | .literalsOr values fallback =>
      kindValue "literals_or" [("values", literalValues values), ("or", fallback.toValue)]
  | .primitive kind => kindValue kind.kindName []
  | .object kind fields => kindValue kind.kindName [("fields", .object (fieldValues fields))]
  | .record codomain => kindValue "record" [("codomain", codomain.toValue)]
  | .array item => kindValue "array" [("item", item.toValue)]
  | .tuple components => kindValue "tuple" [("components", .array (componentValues components))]
  | .intersection left right =>
      kindValue "intersection" [("left", left.toValue), ("right", right.toValue)]
  | .sum tag members =>
      kindValue "sum" [("tag", .string tag), ("members", .object (memberValues members))]
  | .union ⟨head, tail⟩ =>
      kindValue "union" [("members", .array (head.toValue :: componentValues tail))]
  | .readonly inner => kindValue "readonly" [("inner", inner.toValue)]
  | .ref name => kindValue "ref" [("name", .string name)]

/-- The JSON value of a definition of objects. -/
def ObjectDefinition.toValue : ObjectDefinition → Value
  | .unknown => kindValue "unknown_record" []
  | .object kind fields => kindValue kind.kindName [("fields", .object (fieldValues fields))]
  | .record codomain => kindValue "record" [("codomain", codomain.toValue)]
  | .sum tag members =>
      kindValue "sum" [("tag", .string tag), ("members", .object (memberValues members))]
  | .intersection left right =>
      kindValue "intersection" [("left", left.toValue), ("right", right.toValue)]
  | .readonly inner => kindValue "readonly" [("inner", inner.toValue)]

def fieldValues : List (String × Definition) → List (String × Value)
  | [] => []
  | (key, definition) :: rest => (key, definition.toValue) :: fieldValues rest

def componentValues : List Definition → List Value
  | [] => []
  | definition :: rest => definition.toValue :: componentValues rest

def memberValues : List (String × ObjectDefinition) → List (String × Value)
  | [] => []
  | (key, definition) :: rest => (key, definition.toValue) :: memberValues rest

end

/-- The JSON value of a document. -/
def Document.toValue (document : Document) : Value :=
  .object [("root", .string document.root),
    ("definitions", .object (fieldValues document.definitions))]

/-! ## Reading -/

namespace Document

/-- What a part of a definition is. -/
inductive PartKind where
  | literal
  | literals
  | text
  | definition
  /-- The components of a tuple. -/
  | components
  /-- The members of a union. -/
  | members
  | fields
  /-- A definition of objects. -/
  | object
  /-- The members of a sum. -/
  | objects

/-- A kind of definition: its name, the name of its form in messages, and its
parts with what they are. -/
structure Kind where
  name : String
  form : String
  parts : List (String × PartKind)

/-- The kinds of definitions, in order. -/
def kinds : List Kind := [
  ⟨"literal", "Literal", [("value", .literal)]⟩,
  ⟨"literals", "Literals", [("values", .literals)]⟩,
  ⟨"literals_or", "LiteralsOr", [("values", .literals), ("or", .definition)]⟩,
  ⟨"string", "String", []⟩,
  ⟨"number", "Number", []⟩,
  ⟨"boolean", "Boolean", []⟩,
  ⟨"unknown_array", "UnknownArray", []⟩,
  ⟨"unknown_record", "UnknownRecord", []⟩,
  ⟨"type", "Type", [("fields", .fields)]⟩,
  ⟨"partial", "Partial", [("fields", .fields)]⟩,
  ⟨"record", "Record", [("codomain", .definition)]⟩,
  ⟨"array", "Array", [("item", .definition)]⟩,
  ⟨"tuple", "Tuple", [("components", .components)]⟩,
  ⟨"intersection", "Intersection", [("left", .definition), ("right", .definition)]⟩,
  ⟨"sum", "Sum", [("tag", .text), ("members", .objects)]⟩,
  ⟨"union", "Union", [("members", .members)]⟩,
  ⟨"readonly", "Readonly", [("inner", .definition)]⟩,
  ⟨"ref", "Ref", [("name", .text)]⟩]

/-- The kinds of definitions of objects, in order. -/
def objectKinds : List Kind := [
  ⟨"unknown_record", "UnknownRecord", []⟩,
  ⟨"type", "Type", [("fields", .fields)]⟩,
  ⟨"partial", "Partial", [("fields", .fields)]⟩,
  ⟨"record", "Record", [("codomain", .definition)]⟩,
  ⟨"sum", "Sum", [("tag", .text), ("members", .objects)]⟩,
  ⟨"intersection", "Intersection", [("left", .object), ("right", .object)]⟩,
  ⟨"readonly", "Readonly", [("inner", .object)]⟩]

/-- A family of definitions: its name and its kinds. -/
structure Family where
  name : String
  kinds : List Kind

def anyFamily : Family := ⟨"SchemaDef", kinds⟩

def objectFamily : Family := ⟨"ObjectDef", objectKinds⟩

def Family.expected (family : Family) : String := "internally tagged enum " ++ family.name

def Kind.expected (kind : Kind) (family : Family) : String :=
  "struct variant " ++ family.name ++ "::" ++ kind.form ++ " with " ++
    Shape.counted kind.parts.length "element"

/-- The kind of a name. -/
def Family.kindOfName (family : Family) (name : String) : Reading Kind :=
  match family.kinds.find? (·.name == name) with
  | some kind => pure kind
  | none => Shape.fail (.unknownVariant name (family.kinds.map Kind.name))

/-- The kind that a value names.  Where kinds are numbered, an index names a
kind too. -/
def Family.kindOfValue (family : Family) (numbered : Bool) : Value → Reading Kind
  | .string name => family.kindOfName name
  | .number (.integer index) =>
      if numbered && 0 ≤ index then
        match family.kinds[index.toNat]? with
        | some kind => pure kind
        | none =>
            Shape.fail (.outOfRange index
              ("variant index 0 <= i < " ++ toString family.kinds.length))
      else Shape.unexpected (.number (.integer index)) "variant identifier"
  | value => Shape.unexpected value "variant identifier"

/-- The kind that a source names. -/
def Family.kindOfSource (family : Family) : Source → Reading Kind
  | .string (some name) => family.kindOfName name
  | source => Shape.unexpectedSource source "variant identifier"

/-- A part of a definition. -/
inductive Part where
  | literal (value : Literal)
  | literals (values : NonEmpty Literal)
  | text (text : String)
  | definition (definition : Definition)
  | components (definitions : List Definition)
  | members (definitions : NonEmpty Definition)
  | fields (fields : Entries Definition)
  | object (definition : ObjectDefinition)
  | objects (members : Entries ObjectDefinition)

def Part.definition? : Part → Option Definition
  | .definition d => some d
  | _ => none

def Part.object? : Part → Option ObjectDefinition
  | .object d => some d
  | _ => none

/-- A part that must be there, and of the right kind. -/
def required {α : Type} (parts : Entries Part) (name : String) (view : Part → Option α) :
    Reading α :=
  match (parts.lookup name).bind view with
  | some part => pure part
  | none => Shape.fail (.missingField name)

def requiredDefinition (parts : Entries Part) (name : String) : Reading Definition :=
  required parts name Part.definition?

def requiredLiterals (parts : Entries Part) : Reading (NonEmpty Literal) :=
  required parts "values" fun | .literals values => some values | _ => none

def requiredText (parts : Entries Part) (name : String) : Reading String :=
  required parts name fun | .text text => some text | _ => none

def requiredFields (parts : Entries Part) : Reading (Entries Definition) :=
  required parts "fields" fun | .fields entries => some entries | _ => none

def requiredObjects (parts : Entries Part) : Reading (Entries ObjectDefinition) :=
  required parts "members" fun | .objects entries => some entries | _ => none

/-- The definition of a kind with its parts. -/
def definitionOf (kind : String) (parts : Entries Part) : Reading Definition :=
  match kind with
  | "literal" => do
      pure (.literal (← required parts "value" fun | .literal value => some value | _ => none))
  | "literals" => do pure (.literals (← requiredLiterals parts))
  | "literals_or" => do
      let values ← requiredLiterals parts
      pure (.literalsOr values (← requiredDefinition parts "or"))
  | "string" => pure (.primitive .string)
  | "number" => pure (.primitive .number)
  | "boolean" => pure (.primitive .boolean)
  | "unknown_array" => pure (.primitive .array)
  | "unknown_record" => pure (.primitive .object)
  | "type" => do pure (.object .required (← requiredFields parts))
  | "partial" => do pure (.object .optional (← requiredFields parts))
  | "record" => do pure (.record (← requiredDefinition parts "codomain"))
  | "array" => do pure (.array (← requiredDefinition parts "item"))
  | "tuple" =>
      match parts.lookup "components" with
      | some (.components definitions) => pure (.tuple definitions)
      | _ => pure (.tuple [])
  | "intersection" => do
      let left ← requiredDefinition parts "left"
      pure (.intersection left (← requiredDefinition parts "right"))
  | "sum" => do
      let tag ← requiredText parts "tag"
      pure (.sum tag (← requiredObjects parts))
  | "union" => do
      pure (.union (← required parts "members" fun | .members items => some items | _ => none))
  | "readonly" => do pure (.readonly (← requiredDefinition parts "inner"))
  | _ => do pure (.ref (← requiredText parts "name"))

/-- The definition of objects of a kind with its parts. -/
def objectOf (kind : String) (parts : Entries Part) : Reading ObjectDefinition :=
  match kind with
  | "type" => do pure (.object .required (← requiredFields parts))
  | "partial" => do pure (.object .optional (← requiredFields parts))
  | "record" => do pure (.record (← requiredDefinition parts "codomain"))
  | "sum" => do
      let tag ← requiredText parts "tag"
      pure (.sum tag (← requiredObjects parts))
  | "intersection" => do
      let left ← required parts "left" Part.object?
      pure (.intersection left (← required parts "right" Part.object?))
  | "readonly" => do pure (.readonly (← required parts "inner" Part.object?))
  | _ => pure .unknown

/-- The kind among members, found so far and in the members that follow. -/
def findKind (family : Family) (numbered : Bool) :
    Option Kind → List (String × Value) → Reading Kind
  | some kind, [] => pure kind
  | none, [] => Shape.fail (.missingField "kind")
  | found, (key, value) :: rest => do
      if key = "kind" then
        if found.isSome then Shape.fail (.duplicateField "kind")
        else findKind family numbered (some (← family.kindOfValue numbered value)) rest
      else findKind family numbered found rest

def readLiterals : List Value → Reading (List Literal)
  | [] => pure []
  | value :: rest => do
      let literal ← Literal.ofValue value
      let literals ← readLiterals rest
      pure (literal :: literals)

/-- A part that has no definitions in it, or is not of its form. -/
def readLeaf (kind : PartKind) (value : Value) : Reading Part :=
  match kind with
  | .literal => do pure (.literal (← Literal.ofValue value))
  | .literals =>
      match value with
      | .array items => do pure (.literals (← Shape.nonEmpty (← readLiterals items)))
      | value => Shape.unexpected value "a sequence"
  | .text => do pure (.text (← Shape.text value))
  | .definition => Shape.unexpected value anyFamily.expected
  | .object => Shape.unexpected value objectFamily.expected
  | .components => Shape.unexpected value "a sequence"
  | .members => Shape.unexpected value "a sequence"
  | .fields => Shape.unexpected value "a map"
  | .objects => Shape.unexpected value "a map"

mutual

/-- A part of a kind. -/
def readPart (numbered : Bool) (kind : PartKind) : Value → Reading Part
  | .object members =>
      match kind with
      | .definition => do
          let kind ← findKind anyFamily numbered none members
          pure (.definition
            (← definitionOf kind.name (← readByName numbered kind.parts [] members)))
      | .object => do
          let kind ← findKind objectFamily numbered none members
          pure (.object (← objectOf kind.name (← readByName numbered kind.parts [] members)))
      | .fields => do
          let entries ← readEntries numbered .definition members
          pure (.fields (Entries.ofList (entries.filterMap fun (key, part) =>
            part.definition?.map fun d => (key, d))))
      | .objects => do
          let entries ← readEntries numbered .object members
          pure (.objects (Entries.ofList (entries.filterMap fun (key, part) =>
            part.object?.map fun d => (key, d))))
      | kind => readLeaf kind (.object members)
  | .array items =>
      match kind with
      | .definition => do
          let (kind, parts) ← readTagged numbered anyFamily items
          pure (.definition (← definitionOf kind parts))
      | .object => do
          let (kind, parts) ← readTagged numbered objectFamily items
          pure (.object (← objectOf kind parts))
      | .components => do
          pure (.components ((← readAll numbered .definition items).filterMap Part.definition?))
      | .members => do
          let parts ← readAll numbered .definition items
          pure (.members (← Shape.nonEmpty (parts.filterMap Part.definition?)))
      | kind => readLeaf kind (.array items)
  | .null => readLeaf kind .null
  | .bool value => readLeaf kind (.bool value)
  | .number value => readLeaf kind (.number value)
  | .string text => readLeaf kind (.string text)

/-- The kind that begins an array, and the parts that follow. -/
def readTagged (numbered : Bool) (family : Family) : List Value → Reading (String × Entries Part)
  | [] => Shape.fail (.missingField "kind")
  | tag :: items => do
      let kind ← family.kindOfValue numbered tag
      pure (kind.name, ← readInOrder numbered (kind.expected family) 0 [] kind.parts items)

/-- The parts of members, each of a kind. -/
def readEntries (numbered : Bool) (kind : PartKind) :
    List (String × Value) → Reading (List (String × Part))
  | [] => pure []
  | (key, value) :: rest => do
      let part ← readPart numbered kind value
      let parts ← readEntries numbered kind rest
      pure ((key, part) :: parts)

def readAll (numbered : Bool) (kind : PartKind) : List Value → Reading (List Part)
  | [] => pure []
  | value :: rest => do
      let part ← readPart numbered kind value
      let parts ← readAll numbered kind rest
      pure (part :: parts)

/-- The parts of a definition by name, after those that have been read. -/
def readByName (numbered : Bool) (kinds : List (String × PartKind)) (parts : Entries Part) :
    List (String × Value) → Reading (Entries Part)
  | [] => pure parts
  | (key, value) :: rest =>
      match kinds.lookup key with
      | none => readByName numbered kinds parts rest
      | some kind => do
          if (parts.lookup key).isSome then Shape.fail (.duplicateField key)
          let part ← readPart numbered kind value
          readByName numbered kinds (parts ++ [(key, part)]) rest

/-- The parts of a definition in their order, from an index on.  The components
of a tuple may be left out. -/
def readInOrder (numbered : Bool) (expected : String) (index : Nat) (parts : Entries Part)
    (kinds : List (String × PartKind)) : List Value → Reading (Entries Part)
  | [] =>
      match kinds with
      | [] => pure parts
      | [(_, .components)] => pure parts
      | _ => Shape.fail (.wrongLength index expected)
  | value :: rest =>
      match kinds with
      | [] =>
          Shape.fail (.wrongLength (index + 1 + rest.length)
            (Shape.counted index "element" ++ " in sequence"))
      | (name, kind) :: kinds => do
          let part ← readPart numbered kind value
          readInOrder numbered expected (index + 1) (parts ++ [(name, part)]) kinds rest

end

/-- Parts of a kind without definitions are leaves, whatever the value is. -/
theorem readPart_leaf (numbered : Bool) {kind : PartKind}
    (hkind : kind = .literal ∨ kind = .literals ∨ kind = .text) (value : Value) :
    readPart numbered kind value = readLeaf kind value := by
  rcases hkind with rfl | rfl | rfl <;> cases value <;> simp only [readPart]

/-! ## Sources -/

/-- How a text is read: how deep it may be nested, and whether kinds inside a
definition may be given by number. -/
structure Format where
  room : Nat
  numbered : Bool

/-- How deep containers may be nested inside one more container. -/
def inside (room : Nat) : Reading Nat :=
  match room with
  | 0 => Shape.malformed
  | room + 1 => pure room

/-- The kind and the other members of a definition, from left to right. -/
def splitMembers (room : Nat) (closed : Bool) :
    Option Kind → List (Option String × Source) → Reading (Kind × List (String × Value))
  | some kind, [] => do
      Shape.ending closed
      pure (kind, [])
  | none, [] => do
      Shape.ending closed
      Shape.fail (.missingField "kind")
  | found, (key, member) :: rest => do
      let key ← Shape.key key
      if key = "kind" then
        if found.isSome then Shape.fail (.duplicateField "kind")
        else splitMembers room closed (some (← anyFamily.kindOfSource member)) rest
      else
        let value ← Shape.buffered room member
        let (kind, members) ← splitMembers room closed found rest
        pure (kind, (key, value) :: members)

def bufferedAll (room : Nat) : List Source → Reading (List Value)
  | [] => pure []
  | item :: rest => do
      let value ← Shape.buffered room item
      let values ← bufferedAll room rest
      pure (value :: values)

/-- The definition of a source. -/
def readDefinition (format : Format) (room : Nat) : Source → Reading Definition
  | .object members closed => do
      let room ← inside room
      let (kind, members) ← splitMembers room closed none members
      definitionOf kind.name (← readByName format.numbered kind.parts [] members)
  | .array [] closed => do
      let _ ← inside room
      Shape.ending closed
      Shape.fail (.missingField "kind")
  | .array (tag :: items) closed => do
      let room ← inside room
      let kind ← anyFamily.kindOfSource tag
      let values ← bufferedAll room items
      Shape.ending closed
      definitionOf kind.name
        (← readInOrder format.numbered (kind.expected anyFamily) 0 [] kind.parts values)
  | source => Shape.unexpectedSource source anyFamily.expected

/-- The definitions of an object, after those that have been read. -/
def readDefinitions (format : Format) (room : Nat) (closed : Bool) (found : Entries Definition) :
    List (Option String × Source) → Reading (Entries Definition)
  | [] => do
      Shape.ending closed
      pure found
  | (key, member) :: rest => do
      let key ← Shape.key key
      let definition ← readDefinition format room member
      readDefinitions format room closed (found.set key definition) rest

/-- A set of definitions. -/
def definitionsOf (format : Format) (room : Nat) : Source → Reading (Entries Definition)
  | .object members closed => do readDefinitions format (← inside room) closed [] members
  | source => Shape.unexpectedSource source "a map"

def wholeForm : String := "struct RawDocument"

/-- The root and the definitions among members, found so far and in the members
that follow. -/
def readMembers (format : Format) (room : Nat) (closed : Bool) (root : Option String)
    (definitions : Option (Entries Definition)) :
    List (Option String × Source) → Reading (String × Entries Definition)
  | [] => do
      Shape.ending closed
      match root, definitions with
      | none, _ => Shape.fail (.missingField "root")
      | _, none => Shape.fail (.missingField "definitions")
      | some root, some definitions => pure (root, definitions)
  | (key, member) :: rest => do
      match ← Shape.key key with
      | "root" =>
          if root.isSome then Shape.fail (.duplicateField "root")
          readMembers format room closed (some (← Shape.sourceText member)) definitions rest
      | "definitions" =>
          if definitions.isSome then Shape.fail (.duplicateField "definitions")
          readMembers format room closed root (some (← definitionsOf format room member)) rest
      | _ =>
          Shape.skip member
          readMembers format room closed root definitions rest

/-- The root and the definitions of a source. -/
def readWhole (format : Format) : Source → Reading (String × Entries Definition)
  | .object members closed => do
      readMembers format (← inside format.room) closed none none members
  | .array items closed => do
      let room ← inside format.room
      let short (count : Nat) : Reading (String × Entries Definition) := do
        Shape.ending closed
        Shape.fail (.wrongLength count (wholeForm ++ " with 2 elements"))
      match items with
      | [] => short 0
      | [root] => do
          let _ ← Shape.sourceText root
          short 1
      | root :: definitions :: rest => do
          let root ← Shape.sourceText root
          let definitions ← definitionsOf format room definitions
          Shape.ending (rest.isEmpty && closed)
          pure (root, definitions)
  | source => Shape.unexpectedSource source wholeForm

end Document
end Schemata
