import Schemata.Document.Basic
import Schemata.Encoding
import Schemata.Node.Identifier
import Schemata.Sourcing

/-!
# The meaning of documents

What the definitions of a document mean, said without lazy schemas: a reference
means the definition of its name, and a failure of that definition is put under
the name once.

The source of a name is a lazy schema with the source of its definition, in which the
name is a call of the function that defines it.

References are nested to a depth; beyond it there is no meaning.

**Results.**  `Document.decoding` and `Document.encoding` are the meanings of a name and
`Document.expansion` is its source; `decoding_succ`, `encoding_succ`, `expansion_mem` and
`expansion_succ` unfold them by one reference.
-/

namespace Schemata
namespace Document

variable (document : Document)

/-- Decoding by the definition of a name. -/
def decoding : Nat → String → Decoding Option
  | 0, _ => ⟨fun _ => none⟩
  | depth + 1, name =>
      ⟨fun value => do
        let definition ← document.find? name
        let outcome ← (definition.fold (decoding depth)).decode value
        pure (outcome.under (.lazy name))⟩

/-- Encoding by the definition of a name. -/
def encoding : Nat → String → Encoding Option
  | 0, _ => ⟨fun _ => none, fun _ => none⟩
  | depth + 1, name =>
      ⟨fun value => do
          let definition ← document.find? name
          (definition.fold (encoding depth)).encode value,
        fun value => do
          let definition ← document.find? name
          (definition.fold (encoding depth)).accepts value⟩

/-- The source of a name inside of the functions of other names. -/
def expansion : Nat → List String → String → Sourcing Option
  | 0, _, _ => ⟨fun _ => none⟩
  | depth + 1, around, name =>
      ⟨fun root => do
        if name ∈ around then pure (.call (.ident (Node.definitionName name root)) [])
        else do
          let definition ← document.find? name
          let body ← (definition.fold (expansion depth (name :: around))).node root
          pure (.method root "lazy"
            [.literal (.string name), .function (Node.definitionName name root) body])⟩

variable {document}

theorem decoding_succ {name : String} {definition : Definition}
    (h : document.find? name = some definition) (depth : Nat) (value : Json.Value) :
    (document.decoding (depth + 1) name).decode value =
      ((definition.fold (document.decoding depth)).decode value).map
        (Outcome.under (.lazy name)) := by
  simp only [decoding, h, Option.bind_eq_bind, Option.bind_some]
  cases (definition.fold (document.decoding depth)).decode value <;> rfl

theorem encoding_succ {name : String} {definition : Definition}
    (h : document.find? name = some definition) (depth : Nat) :
    document.encoding (depth + 1) name =
      ⟨(definition.fold (document.encoding depth)).encode,
        (definition.fold (document.encoding depth)).accepts⟩ := by
  simp [encoding, h]

theorem expansion_mem {around : List String} {name : String} (h : name ∈ around) (depth : Nat)
    (root : String) :
    (document.expansion (depth + 1) around name).node root =
      some (.call (.ident (Node.definitionName name root)) []) := by
  simp only [expansion, if_pos h]
  rfl

theorem expansion_succ {around : List String} {name : String} (h : name ∉ around)
    {definition : Definition} (hfind : document.find? name = some definition) (depth : Nat)
    (root : String) :
    (document.expansion (depth + 1) around name).node root =
      ((definition.fold (document.expansion depth (name :: around))).node root).map fun body =>
        .method root "lazy"
          [.literal (.string name), .function (Node.definitionName name root) body] := by
  simp only [expansion, if_neg h, hfind, Option.bind_eq_bind, Option.bind_some]
  cases (definition.fold (document.expansion depth (name :: around))).node root <;> rfl

end Document
end Schemata
