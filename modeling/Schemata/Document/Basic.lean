import Schemata.Document.Definition
import Schemata.SchemaError

/-!
# Documents

A document names a set of definitions and the one to start from.  The root and
every name that a definition refers to are defined; both are part of the type.

**Results.**  `Document.ofDefinitions` makes a document or says which name is
undefined, `Document.same` is equality up to the order of definitions, fields
and members.
-/

namespace Schemata

/-- The names that a set of definitions refers to, in the order of the
definitions. -/
def Entries.references (definitions : Entries Definition) : List String :=
  definitions.flatMap fun entry => entry.2.references

/-- A set of definitions with a root. -/
structure Document where
  root : String
  definitions : Entries Definition
  root_mem : root ∈ definitions.keys
  references_mem : ∀ name ∈ definitions.references, name ∈ definitions.keys

namespace Document

/-- The document of a set of definitions. -/
def ofDefinitions (root : String) (definitions : Entries Definition) :
    Except SchemaError Document :=
  if hroot : root ∈ definitions.keys then
    match h : definitions.references.find? fun name => decide (name ∉ definitions.keys) with
    | some name => .error (.unknownReference name)
    | none =>
        .ok ⟨root, definitions, hroot, by
          intro name hname
          simpa using List.find?_eq_none.1 h name hname⟩
  else .error (.unknownRoot root)

def find? (document : Document) (name : String) : Option Definition :=
  document.definitions.lookup name

variable {document : Document}

theorem exists_find? {name : String} (hname : name ∈ document.definitions.keys) :
    ∃ definition, document.find? name = some definition :=
  Entries.exists_lookup hname

/-- What a definition refers to is defined. -/
theorem mem_keys_of_reference {name : String} {definition : Definition}
    (hfind : document.find? name = some definition) {next : String}
    (hnext : next ∈ definition.references) : next ∈ document.definitions.keys :=
  document.references_mem next
    (List.mem_flatMap.2 ⟨(name, definition), Entries.mem_of_lookup hfind, hnext⟩)

end Document

/-! ## Equality -/

def sameLiterals : List Literal → List Literal → Bool
  | [], [] => true
  | a :: as, b :: bs => a.same b && sameLiterals as bs
  | _, _ => false

mutual

/-- Equality of definitions, up to the order of fields and members. -/
def Definition.same : Definition → Definition → Bool
  | .literal a, .literal b => a.same b
  | .literals as, .literals bs => sameLiterals as.toList bs.toList
  | .literalsOr as a, .literalsOr bs b => sameLiterals as.toList bs.toList && a.same b
  | .primitive a, .primitive b => a == b
  | .object k as, .object l bs => k == l && as.length == bs.length && sameFields as bs
  | .record a, .record b => a.same b
  | .array a, .array b => a.same b
  | .tuple as, .tuple bs => sameComponents as bs
  | .intersection a b, .intersection c d => a.same c && b.same d
  | .sum t as, .sum u bs => t == u && as.length == bs.length && sameMembers as bs
  | .union ⟨a, as⟩, .union ⟨b, bs⟩ => a.same b && sameComponents as bs
  | .readonly a, .readonly b => a.same b
  | .ref a, .ref b => a == b
  | _, _ => false

/-- Equality of definitions of objects. -/
def ObjectDefinition.same : ObjectDefinition → ObjectDefinition → Bool
  | .unknown, .unknown => true
  | .object k as, .object l bs => k == l && as.length == bs.length && sameFields as bs
  | .record a, .record b => a.same b
  | .sum t as, .sum u bs => t == u && as.length == bs.length && sameMembers as bs
  | .intersection a b, .intersection c d => a.same c && b.same d
  | .readonly a, .readonly b => a.same b
  | _, _ => false

/-- Every field on the left is equal to the field of its key on the right. -/
def sameFields : List (String × Definition) → List (String × Definition) → Bool
  | [], _ => true
  | (key, a) :: as, bs =>
      (match bs.lookup key with
        | some b => a.same b
        | none => false) && sameFields as bs

def sameComponents : List Definition → List Definition → Bool
  | [], [] => true
  | a :: as, b :: bs => a.same b && sameComponents as bs
  | _, _ => false

/-- Every member on the left is equal to the member of its key on the right. -/
def sameMembers : List (String × ObjectDefinition) → List (String × ObjectDefinition) → Bool
  | [], _ => true
  | (key, a) :: as, bs =>
      (match bs.lookup key with
        | some b => a.same b
        | none => false) && sameMembers as bs

end

namespace Document

/-- Equality of documents. -/
def same (a b : Document) : Bool :=
  a.root == b.root && a.definitions.length == b.definitions.length &&
    sameFields a.definitions b.definitions

end Document
end Schemata
