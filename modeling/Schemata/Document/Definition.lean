import Schemata.Vocabulary

/-!
# Definitions

A schema as data.  The members of a sum must be objects, so they have a type of
their own, with the definitions that can only describe objects.

**Results.**  `Definition.references` lists the names that a definition refers
to, those of its parts among them, `Definition.fold` reads it in any vocabulary.
-/

namespace Schemata

mutual

/-- A schema as data. -/
inductive Definition where
  | literal (value : Literal)
  | literals (values : NonEmpty Literal)
  | literalsOr (values : NonEmpty Literal) (fallback : Definition)
  | primitive (kind : Primitive)
  | object (kind : FieldKind) (fields : List (String × Definition))
  | record (codomain : Definition)
  | array (item : Definition)
  | tuple (components : List Definition)
  | intersection (left right : Definition)
  | sum (tag : String) (members : List (String × ObjectDefinition))
  | union (members : NonEmpty Definition)
  | readonly (inner : Definition)
  /-- A definition of the same document. -/
  | ref (name : String)

/-- A schema of objects as data. -/
inductive ObjectDefinition where
  /-- Any object. -/
  | unknown
  | object (kind : FieldKind) (fields : List (String × Definition))
  | record (codomain : Definition)
  | sum (tag : String) (members : List (String × ObjectDefinition))
  | intersection (left right : ObjectDefinition)
  | readonly (inner : ObjectDefinition)

end

instance : Inhabited Definition := ⟨.primitive .object⟩

mutual

/-- The names that a definition refers to, from left to right. -/
def Definition.references : Definition → List String
  | .literal _ => []
  | .literals _ => []
  | .literalsOr _ fallback => fallback.references
  | .primitive _ => []
  | .object _ fields => fieldReferences fields
  | .record codomain => codomain.references
  | .array item => item.references
  | .tuple components => componentReferences components
  | .intersection left right => left.references ++ right.references
  | .sum _ members => memberReferences members
  | .union ⟨head, tail⟩ => head.references ++ componentReferences tail
  | .readonly inner => inner.references
  | .ref name => [name]

/-- The names that a definition of objects refers to. -/
def ObjectDefinition.references : ObjectDefinition → List String
  | .unknown => []
  | .object _ fields => fieldReferences fields
  | .record codomain => codomain.references
  | .sum _ members => memberReferences members
  | .intersection left right => left.references ++ right.references
  | .readonly inner => inner.references

def fieldReferences : List (String × Definition) → List String
  | [] => []
  | (_, definition) :: rest => definition.references ++ fieldReferences rest

def componentReferences : List Definition → List String
  | [] => []
  | definition :: rest => definition.references ++ componentReferences rest

def memberReferences : List (String × ObjectDefinition) → List String
  | [] => []
  | (_, definition) :: rest => definition.references ++ memberReferences rest

end

theorem references_subset_of_field {field : String × Definition} :
    ∀ {fields : List (String × Definition)}, field ∈ fields →
      field.2.references ⊆ fieldReferences fields
  | (_, definition) :: rest, h => by
      rw [fieldReferences]
      rcases List.mem_cons.1 h with rfl | h
      · exact List.subset_append_left _ _
      · exact fun _ hname => List.mem_append_right _ (references_subset_of_field h hname)

theorem references_subset_of_component {component : Definition} :
    ∀ {components : List Definition}, component ∈ components →
      component.references ⊆ componentReferences components
  | definition :: rest, h => by
      rw [componentReferences]
      rcases List.mem_cons.1 h with rfl | h
      · exact List.subset_append_left _ _
      · exact fun _ hname => List.mem_append_right _ (references_subset_of_component h hname)

theorem references_subset_of_union {members : NonEmpty Definition} {member : Definition}
    (h : member ∈ members.toList) : member.references ⊆ (Definition.union members).references := by
  obtain ⟨head, tail⟩ := members
  rw [Definition.references]
  rcases List.mem_cons.1 h with rfl | h
  · exact List.subset_append_left _ _
  · exact fun _ hname => List.mem_append_right _ (references_subset_of_component h hname)

section Fold

variable {A : Type} [Vocabulary A] (ref : String → A)

mutual

/-- The reading of a definition, given the meaning of names.  Fields are written one
after the other, so of two with one key the later counts. -/
def Definition.fold : Definition → A
  | .literal value => Vocabulary.literal value
  | .literals values => Vocabulary.literals values
  | .literalsOr values fallback => Vocabulary.literalsOr values fallback.fold
  | .primitive kind => Vocabulary.primitive kind
  | .object kind fields => Vocabulary.object kind (.ofList (foldFields fields))
  | .record codomain => Vocabulary.record codomain.fold
  | .array item => Vocabulary.array item.fold
  | .tuple components => Vocabulary.tuple (foldComponents components)
  | .intersection left right => Vocabulary.intersection left.fold right.fold
  | .sum tag members => Vocabulary.sum tag (.ofList (foldMembers members))
  | .union ⟨head, tail⟩ => Vocabulary.union ⟨head.fold, foldComponents tail⟩
  | .readonly inner => Vocabulary.readonly inner.fold
  | .ref name => ref name

/-- The reading of a definition of objects. -/
def ObjectDefinition.fold : ObjectDefinition → A
  | .unknown => Vocabulary.primitive .object
  | .object kind fields => Vocabulary.object kind (.ofList (foldFields fields))
  | .record codomain => Vocabulary.record codomain.fold
  | .sum tag members => Vocabulary.sum tag (.ofList (foldMembers members))
  | .intersection left right => Vocabulary.intersection left.fold right.fold
  | .readonly inner => Vocabulary.readonly inner.fold

def foldFields : List (String × Definition) → Entries A
  | [] => []
  | (key, definition) :: rest => (key, definition.fold) :: foldFields rest

def foldComponents : List Definition → List A
  | [] => []
  | definition :: rest => definition.fold :: foldComponents rest

def foldMembers : List (String × ObjectDefinition) → Entries A
  | [] => []
  | (key, definition) :: rest => (key, definition.fold) :: foldMembers rest

end

end Fold
end Schemata
