import Mathlib.Data.List.Basic
import Schemata.Document.Basic

/-!
# Requirements on definitions

Sums, intersections and unions are where what is decoded can differ from what was there:
a sum goes by a tag that its member may leave out, the sides of an intersection may read
one key, and the members of a union may take one value.  A requirement says which of them
are allowed; a definition meets it when all that occur in it are, at any depth.

**Results.**

* `ObjectDefinition.Keeps`: the definitions of objects that leave a tag in its place.
* `Definition.Declares`: the definitions that look at declared keys only.
* `Definition.Meets.imp`: what meets one requirement meets another that follows from it.
-/

namespace Schemata

/-- A definition of objects as a definition. -/
def ObjectDefinition.definition : ObjectDefinition → Definition
  | .unknown => .primitive .object
  | .object kind fields => .object kind fields
  | .record codomain => .record codomain
  | .sum tag members => .sum tag members
  | .intersection left right => .intersection left.definition right.definition
  | .readonly inner => .readonly inner.definition

theorem ObjectDefinition.fold_definition {A : Type} [Vocabulary A] (f : String → A) :
    ∀ definition : ObjectDefinition, definition.definition.fold f = definition.fold f
  | .unknown => by simp only [definition, Definition.fold, ObjectDefinition.fold]
  | .object _ _ => by simp only [definition, Definition.fold, ObjectDefinition.fold]
  | .record _ => by simp only [definition, Definition.fold, ObjectDefinition.fold]
  | .sum _ _ => by simp only [definition, Definition.fold, ObjectDefinition.fold]
  | .intersection left right => by
      simp only [definition, Definition.fold, ObjectDefinition.fold, fold_definition f left,
        fold_definition f right]
  | .readonly inner => by
      simp only [definition, Definition.fold, ObjectDefinition.fold, fold_definition f inner]

/-! ## Tags and declared keys -/

mutual

/-- A definition of objects that keeps the value under a tag. -/
def ObjectDefinition.Keeps (tag : String) : ObjectDefinition → Prop
  | .unknown => True
  | .object _ fields => tag ∈ Entries.keys fields
  | .record _ => True
  | .sum _ members => MembersKeep tag members
  | .intersection left right => left.Keeps tag ∨ right.Keeps tag
  | .readonly inner => inner.Keeps tag

/-- Members of a sum of which each keeps the value under a tag. -/
def MembersKeep (tag : String) : List (String × ObjectDefinition) → Prop
  | [] => True
  | (_, definition) :: rest => definition.Keeps tag ∧ MembersKeep tag rest

end

/-- A definition built from objects with declared fields, `readonly` and intersections that
declare no key on both sides, with the keys that it declares. -/
inductive Definition.Declares : Definition → List String → Prop
  | object (kind : FieldKind) (fields : List (String × Definition)) :
      Declares (.object kind fields) (Entries.keys fields)
  | readonly {inner : Definition} {keys : List String} :
      Declares inner keys → Declares (.readonly inner) keys
  | intersection {left right : Definition} {keys keys' : List String} :
      Declares left keys → Declares right keys' → keys.Disjoint keys' →
      Declares (.intersection left right) (keys ++ keys')

/-! ## Requirements -/

/-- The sums, intersections and unions that are allowed in definitions. -/
structure Requirement where
  sum : String → List (String × ObjectDefinition) → Prop
  intersection : Definition → Definition → Prop
  union : NonEmpty Definition → Prop

mutual

/-- A definition in which nothing occurs but what is allowed. -/
def Definition.Meets (allowed : Requirement) : Definition → Prop
  | .literal _ => True
  | .literals _ => True
  | .literalsOr _ fallback => fallback.Meets allowed
  | .primitive _ => True
  | .object _ fields => FieldsMeet allowed fields
  | .record codomain => codomain.Meets allowed
  | .array item => item.Meets allowed
  | .tuple components => ComponentsMeet allowed components
  | .intersection left right =>
      allowed.intersection left right ∧ left.Meets allowed ∧ right.Meets allowed
  | .sum tag members => allowed.sum tag members ∧ MembersMeet allowed members
  | .union ⟨head, tail⟩ =>
      allowed.union ⟨head, tail⟩ ∧ head.Meets allowed ∧ ComponentsMeet allowed tail
  | .readonly inner => inner.Meets allowed
  | .ref _ => True

/-- A definition of objects in which nothing occurs but what is allowed. -/
def ObjectDefinition.Meets (allowed : Requirement) : ObjectDefinition → Prop
  | .unknown => True
  | .object _ fields => FieldsMeet allowed fields
  | .record codomain => codomain.Meets allowed
  | .sum tag members => allowed.sum tag members ∧ MembersMeet allowed members
  | .intersection left right =>
      allowed.intersection left.definition right.definition ∧
        left.Meets allowed ∧ right.Meets allowed
  | .readonly inner => inner.Meets allowed

def FieldsMeet (allowed : Requirement) : List (String × Definition) → Prop
  | [] => True
  | (_, definition) :: rest => definition.Meets allowed ∧ FieldsMeet allowed rest

def ComponentsMeet (allowed : Requirement) : List Definition → Prop
  | [] => True
  | definition :: rest => definition.Meets allowed ∧ ComponentsMeet allowed rest

def MembersMeet (allowed : Requirement) : List (String × ObjectDefinition) → Prop
  | [] => True
  | (_, definition) :: rest => definition.Meets allowed ∧ MembersMeet allowed rest

end

/-- A requirement that follows from another one, in definitions over some names. -/
structure Requirement.Implies (names : List String) (allowed allowed' : Requirement) : Prop where
  sum {tag : String} {members : List (String × ObjectDefinition)} :
    memberReferences members ⊆ names → MembersMeet allowed members → allowed.sum tag members →
    allowed'.sum tag members
  intersection {left right : Definition} :
    allowed.intersection left right → allowed'.intersection left right
  union {members : NonEmpty Definition} :
    (Definition.union members).references ⊆ names → allowed.union members → allowed'.union members

section Implies

variable {names : List String} {allowed allowed' : Requirement}

mutual

/-- What meets a requirement meets every requirement that follows from it. -/
theorem Definition.Meets.imp (himplies : allowed.Implies names allowed') :
    ∀ {definition : Definition}, definition.references ⊆ names →
      definition.Meets allowed → definition.Meets allowed'
  | .literal _, _, _ => by simp only [Definition.Meets]
  | .literals _, _, _ => by simp only [Definition.Meets]
  | .literalsOr _ fallback, hnames, h => by
      simp only [Definition.references] at hnames
      simp only [Definition.Meets] at h ⊢
      exact Definition.Meets.imp himplies hnames h
  | .primitive _, _, _ => by simp only [Definition.Meets]
  | .object _ fields, hnames, h => by
      simp only [Definition.references] at hnames
      simp only [Definition.Meets] at h ⊢
      exact FieldsMeet.imp himplies hnames h
  | .record codomain, hnames, h => by
      simp only [Definition.references] at hnames
      simp only [Definition.Meets] at h ⊢
      exact Definition.Meets.imp himplies hnames h
  | .array item, hnames, h => by
      simp only [Definition.references] at hnames
      simp only [Definition.Meets] at h ⊢
      exact Definition.Meets.imp himplies hnames h
  | .tuple components, hnames, h => by
      simp only [Definition.references] at hnames
      simp only [Definition.Meets] at h ⊢
      exact ComponentsMeet.imp himplies hnames h
  | .intersection left right, hnames, h => by
      simp only [Definition.references, List.append_subset] at hnames
      simp only [Definition.Meets] at h ⊢
      exact ⟨himplies.intersection h.1, Definition.Meets.imp himplies hnames.1 h.2.1,
        Definition.Meets.imp himplies hnames.2 h.2.2⟩
  | .sum tag members, hnames, h => by
      simp only [Definition.references] at hnames
      simp only [Definition.Meets] at h ⊢
      exact ⟨himplies.sum hnames h.2 h.1, MembersMeet.imp himplies hnames h.2⟩
  | .union ⟨head, tail⟩, hnames, h => by
      simp only [Definition.Meets] at h ⊢
      have hunion := himplies.union hnames h.1
      simp only [Definition.references, List.append_subset] at hnames
      exact ⟨hunion, Definition.Meets.imp himplies hnames.1 h.2.1,
        ComponentsMeet.imp himplies hnames.2 h.2.2⟩
  | .readonly inner, hnames, h => by
      simp only [Definition.references] at hnames
      simp only [Definition.Meets] at h ⊢
      exact Definition.Meets.imp himplies hnames h
  | .ref _, _, _ => by simp only [Definition.Meets]

theorem ObjectDefinition.Meets.imp (himplies : allowed.Implies names allowed') :
    ∀ {definition : ObjectDefinition},
    definition.references ⊆ names → definition.Meets allowed → definition.Meets allowed'
  | .unknown, _, _ => by simp only [ObjectDefinition.Meets]
  | .object _ fields, hnames, h => by
      simp only [ObjectDefinition.references] at hnames
      simp only [ObjectDefinition.Meets] at h ⊢
      exact FieldsMeet.imp himplies hnames h
  | .record codomain, hnames, h => by
      simp only [ObjectDefinition.references] at hnames
      simp only [ObjectDefinition.Meets] at h ⊢
      exact Definition.Meets.imp himplies hnames h
  | .sum tag members, hnames, h => by
      simp only [ObjectDefinition.references] at hnames
      simp only [ObjectDefinition.Meets] at h ⊢
      exact ⟨himplies.sum hnames h.2 h.1, MembersMeet.imp himplies hnames h.2⟩
  | .intersection left right, hnames, h => by
      simp only [ObjectDefinition.references, List.append_subset] at hnames
      simp only [ObjectDefinition.Meets] at h ⊢
      exact ⟨himplies.intersection h.1, ObjectDefinition.Meets.imp himplies hnames.1 h.2.1,
        ObjectDefinition.Meets.imp himplies hnames.2 h.2.2⟩
  | .readonly inner, hnames, h => by
      simp only [ObjectDefinition.references] at hnames
      simp only [ObjectDefinition.Meets] at h ⊢
      exact ObjectDefinition.Meets.imp himplies hnames h

theorem FieldsMeet.imp (himplies : allowed.Implies names allowed') :
    ∀ {fields : List (String × Definition)},
    fieldReferences fields ⊆ names → FieldsMeet allowed fields → FieldsMeet allowed' fields
  | [], _, _ => by simp only [FieldsMeet]
  | (_, definition) :: rest, hnames, h => by
      simp only [fieldReferences, List.append_subset] at hnames
      simp only [FieldsMeet] at h ⊢
      exact ⟨Definition.Meets.imp himplies hnames.1 h.1, FieldsMeet.imp himplies hnames.2 h.2⟩

theorem ComponentsMeet.imp (himplies : allowed.Implies names allowed') :
    ∀ {components : List Definition},
    componentReferences components ⊆ names → ComponentsMeet allowed components →
    ComponentsMeet allowed' components
  | [], _, _ => by simp only [ComponentsMeet]
  | definition :: rest, hnames, h => by
      simp only [componentReferences, List.append_subset] at hnames
      simp only [ComponentsMeet] at h ⊢
      exact ⟨Definition.Meets.imp himplies hnames.1 h.1, ComponentsMeet.imp himplies hnames.2 h.2⟩

theorem MembersMeet.imp (himplies : allowed.Implies names allowed') :
    ∀ {members : List (String × ObjectDefinition)},
    memberReferences members ⊆ names → MembersMeet allowed members → MembersMeet allowed' members
  | [], _, _ => by simp only [MembersMeet]
  | (_, definition) :: rest, hnames, h => by
      simp only [memberReferences, List.append_subset] at hnames
      simp only [MembersMeet] at h ⊢
      exact ⟨ObjectDefinition.Meets.imp himplies hnames.1 h.1,
        MembersMeet.imp himplies hnames.2 h.2⟩

end

end Implies

/-- A document of whose definitions each meets a requirement. -/
def Document.Meets (document : Document) (allowed : Requirement) : Prop :=
  ∀ name definition, document.find? name = some definition → definition.Meets allowed

end Schemata
