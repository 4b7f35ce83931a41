import Mathlib.Data.List.Basic
import Schemata.Document.Basic

/-!
# Where definitions mention names

The parts of a definition are the definitions inside of it, from left to right; those of the
members of a sum are among them.  A name is mentioned where a part, or a part of a part, is a
reference to it: the place is the path of positions that leads there, and places are in the order
of their paths.

**Input.**  Any definition, however deep, and any set of definitions.

**Results.**

* `Part.mem_references`: the references of a part are the names that it mentions.
* `Part.find?_references`: the first of them of which something holds is at the first such place.
* `Entries.mem_references`, `Entries.find?_references`: the same for a set of definitions.
* `Document.exists_ofDefinitions`, `Document.ofDefinitions_error`: which definitions make a
  document, and what is wrong with those that make none.
-/

namespace Schemata

/-- A part of a definition: a definition, or one of objects. -/
inductive Part where
  | plain (definition : Definition)
  | object (definition : ObjectDefinition)

namespace Part

/-- The parts that are right inside of a part, from left to right. -/
def parts : Part → List Part
  | .plain (.literal _) => []
  | .plain (.literals _) => []
  | .plain (.literalsOr _ fallback) => [.plain fallback]
  | .plain (.primitive _) => []
  | .plain (.object _ fields) => fields.map fun field => .plain field.2
  | .plain (.record codomain) => [.plain codomain]
  | .plain (.array item) => [.plain item]
  | .plain (.tuple components) => components.map .plain
  | .plain (.intersection left right) => [.plain left, .plain right]
  | .plain (.sum _ members) => members.map fun member => .object member.2
  | .plain (.union members) => members.toList.map .plain
  | .plain (.readonly inner) => [.plain inner]
  | .plain (.ref _) => []
  | .object .unknown => []
  | .object (.object _ fields) => fields.map fun field => .plain field.2
  | .object (.record codomain) => [.plain codomain]
  | .object (.sum _ members) => members.map fun member => .object member.2
  | .object (.intersection left right) => [.object left, .object right]
  | .object (.readonly inner) => [.object inner]

/-- A part mentions a name at the end of a path. -/
inductive Mentions : Part → List Nat → String → Prop
  | here (name : String) : Mentions (.plain (.ref name)) [] name
  | inside {part inner : Part} {index : Nat} {path : List Nat} {name : String} :
      part.parts[index]? = some inner → Mentions inner path name →
      Mentions part (index :: path) name

/-- The names that a part refers to. -/
def references : Part → List String
  | .plain definition => definition.references
  | .object definition => definition.references

/-! ## Parts and references -/

theorem fieldReferences_eq : ∀ fields : List (String × Definition),
    fieldReferences fields = (fields.map fun field => Part.plain field.2).flatMap references
  | [] => by simp [fieldReferences]
  | field :: rest => by simp [fieldReferences, references, fieldReferences_eq rest]

theorem componentReferences_eq : ∀ components : List Definition,
    componentReferences components = (components.map Part.plain).flatMap references
  | [] => by simp [componentReferences]
  | component :: rest => by simp [componentReferences, references, componentReferences_eq rest]

theorem memberReferences_eq : ∀ members : List (String × ObjectDefinition),
    memberReferences members = (members.map fun member => Part.object member.2).flatMap references
  | [] => by simp [memberReferences]
  | member :: rest => by simp [memberReferences, references, memberReferences_eq rest]

/-- A part that is no reference refers to what its parts refer to. -/
theorem references_eq {part : Part} (h : ∀ name, part ≠ .plain (.ref name)) :
    part.references = part.parts.flatMap references := by
  cases part with
  | plain definition =>
      cases definition with
      | ref name => exact absurd rfl (h name)
      | literal | literals | literalsOr | primitive | record | array | intersection | readonly =>
          simp [references, parts, Definition.references]
      | object kind fields =>
          rw [references, Definition.references, parts, fieldReferences_eq]
      | tuple components =>
          rw [references, Definition.references, parts, componentReferences_eq]
      | sum tag members =>
          rw [references, Definition.references, parts, memberReferences_eq]
      | union members =>
          rw [references, Definition.references, parts, componentReferences_eq]
          rfl
  | object definition =>
      cases definition with
      | unknown | record | intersection | readonly =>
          simp [references, parts, ObjectDefinition.references]
      | object kind fields =>
          rw [references, ObjectDefinition.references, parts, fieldReferences_eq]
      | sum tag members =>
          rw [references, ObjectDefinition.references, parts, memberReferences_eq]

theorem sizeOf_lt_of_mem {part inner : Part} (h : inner ∈ part.parts) :
    sizeOf inner < sizeOf part := by
  have hfield {fields : List (String × Definition)}
      (h : inner ∈ fields.map fun field => Part.plain field.2) :
      sizeOf inner < 1 + sizeOf fields := by
    obtain ⟨⟨key, definition⟩, hmem, rfl⟩ := List.mem_map.1 h
    have := List.sizeOf_lt_of_mem hmem
    simp at this ⊢
    omega
  have hcomponent {components : List Definition} (h : inner ∈ components.map Part.plain) :
      sizeOf inner < 1 + sizeOf components := by
    obtain ⟨definition, hmem, rfl⟩ := List.mem_map.1 h
    have := List.sizeOf_lt_of_mem hmem
    simp
    omega
  have hmember {members : List (String × ObjectDefinition)}
      (h : inner ∈ members.map fun member => Part.object member.2) :
      sizeOf inner < 1 + sizeOf members := by
    obtain ⟨⟨key, definition⟩, hmem, rfl⟩ := List.mem_map.1 h
    have := List.sizeOf_lt_of_mem hmem
    simp at this ⊢
    omega
  cases part with
  | plain definition =>
      cases definition with
      | literal | literals | primitive | ref => simp [parts] at h
      | literalsOr values fallback =>
          obtain rfl := List.mem_singleton.1 h
          simp only [plain.sizeOf_spec, Definition.literalsOr.sizeOf_spec]
          omega
      | record | array | readonly =>
          obtain rfl := List.mem_singleton.1 h
          simp
      | object kind fields =>
          have := hfield h
          simp
          omega
      | tuple components =>
          have := hcomponent h
          simp
          omega
      | sum tag members =>
          have := hmember h
          simp
          omega
      | union members =>
          have := hcomponent h
          obtain ⟨head, tail⟩ := members
          simp [NonEmpty.toList] at this ⊢
          omega
      | intersection left right =>
          rcases List.mem_pair.1 h with rfl | rfl <;>
            simp only [plain.sizeOf_spec, Definition.intersection.sizeOf_spec] <;> omega
  | object definition =>
      cases definition with
      | unknown => simp [parts] at h
      | record | readonly =>
          obtain rfl := List.mem_singleton.1 h
          simp
      | object kind fields =>
          have := hfield h
          simp
          omega
      | sum tag members =>
          have := hmember h
          simp
          omega
      | intersection left right =>
          rcases List.mem_pair.1 h with rfl | rfl <;>
            simp only [object.sizeOf_spec, ObjectDefinition.intersection.sizeOf_spec] <;> omega

/-- What references have, and parts have when all parts inside of them do, all parts have. -/
theorem induction {p : Part → Prop} (ref : ∀ name, p (.plain (.ref name)))
    (compound : ∀ part : Part, (∀ name, part ≠ .plain (.ref name)) →
      (∀ inner ∈ part.parts, p inner) → p part) : ∀ part, p part
  | part => by
      by_cases h : ∃ name, part = .plain (.ref name)
      · obtain ⟨name, rfl⟩ := h
        exact ref name
      · exact compound part (not_exists.1 h) fun inner hinner =>
          have := sizeOf_lt_of_mem hinner
          induction ref compound inner
  termination_by part => sizeOf part

/-! ## Places -/

/-- One of some parts mentions a name at the end of a path. -/
def MentionedIn (parts : List Part) (place : List Nat) (name : String) : Prop :=
  ∃ index path inner, place = index :: path ∧ parts[index]? = some inner ∧ inner.Mentions path name

/-- A reference mentions its name, and nothing else. -/
theorem mentions_ref {target name : String} {path : List Nat} :
    (Part.plain (.ref target)).Mentions path name ↔ path = [] ∧ name = target := by
  constructor
  · rintro (_ | ⟨hinner, _⟩)
    · exact ⟨rfl, rfl⟩
    · simp [parts] at hinner
  · rintro ⟨rfl, rfl⟩
    exact .here _

/-- Other parts mention what their parts mention. -/
theorem mentions_iff {part : Part} (h : ∀ name, part ≠ .plain (.ref name)) {path : List Nat}
    {name : String} : part.Mentions path name ↔ MentionedIn part.parts path name := by
  constructor
  · rintro (_ | ⟨hinner, hmentions⟩)
    · exact absurd rfl (h name)
    · exact ⟨_, _, _, rfl, hinner, hmentions⟩
  · rintro ⟨index, path, inner, rfl, hinner, hmentions⟩
    exact .inside hinner hmentions

/-- The references of some parts are the names that these mention, when they are for each. -/
theorem mem_flatMap_references {parts : List Part} {name : String}
    (h : ∀ inner ∈ parts, name ∈ inner.references ↔ ∃ path, inner.Mentions path name) :
    name ∈ parts.flatMap references ↔ ∃ place, MentionedIn parts place name := by
  rw [List.mem_flatMap]
  constructor
  · rintro ⟨inner, hinner, hname⟩
    obtain ⟨path, hpath⟩ := (h inner hinner).1 hname
    obtain ⟨index, hindex⟩ := List.mem_iff_getElem?.1 hinner
    exact ⟨_, index, path, inner, rfl, hindex, hpath⟩
  · rintro ⟨_, index, path, inner, rfl, hindex, hpath⟩
    have hinner := List.mem_of_getElem? hindex
    exact ⟨inner, hinner, (h inner hinner).2 ⟨path, hpath⟩⟩

/-- **The references of a part are the names that it mentions.** -/
theorem mem_references {name : String} :
    ∀ part : Part, name ∈ part.references ↔ ∃ path, part.Mentions path name := by
  refine induction (fun target => ?_) fun part hpart ih => ?_
  · simp [references, Definition.references, mentions_ref]
  · rw [references_eq hpart, mem_flatMap_references ih]
    simp only [mentions_iff hpart]

/-- A name of which something holds is at a place, and at no earlier place is such a name. -/
def First (mentions : List Nat → String → Prop) (p : String → Bool) (name : String) : Prop :=
  ∃ place, mentions place name ∧ p name = true ∧
    ∀ earlier other, earlier < place → mentions earlier other → p other = false

/-- The first reference of some parts is at the first place, when it is for each. -/
theorem find?_flatMap_references {parts : List Part} {p : String → Bool} {name : String}
    (h : ∀ inner ∈ parts, inner.references.find? p = some name ↔ First inner.Mentions p name) :
    (parts.flatMap references).find? p = some name ↔ First (MentionedIn parts) p name := by
  have hnone {inner : Part} :
      inner.references.find? p = none ↔
        ∀ path other, inner.Mentions path other → p other = false := by
    simp only [List.find?_eq_none, mem_references, Bool.not_eq_true]
    exact ⟨fun h path other hpath => h other ⟨path, hpath⟩,
      fun h other ⟨path, hpath⟩ => h path other hpath⟩
  rw [List.find?_flatMap, List.findSome?_eq_some_iff]
  constructor
  · rintro ⟨before, inner, after, rfl, hfind, hbefore⟩
    obtain ⟨path, hpath, hp, hfirst⟩ := (h inner (by simp)).1 hfind
    refine ⟨before.length :: path, ⟨_, path, inner, rfl, by simp, hpath⟩, hp, ?_⟩
    rintro _ other hlt ⟨index, earlier, part, rfl, hindex, hmentions⟩
    rcases List.cons_lt_cons_iff.1 hlt with hbelow | ⟨rfl, hbelow⟩
    · rw [List.getElem?_append_left hbelow] at hindex
      exact hnone.1 (hbefore part (List.mem_of_getElem? hindex)) earlier other hmentions
    · obtain rfl : inner = part := by simpa using hindex
      exact hfirst earlier other hbelow hmentions
  · rintro ⟨_, ⟨index, path, inner, rfl, hindex, hpath⟩, hp, hfirst⟩
    obtain ⟨hlt, hget⟩ := List.getElem?_eq_some_iff.1 hindex
    refine ⟨parts.take index, inner, parts.drop (index + 1), ?_, ?_, fun part hpart => ?_⟩
    · rw [← hget, List.getElem_cons_drop, List.take_append_drop]
    · refine (h inner (List.mem_of_getElem? hindex)).2 ⟨path, hpath, hp, ?_⟩
      intro earlier other hlt hmentions
      exact hfirst (index :: earlier) other (List.cons_lt_cons_iff.2 (.inr ⟨rfl, hlt⟩))
        ⟨index, earlier, inner, rfl, hindex, hmentions⟩
    · obtain ⟨i, hi⟩ := List.mem_iff_getElem?.1 hpart
      rw [List.getElem?_take] at hi
      split at hi
      · next hbelow =>
        exact hnone.2 fun earlier other hmentions =>
          hfirst (i :: earlier) other (List.cons_lt_cons_iff.2 (.inl hbelow))
            ⟨i, earlier, part, rfl, hi, hmentions⟩
      · cases hi

/-- **The first reference of a part of which something holds is at the first such place.** -/
theorem find?_references {p : String → Bool} {name : String} :
    ∀ part : Part, part.references.find? p = some name ↔ First part.Mentions p name := by
  refine induction (fun target => ?_) fun part hpart ih => ?_
  · rw [references, Definition.references, First]
    simp only [mentions_ref]
    constructor
    · intro hfind
      obtain rfl : target = name := List.mem_singleton.1 (List.mem_of_find?_eq_some hfind) |>.symm
      exact ⟨[], ⟨rfl, rfl⟩, List.find?_some hfind, fun _ _ hlt => nomatch hlt⟩
    · rintro ⟨_, ⟨rfl, rfl⟩, hp, _⟩
      simp [hp]
  · rw [references_eq hpart, find?_flatMap_references ih]
    have : part.Mentions = MentionedIn part.parts := by
      funext path other
      exact propext (mentions_iff hpart)
    rw [this]

end Part

/-! ## Sets of definitions -/

namespace Entries

/-- The definitions of a set, in their order. -/
def parts (definitions : Entries Definition) : List Part :=
  definitions.map fun entry => .plain entry.2

/-- A set of definitions mentions a name at a place: the position of a definition, and the path to
the reference in it. -/
def Mentions (definitions : Entries Definition) : List Nat → String → Prop :=
  Part.MentionedIn definitions.parts

theorem references_eq (definitions : Entries Definition) :
    definitions.references = definitions.parts.flatMap Part.references := by
  rw [references, parts, List.flatMap_map]
  rfl

/-- **The references of a set of definitions are the names that it mentions.** -/
theorem mem_references {definitions : Entries Definition} {name : String} :
    name ∈ definitions.references ↔ ∃ place, definitions.Mentions place name := by
  rw [references_eq]
  exact Part.mem_flatMap_references fun inner _ => Part.mem_references inner

/-- **The first reference of which something holds is at the first such place.** -/
theorem find?_references {definitions : Entries Definition} {p : String → Bool} {name : String} :
    definitions.references.find? p = some name ↔ Part.First definitions.Mentions p name := by
  rw [references_eq]
  exact Part.find?_flatMap_references fun inner _ => Part.find?_references inner

end Entries

/-! ## Making documents -/

namespace Document

variable {root : String} {definitions : Entries Definition}

/-- A document of definitions with a root is that of them, and has all names that they mention. -/
theorem ofDefinitions_ok {document : Document} :
    ofDefinitions root definitions = .ok document ↔
      document.root = root ∧ document.definitions = definitions := by
  unfold ofDefinitions
  constructor
  · intro h
    split at h
    · split at h
      · cases h
      · cases h
        exact ⟨rfl, rfl⟩
    · cases h
  · rintro ⟨rfl, rfl⟩
    rw [dif_pos document.root_mem]
    split
    · next name h =>
      have hname := document.references_mem name (List.mem_of_find?_eq_some h)
      exact absurd hname (by simpa using List.find?_some h)
    · rfl

/-- **Definitions with a root make a document when the root and all names that they mention are
defined.** -/
theorem exists_ofDefinitions :
    (∃ document, ofDefinitions root definitions = .ok document) ↔
      root ∈ definitions.keys ∧
        ∀ place name, definitions.Mentions place name → name ∈ definitions.keys := by
  simp only [ofDefinitions_ok]
  constructor
  · rintro ⟨document, rfl, rfl⟩
    exact ⟨document.root_mem, fun place name h =>
      document.references_mem name (Entries.mem_references.2 ⟨place, h⟩)⟩
  · rintro ⟨hroot, hmentions⟩
    refine ⟨⟨root, definitions, hroot, fun name hname => ?_⟩, rfl, rfl⟩
    obtain ⟨place, h⟩ := Entries.mem_references.1 hname
    exact hmentions place name h

/-- **They make none for the root when it is not defined.** -/
theorem ofDefinitions_unknownRoot {name : String} :
    ofDefinitions root definitions = .error (.unknownRoot name) ↔
      name = root ∧ root ∉ definitions.keys := by
  unfold ofDefinitions
  split
  · next hroot => split <;> simp [hroot]
  · next hroot =>
    simp only [Except.error.injEq, SchemaError.unknownRoot.injEq]
    exact ⟨fun h => ⟨h.symm, hroot⟩, fun h => h.1.symm⟩

/-- **They make none for a name when the root is defined, and the name is at the first place with a
name that is not.** -/
theorem ofDefinitions_unknownReference {name : String} :
    ofDefinitions root definitions = .error (.unknownReference name) ↔
      root ∈ definitions.keys ∧ ∃ place, definitions.Mentions place name ∧
        name ∉ definitions.keys ∧ ∀ earlier other, earlier < place →
          definitions.Mentions earlier other → other ∈ definitions.keys := by
  have hfirst : definitions.references.find? (fun name => decide (name ∉ definitions.keys)) =
      some name ↔ ∃ place, definitions.Mentions place name ∧ name ∉ definitions.keys ∧
        ∀ earlier other, earlier < place → definitions.Mentions earlier other →
          other ∈ definitions.keys := by
    rw [Entries.find?_references]
    simp only [Part.First, decide_eq_true_eq, decide_eq_false_iff_not, Decidable.not_not]
  rw [← hfirst]
  unfold ofDefinitions
  split
  · next hroot =>
    split
    · next other h =>
      rw [h]
      simp [hroot]
    · next h =>
      constructor
      · intro heq
        cases heq
      · rintro ⟨_, hfind⟩
        cases h.symm.trans hfind
  · next hroot => simp [hroot]

/-- **What is wrong with definitions that make no document.** -/
theorem ofDefinitions_error {error : SchemaError} :
    ofDefinitions root definitions = .error error ↔
      (root ∉ definitions.keys ∧ error = .unknownRoot root) ∨
      (root ∈ definitions.keys ∧ ∃ place name, error = .unknownReference name ∧
        definitions.Mentions place name ∧ name ∉ definitions.keys ∧
          ∀ earlier other, earlier < place → definitions.Mentions earlier other →
            other ∈ definitions.keys) := by
  cases error with
  | unknownRoot name =>
      rw [ofDefinitions_unknownRoot]
      simp [and_comm]
  | unknownReference name =>
      rw [ofDefinitions_unknownReference]
      simp
  | empty what =>
      unfold ofDefinitions
      split
      · split <;> simp
      · simp

end Document

end Schemata
