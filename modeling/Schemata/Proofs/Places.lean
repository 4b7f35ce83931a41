import Mathlib.Logic.Relation
import Schemata.Node.Basic

/-!
# Places in generated source

A place in a tree is a part of it, at any depth, with the trees around that part.  So the
functions in whose bodies a part stands are read off its place.

**Results.**

* `Place.leads_iff`: the places below a place are the place itself and those below the parts of
  its tree.
* `size_lt_of_mem_parts`: parts are smaller, so what holds of trees with their parts is shown by
  going down.
-/

namespace Schemata
namespace Node

/-- The trees that stand directly in a tree, from left to right. -/
def parts : Node → List Node
  | .literal _ => []
  | .ident _ => []
  | .member target _ => [target]
  | .call callee args => callee :: args
  | .object fields => fields.map Prod.snd
  | .array items => items
  | .function _ body => [body]

/-- The name of a function. -/
def functionName? : Node → Option String
  | .function name _ => some name
  | _ => none

/-- The names that are bound in the parts of a tree, where those of a list are bound in it. -/
def scopeIn (scope : List String) : Node → List String
  | .function name _ => name :: scope
  | _ => scope

theorem size_le_sizes {part : Node} : ∀ {nodes : List Node}, part ∈ nodes → part.size ≤ sizes nodes
  | node :: rest, h => by
      rw [sizes]
      rcases List.mem_cons.1 h with rfl | h
      · omega
      · have := size_le_sizes h
        omega

theorem sizes_map_snd : ∀ fields : List (String × Node),
    sizes (fields.map Prod.snd) = fieldSizes fields
  | [] => rfl
  | (_, node) :: rest => by
      rw [List.map_cons, sizes, fieldSizes, sizes_map_snd rest]

/-- A part is smaller than the tree in which it stands. -/
theorem size_lt_of_mem_parts {node part : Node} (h : part ∈ node.parts) :
    part.size < node.size := by
  cases node with
  | literal value => cases h
  | ident name => cases h
  | member target property =>
      obtain rfl := List.mem_singleton.1 h
      rw [size]
      omega
  | call callee args =>
      rw [size]
      rcases List.mem_cons.1 h with rfl | h
      · omega
      · have := size_le_sizes h
        omega
  | object fields =>
      have hle : part.size ≤ sizes (fields.map Prod.snd) := size_le_sizes h
      rw [sizes_map_snd] at hle
      rw [size]
      omega
  | array items =>
      have hle : part.size ≤ sizes items := size_le_sizes h
      rw [size]
      omega
  | function name body =>
      obtain rfl := List.mem_singleton.1 h
      rw [size]
      omega

/-- A part of a tree, and the trees around it from the inside out. -/
structure Place where
  node : Node
  above : List Node

namespace Place

/-- The place of a tree as a whole. -/
def top (node : Node) : Place := ⟨node, []⟩

/-- The place of a part of the tree at a place. -/
def part (place : Place) (node : Node) : Place := ⟨node, place.node :: place.above⟩

/-- The names of the functions in whose bodies a place is, innermost first. -/
def scope (place : Place) : List String := place.above.filterMap functionName?

/-- One place is that of a part of the tree at the other. -/
inductive Enters : Place → Place → Prop
  | part {place : Place} {node : Node} : node ∈ place.node.parts → Enters place (place.part node)

/-- One place is the other or below it. -/
def Leads : Place → Place → Prop := Relation.ReflTransGen Enters

theorem scope_part (place : Place) (node : Node) :
    (place.part node).scope = place.node.scopeIn place.scope := by
  obtain ⟨tree, above⟩ := place
  cases tree <;> rfl

/-- What is below a place is the place itself or is below a part of its tree. -/
theorem leads_iff {place other : Place} :
    place.Leads other ↔
      other = place ∨ ∃ node ∈ place.node.parts, (place.part node).Leads other := by
  constructor
  · intro h
    rcases Relation.ReflTransGen.cases_head h with rfl | ⟨_, ⟨hnode⟩, hrest⟩
    · exact .inl rfl
    · exact .inr ⟨_, hnode, hrest⟩
  · rintro (rfl | ⟨node, hnode, hrest⟩)
    · exact .refl
    · exact .head (.part hnode) hrest

end Place

end Node
end Schemata
