import Schemata.Node.Check
import Schemata.Node.Json
import Schemata.Node.Printer
import Schemata.Proofs.Serialization

/-!
# Trees survive being written and read

**Input.**  A tree of any nesting whose numbers are finite, and room for its value.

**Algorithm.**  A tree is written as an object of one member, so it is read as the contents of a
kind (`read_tagged`).  A kind of several parts takes them by name; the other kinds take a literal,
a text or a sequence.  A field of an object expression is a pair, which is read in its order.

**Results.**

* `readContents_literal` to `readContents_function`: what is read from the contents of each kind.
* `read_toValue`, `readAll_toValues`, `readPairs_toPairs`: the three readers undo the three
  writers.
* `tree_read_written`: a tree is read back from its value, and answers as it did.
-/

namespace Schemata
namespace Node

open Json (Value Source)

/-! ## Trees that can be written -/

mutual
/-- Numbers in a tree are finite. -/
def Finite : Node → Prop
  | .literal value => value.Finite
  | .ident _ => True
  | .member target _ => target.Finite
  | .call callee args => callee.Finite ∧ FiniteAll args
  | .object fields => FiniteFields fields
  | .array items => FiniteAll items
  | .function _ body => body.Finite

def FiniteAll : List Node → Prop
  | [] => True
  | node :: rest => node.Finite ∧ FiniteAll rest

def FiniteFields : List (String × Node) → Prop
  | [] => True
  | (_, node) :: rest => node.Finite ∧ FiniteFields rest
end

/-! ## Contents of a kind -/

section Kinds

variable {room : Nat} {kind : String} {node : Node}

/-- A tree is read as the contents of its kind. -/
theorem read_tagged {contents : Value}
    (h : readContents room kind (Source.ofValue contents) = .ok node) :
    read (room + 1) (Source.ofValue (tagged kind contents)) = .ok node := by
  rw [tagged, Source.ofValue, Source.ofMembers, Source.ofMembers, read, inside, pure_bind,
    readTagged]
  simp only [Shape.key, pure_bind, h, Shape.ok_bind]
  rfl

theorem depth_tagged (contents : Value) : (tagged kind contents).depth = contents.depth + 1 := by
  simp [tagged, Value.depth, Value.membersDepth]

theorem readContents_literal {value : Literal} (h : value.Finite) :
    readContents room "literal" (Source.ofValue value.toValue) = .ok (.literal value) := by
  cases value with
  | number value =>
      have hfinite : value.isFinite = true := h
      rw [Literal.toValue, if_pos hfinite]
      rfl
  | null => rfl
  | bool value => rfl
  | string text => rfl

theorem readContents_array {items : List Value} {nodes : List Node}
    (h : readAll room true (Source.ofItems items) = .ok nodes) :
    readContents (room + 1) "array" (Source.ofValue (.array items)) = .ok (.array nodes) := by
  show (do pure (Node.array (← readAll room true (Source.ofItems items)))) = _
  rw [h]
  rfl

theorem readContents_object {items : List Value} {fields : List (String × Node)}
    (h : readPairs room true (Source.ofItems items) = .ok fields) :
    readContents (room + 1) "object" (Source.ofValue (.array items)) = .ok (.object fields) := by
  show (do pure (Node.object (← readPairs room true (Source.ofItems items)))) = _
  rw [h]
  rfl

/-- A tree of several parts is made of what is read by name. -/
theorem readContents_compound (compound : Compound) (hkind : compound? kind = some compound)
    (parts : Parts) {members : List (String × Value)}
    (hparts : readByName room compound.parts {} true (Source.ofMembers members) = .ok parts) :
    readContents (room + 1) kind (Source.ofValue (.object members)) = assemble kind parts := by
  rw [Source.ofValue, readContents, hkind]
  simp only [inside, pure_bind, hparts, Shape.ok_bind]

theorem readContents_member {value : Value} {target : Node} (property : String)
    (h : read room (Source.ofValue value) = .ok target) :
    readContents (room + 1) "member"
        (Source.ofValue (.object [("object", value), ("property", .string property)])) =
      .ok (.member target property) := by
  refine readContents_compound ⟨"Member", [("object", .node), ("property", .text)]⟩ rfl
    { node := some target, text := some property } ?_
  show (do
    let node ← read room (Source.ofValue value)
    pure { node := some node, text := some property } : Shape.Reading Parts) = _
  rw [h]
  rfl

theorem readContents_call {value : Value} {items : List Value} {callee : Node} {args : List Node}
    (hcallee : read (room + 1) (Source.ofValue value) = .ok callee)
    (hargs : readAll room true (Source.ofItems items) = .ok args) :
    readContents (room + 2) "call"
        (Source.ofValue (.object [("callee", value), ("args", .array items)])) =
      .ok (.call callee args) := by
  refine readContents_compound ⟨"Call", [("callee", .node), ("args", .nodes)]⟩ rfl
    { node := some callee, nodes := some args } ?_
  show (do
    let node ← read (room + 1) (Source.ofValue value)
    let nodes ← readAll room true (Source.ofItems items)
    pure { node := some node, nodes := some nodes } : Shape.Reading Parts) = _
  rw [hcallee, hargs]
  rfl

theorem readContents_function {value : Value} {body : Node} (name : String)
    (h : read room (Source.ofValue value) = .ok body) :
    readContents (room + 1) "function"
        (Source.ofValue (.object [("name", .string name), ("body", value)])) =
      .ok (.function name body) := by
  refine readContents_compound ⟨"Function", [("name", .text), ("body", .node)]⟩ rfl
    { node := some body, text := some name } ?_
  show (do
    let node ← read room (Source.ofValue value)
    pure { node := some node, text := some name } : Shape.Reading Parts) = _
  rw [h]
  rfl

/-- A pair is read as a key and a tree, before the pairs after it. -/
theorem readPairs_cons {value : Value} {rest : List Value} {fields : List (String × Node)}
    (key : String) (h : read room (Source.ofValue value) = .ok node)
    (hrest : readPairs (room + 1) true (Source.ofItems rest) = .ok fields) :
    readPairs (room + 1) true (Source.ofItems (.array [.string key, value] :: rest)) =
      .ok ((key, node) :: fields) := by
  have hparts : readInOrder room "a tuple of size 2" 0 {} [("key", .text), ("value", .node)] true
      [.string (some key), Source.ofValue value] =
        (do pure { node := some (← read room (Source.ofValue value)), text := some key }) := rfl
  have hpair : readPairs (room + 1) true (Source.ofItems (.array [.string key, value] :: rest)) =
      (do
        let parts ← readInOrder room "a tuple of size 2" 0 {} [("key", .text), ("value", .node)]
          true [.string (some key), Source.ofValue value]
        let key ← required "key" parts.text
        let node ← required "value" parts.node
        let fields ← readPairs (room + 1) true (Source.ofItems rest)
        pure ((key, node) :: fields)) := rfl
  rw [hpair, hparts, h, hrest]
  rfl

end Kinds

/-! ## Trees -/

mutual
/-- A tree is read back from its value, where there is room for it. -/
theorem read_toValue : ∀ (node : Node) {room : Nat}, node.Finite → node.toValue.depth ≤ room →
    read room (Source.ofValue node.toValue) = .ok node
  | .literal value, room, h, hroom => by
      rw [toValue, depth_tagged] at hroom
      obtain ⟨room, rfl⟩ := Nat.exists_eq_add_of_le' hroom
      rw [toValue]
      exact read_tagged (readContents_literal h)
  | .ident name, room, _, hroom => by
      rw [toValue, depth_tagged] at hroom
      obtain ⟨room, rfl⟩ := Nat.exists_eq_add_of_le' hroom
      rw [toValue]
      exact read_tagged rfl
  | .member target property, room, h, hroom => by
      simp only [toValue, depth_tagged, Value.depth, Value.membersDepth] at hroom
      obtain ⟨room, rfl⟩ := Nat.exists_eq_add_of_le' (show 2 ≤ room by omega)
      rw [toValue]
      exact read_tagged (readContents_member property (read_toValue target h (by omega)))
  | .call callee args, room, h, hroom => by
      simp only [toValue, depth_tagged, Value.depth, Value.membersDepth] at hroom
      obtain ⟨room, rfl⟩ := Nat.exists_eq_add_of_le' (show 3 ≤ room by omega)
      rw [toValue]
      exact read_tagged (readContents_call (read_toValue callee h.1 (by omega))
        (readAll_toValues args h.2 (by omega)))
  | .object fields, room, h, hroom => by
      simp only [toValue, depth_tagged, Value.depth] at hroom
      obtain ⟨room, rfl⟩ := Nat.exists_eq_add_of_le' (show 2 ≤ room by omega)
      rw [toValue]
      exact read_tagged (readContents_object (readPairs_toPairs fields h (by omega)))
  | .array items, room, h, hroom => by
      simp only [toValue, depth_tagged, Value.depth] at hroom
      obtain ⟨room, rfl⟩ := Nat.exists_eq_add_of_le' (show 2 ≤ room by omega)
      rw [toValue]
      exact read_tagged (readContents_array (readAll_toValues items h (by omega)))
  | .function name body, room, h, hroom => by
      simp only [toValue, depth_tagged, Value.depth, Value.membersDepth] at hroom
      obtain ⟨room, rfl⟩ := Nat.exists_eq_add_of_le' (show 2 ≤ room by omega)
      rw [toValue]
      exact read_tagged (readContents_function name (read_toValue body h (by omega)))

theorem readAll_toValues : ∀ (nodes : List Node) {room : Nat}, FiniteAll nodes →
    Value.itemsDepth (toValues nodes) ≤ room →
    readAll room true (Source.ofItems (toValues nodes)) = .ok nodes
  | [], _, _, _ => rfl
  | node :: rest, room, h, hroom => by
      rw [toValues, Value.itemsDepth, Nat.max_le] at hroom
      rw [toValues, Source.ofItems, readAll, read_toValue node h.1 hroom.1, Shape.ok_bind,
        readAll_toValues rest h.2 hroom.2]
      rfl

theorem readPairs_toPairs : ∀ (fields : List (String × Node)) {room : Nat}, FiniteFields fields →
    Value.itemsDepth (toPairs fields) ≤ room →
    readPairs room true (Source.ofItems (toPairs fields)) = .ok fields
  | [], _, _, _ => rfl
  | (key, node) :: rest, room, h, hroom => by
      simp only [toPairs, Value.itemsDepth, Value.depth] at hroom
      obtain ⟨room, rfl⟩ := Nat.exists_eq_add_of_le' (show 1 ≤ room by omega)
      rw [toPairs]
      exact readPairs_cons key (read_toValue node h.1 (by omega))
        (readPairs_toPairs rest h.2 (by omega))
end

/-- **Trees survive being written and read.**  A tree whose numbers are finite is read back from
its value wherever there is room for it (a text has room for so many containers, a value for all
of its own): with fields, repeated keys, items and arguments in their order.  So what is read
back is written in the same ways, has the same size and passes or fails the same checks. -/
theorem tree_read_written {node : Node} (h : node.Finite) {room : Nat}
    (hroom : node.toValue.depth ≤ room) :
    ∃ copy, read room (Source.ofValue node.toValue) = .ok copy ∧ copy = node ∧
      copy.render = node.render ∧ copy.renderPretty = node.renderPretty ∧ copy.size = node.size ∧
        ∀ root, copy.check root = node.check root :=
  ⟨node, read_toValue node h hroom, rfl, rfl, rfl, rfl, fun _ => rfl⟩

/-- An object with one key twice, of a number and a list, in the call of a method. -/
def repeatedKeys : Node :=
  .method "s" "type" [.object [("b", .literal (.number 1.5)), ("a", .array [.ident "Tree"]),
    ("b", .function "Tree" (.literal .null))]]

theorem repeatedKeys_read_written :
    repeatedKeys.Finite ∧ repeatedKeys.toValue.depth ≤ Json.nestingLimit ∧
      ∃ copy, ofSource (Source.ofValue repeatedKeys.toValue) = .ok copy ∧ copy = repeatedKeys ∧
        copy.render = repeatedKeys.render ∧ copy.renderPretty = repeatedKeys.renderPretty ∧
          copy.size = repeatedKeys.size ∧ ∀ root, copy.check root = repeatedKeys.check root := by
  have hfinite : repeatedKeys.Finite := by
    have hnumber : (1.5 : Float).isFinite = true := by decide
    simp [repeatedKeys, method, Finite, FiniteAll, FiniteFields, Literal.Finite, hnumber]
  have hroom : repeatedKeys.toValue.depth ≤ Json.nestingLimit := by decide
  exact ⟨hfinite, hroom, tree_read_written hfinite hroom⟩

end Node
end Schemata
