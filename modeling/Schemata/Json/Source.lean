import Schemata.Entries
import Schemata.Json.Value

/-!
# JSON text as a tree that may be damaged

A reader of shapes reports the first fault of a text, whether it is a fault of
form or of shape.  So a text is first taken apart into a `Source`, which says
where its form breaks off; what the text stands for is then read off the tree
from left to right.

* `Source.value?` is strict: every part must be well formed, numbers and strings
  must stand for something, and nesting is bounded.
* `Source.wellFormed` is all that is asked of a part that is skipped.

Values keep repeated keys until `Value.settle` lets the last one win.

**Results.**  `ofValue` is the source of a value, and `valueWithin?_ofValue` reads it
back.
-/

namespace Schemata
namespace Json

/-- A text taken apart, as far as it goes. -/
inductive Source where
  | null
  | bool (value : Bool)
  /-- A number, if it is in the range of floats. -/
  | number (value : Option Number)
  /-- A string, if its escapes stand for characters. -/
  | string (text : Option String)
  /-- An array, and whether its end was reached in good form. -/
  | array (items : List Source) (closed : Bool)
  /-- An object, and whether its end was reached in good form. -/
  | object (members : List (Option String × Source)) (closed : Bool)
  /-- No value at all. -/
  | broken

instance : Inhabited Source := ⟨.broken⟩

/-- How many arrays and objects may stand inside each other. -/
def nestingLimit : Nat := 127

namespace Source

mutual
/-- The value of a source in which at most `room` containers are nested, with
repeated keys kept. -/
def valueWithin? (room : Nat) : Source → Option Value
  | .null => some .null
  | .bool value => some (.bool value)
  | .number value => value.map .number
  | .string text => text.map .string
  | .array items closed =>
      match room, closed with
      | room + 1, true => (itemsWithin? room items).map .array
      | _, _ => none
  | .object members closed =>
      match room, closed with
      | room + 1, true => (membersWithin? room members).map .object
      | _, _ => none
  | .broken => none

def itemsWithin? (room : Nat) : List Source → Option (List Value)
  | [] => some []
  | item :: rest =>
      match valueWithin? room item, itemsWithin? room rest with
      | some value, some values => some (value :: values)
      | _, _ => none

def membersWithin? (room : Nat) : List (Option String × Source) → Option Members
  | [] => some []
  | (key, member) :: rest =>
      match key, valueWithin? room member, membersWithin? room rest with
      | some key, some value, some values => some ((key, value) :: values)
      | _, _, _ => none
end

mutual
/-- Whether a source can be skipped. -/
def wellFormed : Source → Bool
  | .array items closed => itemsWellFormed items && closed
  | .object members closed => membersWellFormed members && closed
  | .broken => false
  | _ => true

def itemsWellFormed : List Source → Bool
  | [] => true
  | item :: rest => wellFormed item && itemsWellFormed rest

def membersWellFormed : List (Option String × Source) → Bool
  | [] => true
  | (_, member) :: rest => wellFormed member && membersWellFormed rest
end

mutual
/-- The source of a value. -/
def ofValue : Value → Source
  | .null => .null
  | .bool value => .bool value
  | .number value => .number (some value)
  | .string text => .string (some text)
  | .array items => .array (ofItems items) true
  | .object members => .object (ofMembers members) true

def ofItems : List Value → List Source
  | [] => []
  | item :: rest => ofValue item :: ofItems rest

def ofMembers : List (String × Value) → List (Option String × Source)
  | [] => []
  | (key, value) :: rest => (some key, ofValue value) :: ofMembers rest
end

mutual
theorem valueWithin?_ofValue :
    ∀ (room : Nat) (value : Value), value.depth ≤ room →
      valueWithin? room (ofValue value) = some value
  | _, .null, _ => by simp [ofValue, valueWithin?]
  | _, .bool _, _ => by simp [ofValue, valueWithin?]
  | _, .number _, _ => by simp [ofValue, valueWithin?]
  | _, .string _, _ => by simp [ofValue, valueWithin?]
  | 0, .array _, h => by simp [Value.depth] at h
  | 0, .object _, h => by simp [Value.depth] at h
  | room + 1, .array items, h => by
      have := itemsWithin?_ofItems room items (by simpa [Value.depth] using h)
      simp [ofValue, valueWithin?, this]
  | room + 1, .object members, h => by
      have := membersWithin?_ofMembers room members (by simpa [Value.depth] using h)
      simp [ofValue, valueWithin?, this]

theorem itemsWithin?_ofItems :
    ∀ (room : Nat) (items : List Value), Value.itemsDepth items ≤ room →
      itemsWithin? room (ofItems items) = some items
  | _, [], _ => by simp [ofItems, itemsWithin?]
  | room, item :: rest, h => by
      have h : item.depth ≤ room ∧ Value.itemsDepth rest ≤ room := by
        simpa [Value.itemsDepth, Nat.max_le] using h
      simp [ofItems, itemsWithin?, valueWithin?_ofValue room item h.1,
        itemsWithin?_ofItems room rest h.2]

theorem membersWithin?_ofMembers :
    ∀ (room : Nat) (members : Members), Value.membersDepth members ≤ room →
      membersWithin? room (ofMembers members) = some members
  | _, [], _ => by simp [ofMembers, membersWithin?]
  | room, (_, value) :: rest, h => by
      have h : value.depth ≤ room ∧ Value.membersDepth rest ≤ room := by
        simpa [Value.membersDepth, Nat.max_le] using h
      simp [ofMembers, membersWithin?, valueWithin?_ofValue room value h.1,
        membersWithin?_ofMembers room rest h.2]
end

end Source

namespace Value

mutual
/-- The value in which, of members of one key, the first keeps its place and the
last gives its value. -/
def settle : Value → Value
  | .array items => .array (settleItems items)
  | .object members => .object (Entries.ofList (settleMembers members))
  | value => value

def settleItems : List Value → List Value
  | [] => []
  | item :: rest => settle item :: settleItems rest

def settleMembers : List (String × Value) → List (String × Value)
  | [] => []
  | (key, value) :: rest => (key, settle value) :: settleMembers rest
end

end Value

/-- The value of a source as a whole. -/
def Source.value? (source : Source) : Option Value :=
  (source.valueWithin? nestingLimit).map Value.settle

end Json
end Schemata
