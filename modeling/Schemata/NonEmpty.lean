/-!
# Sequences with at least one item

`literals` and `union` take their arguments as a `NonEmpty`, so that an empty
argument list is refused where a schema is written and not when input is
decoded.  A failure forest is a `NonEmpty` of trees for the same reason.

**Results.**  `toList_ne_nil` and `ofList?_toList` say that the type is the lists
other than the empty one, which `ofList?` reads back.
-/

namespace Schemata

universe u v

/-- A first item and the items after it. -/
structure NonEmpty (α : Type u) where
  head : α
  tail : List α
deriving Repr, DecidableEq

namespace NonEmpty

variable {α : Type u} {β : Type v}

def singleton (item : α) : NonEmpty α := ⟨item, []⟩

def toList (items : NonEmpty α) : List α := items.head :: items.tail

/-- The sequence of the items of a list, if there are any. -/
def ofList? : List α → Option (NonEmpty α)
  | [] => none
  | item :: rest => some ⟨item, rest⟩

def length (items : NonEmpty α) : Nat := items.tail.length + 1

/-- The items of one sequence followed by those of another. -/
def append (left right : NonEmpty α) : NonEmpty α :=
  ⟨left.head, left.tail ++ right.toList⟩

instance : Append (NonEmpty α) := ⟨append⟩

def map (f : α → β) (items : NonEmpty α) : NonEmpty β :=
  ⟨f items.head, items.tail.map f⟩

theorem toList_ne_nil (items : NonEmpty α) : items.toList ≠ [] := by
  simp [toList]

theorem toList_append (left right : NonEmpty α) :
    (left ++ right).toList = left.toList ++ right.toList := rfl

theorem toList_map (f : α → β) (items : NonEmpty α) :
    (items.map f).toList = items.toList.map f := rfl

theorem mem_toList_map {f : α → β} {items : NonEmpty α} {b : β} :
    b ∈ (items.map f).toList ↔ ∃ a ∈ items.toList, f a = b := by
  rw [toList_map, List.mem_map]

theorem ofList?_toList (items : NonEmpty α) : ofList? items.toList = some items := rfl

end NonEmpty
end Schemata
