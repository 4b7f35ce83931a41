import Schemata.Entries
import Schemata.Json.Value

/-!
# Tables that are being written

A TOML text writes one table piece by piece: a line with a key adds to the
section that the last header opened, and a header opens a section.  A table
remembers how it came about, since that decides what may still be added to it.

**Algorithm.**  `within` changes the table at a path from a given table on.
Tables that are missing on the way come into being; a list of tables stands for
its last one.
-/

namespace Schemata
namespace Toml

open Json (Value)

/-- How a table came about: by a header of its own, on the way of a header, or
on the way of a key with points. -/
inductive Origin where
  | header
  | implied
  | dotted
  deriving DecidableEq

/-- What stands under a key: a value, a table or a list of tables. -/
inductive Item where
  | value (value : Value)
  | table (origin : Origin) (entries : List (String × Item))
  | tables (elements : List (List (String × Item)))

namespace Item

mutual
/-- An item as a value. -/
def toValue : Item → Value
  | .value v => v
  | .table _ entries => .object (toMembers entries)
  | .tables elements => .array (toItems elements)

def toItems : List (List (String × Item)) → List Value
  | [] => []
  | entries :: rest => .object (toMembers entries) :: toItems rest

def toMembers : List (String × Item) → List (String × Value)
  | [] => []
  | (key, item) :: rest => (key, item.toValue) :: toMembers rest
end

end Item

/-- The entries of a table after a change at a path, with what the change
yields.  `dotted` tells a key with points from a header: it leads through no
table that has a header, and marks the tables that come into being. -/
def within {α : Type} (dotted : Bool)
    (change : Origin → Entries Item → Option (α × Entries Item)) :
    List String → Origin → Entries Item → Option (α × Entries Item)
  | [], origin, entries => change origin entries
  | key :: path, _, entries =>
      let goOn (origin : Origin) (inner : Entries Item) (item : Entries Item → Item) :
          Option (α × Entries Item) := do
        let (answer, inner) ← within dotted change path origin inner
        some (answer, entries.set key (item inner))
      match entries.lookup key with
      | none =>
          let origin := if dotted then .dotted else .implied
          goOn origin [] (.table origin)
      | some (.value _) => none
      | some (.table origin inner) =>
          if dotted && origin == .header then none else goOn origin inner (.table origin)
      | some (.tables elements) => do
          goOn .header (← elements.getLast?) fun inner => .tables (elements.dropLast ++ [inner])

/-- Adds what stands under a key that is not yet there. -/
def addNew? (key : String) (item : Item) (entries : Entries Item) : Option (Entries Item) :=
  if (entries.lookup key).isSome then none else some (entries.set key item)

/-- Adds a value under a key with points, from a table on.  Only a table that
such a key brought about is open to another. -/
def addValue? (path : List String) (key : String) (value : Value) (entries : Entries Item) :
    Option (Entries Item) :=
  (within true
    (fun origin entries =>
      if !path.isEmpty && origin != .dotted then none
      else (addNew? key (.value value) entries).map fun entries => ((), entries))
    path .header entries).map Prod.snd

/-- The section that is being written: the entries before every header, a table
or an element of a list of tables. -/
inductive Section where
  | top
  | table (parents : List String) (key : String)
  | element (parents : List String) (key : String)

/-- A table so far, and the section that is being written with its entries. -/
structure Draft where
  root : Entries Item := []
  place : Section := .top
  entries : Entries Item := []

namespace Draft

/-- The table so far with the section in its place. -/
def close? (draft : Draft) : Option (Entries Item) :=
  match draft.place with
  | .top => some draft.entries
  | .table parents key =>
      (within false
        (fun _ entries =>
          (addNew? key (.table .header draft.entries) entries).map fun entries => ((), entries))
        parents .header draft.root).map Prod.snd
  | .element parents key =>
      (within false
        (fun _ entries =>
          match entries.lookup key with
          | some (.tables elements) =>
              some ((), entries.set key (.tables (elements ++ [draft.entries])))
          | _ => none)
        parents .header draft.root).map Prod.snd

/-- Opens the section of a table.  It may be there already where it lay on the
way of other headers only. -/
def openTable? (draft : Draft) (parents : List String) (key : String) : Option Draft := do
  let root ← draft.close?
  let (entries, root) ←
    within false
      (fun _ entries =>
        match entries.lookup key with
        | none => some ([], entries)
        | some (.table .implied inner) => some (inner, entries.filter fun entry => entry.1 != key)
        | some _ => none)
      parents .header root
  some { root, place := .table parents key, entries }

/-- Opens the section of a new element of a list of tables. -/
def openElement? (draft : Draft) (parents : List String) (key : String) : Option Draft := do
  let root ← draft.close?
  let (_, root) ←
    within false
      (fun _ entries =>
        match entries.lookup key with
        | none => some ((), entries.set key (.tables []))
        | some (.tables _) => some ((), entries)
        | some _ => none)
      parents .header root
  some { root, place := .element parents key, entries := [] }

/-- Adds a value to the section that is being written. -/
def addValue? (draft : Draft) (path : List String) (key : String) (value : Value) : Option Draft :=
  (Toml.addValue? path key value draft.entries).map fun entries => { draft with entries }

end Draft

end Toml
end Schemata
