import Schemata.Json.Printer
import Schemata.NonEmpty

/-!
# Decode failures

A failure is a non-empty forest: each tree follows the way into the value and
ends in leaves.  Failures of the parts of a value stand beside each other, in
order.

`draw` writes the forest with one line for each node, `paths` lists the leaves
and the messages on the way.
-/

namespace Schemata

/-- Whether a part of a value had to be there. -/
inductive FieldKind where
  | required
  | optional
deriving Repr, DecidableEq

def FieldKind.label : FieldKind → String
  | .required => "required"
  | .optional => "optional"

/-- A step on the way to a failure. -/
inductive Step where
  /-- Down to the value under a key. -/
  | key (key : String) (kind : FieldKind)
  /-- Down to the item at an index. -/
  | index (index : Nat) (kind : FieldKind)
  /-- To a member of a union, at the same value. -/
  | member (index : Nat)
  /-- Into a named schema, at the same value. -/
  | lazy (id : String)
  /-- Under a message, at the same value. -/
  | wrap (message : String)
deriving Repr, DecidableEq

def Step.label : Step → String
  | .key name kind => kind.label ++ " property " ++ Text.display name
  | .index position kind => kind.label ++ " index " ++ toString position
  | .member position => "member " ++ toString position
  | .lazy id => "lazy type " ++ id
  | .wrap message => message

/-- The part of a path that a step adds. -/
def Step.segment : Step → String
  | .key name _ => "." ++ name
  | .index position _ => "[" ++ toString position ++ "]"
  | .member position => "<member " ++ toString position ++ ">"
  | .lazy id => "<lazy " ++ id ++ ">"
  | .wrap _ => ""

/-- The message that stands on the way by itself, if a step has one. -/
def Step.message? : Step → Option String
  | .wrap message => some message
  | _ => none

/-- A node of a failure. -/
inductive ErrorNode where
  /-- A value of the wrong shape. -/
  | leaf (actual : Json.Value) (expected : String)
  /-- A value that is not there. -/
  | missing
  /-- Failures after a step. -/
  | under (step : Step) (errors : NonEmpty ErrorNode)

/-- A decode failure. -/
abbrev DecodeError := NonEmpty ErrorNode

namespace ErrorNode

def leafMessage (actual : Json.Value) (expected : String) : String :=
  "expected " ++ expected ++ ", got " ++ actual.compact

def missingMessage : String := "missing required value"

/-- What stands before the line of a node below a guide. -/
def branch (guide : String) (last : Bool) : String := guide ++ (if last then "└─ " else "├─ ")

/-- The guide below a node that stands below a guide. -/
def extend (guide : String) (last : Bool) : String := guide ++ (if last then "   " else "│  ")

mutual
/-- The lines of a node: its own after `lead`, the others after `guide`. -/
def lines (lead guide : String) : ErrorNode → List String
  | .leaf actual expected => [lead ++ leafMessage actual expected]
  | .missing => [lead ++ missingMessage]
  | .under step ⟨head, tail⟩ =>
      (lead ++ step.label) ::
        (lines (branch guide tail.isEmpty) (extend guide tail.isEmpty) head ++
          linesOfAll guide tail)

def linesOfAll (guide : String) : List ErrorNode → List String
  | [] => []
  | node :: rest =>
      lines (branch guide rest.isEmpty) (extend guide rest.isEmpty) node ++ linesOfAll guide rest
end

mutual
/-- The leaves and messages of a node, below a path. -/
def paths (path : String) : ErrorNode → List (String × String)
  | .leaf actual expected => [(path, leafMessage actual expected)]
  | .missing => [(path, missingMessage)]
  | .under step ⟨head, tail⟩ =>
      step.message?.toList.map (path, ·) ++
        (paths (path ++ step.segment) head ++ pathsOfAll (path ++ step.segment) tail)

def pathsOfAll (path : String) : List ErrorNode → List (String × String)
  | [] => []
  | node :: rest => paths path node ++ pathsOfAll path rest
end

mutual
/-- Equality of nodes, with values compared as `Value.same` does. -/
def same : ErrorNode → ErrorNode → Bool
  | .leaf a e, .leaf b f => a.same b && e == f
  | .missing, .missing => true
  | .under s ⟨a, as⟩, .under t ⟨b, bs⟩ => s == t && same a b && sameAll as bs
  | _, _ => false

def sameAll : List ErrorNode → List ErrorNode → Bool
  | [], [] => true
  | a :: as, b :: bs => same a b && sameAll as bs
  | _, _ => false
end

end ErrorNode

namespace DecodeError

/-- A value of the wrong shape. -/
def leaf (actual : Json.Value) (expected : String) : DecodeError :=
  .singleton (.leaf actual expected)

/-- A value that is not there. -/
def missing : DecodeError := .singleton .missing

/-- A failure after a step. -/
def under (step : Step) (error : DecodeError) : DecodeError := .singleton (.under step error)

/-- Several failures as one, if there are any. -/
def collect : List DecodeError → Option DecodeError
  | [] => none
  | error :: rest => some (rest.foldl (· ++ ·) error)

/-- The lines of a failure: trees at the top bare, nodes below after guides. -/
def lines (error : DecodeError) : List String := error.toList.flatMap (ErrorNode.lines "" "")

def draw (error : DecodeError) : String := "\n".intercalate error.lines

/-- Every leaf and message of a failure with the path to it. -/
def paths (error : DecodeError) : List (String × String) := ErrorNode.pathsOfAll "" error.toList

def same (a b : DecodeError) : Bool := ErrorNode.sameAll a.toList b.toList

end DecodeError

/-- A decoded value, or why there is none. -/
abbrev Outcome (α : Type) := Except DecodeError α

end Schemata
