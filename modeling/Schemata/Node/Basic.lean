import Schemata.Literal

/-!
# Syntax of generated source

A `Node` is an expression of the source that rebuilds a schema.  Fields of an
object expression are a list, so that their order, and keys that occur twice,
survive.
-/

namespace Schemata

/-- An expression of generated source. -/
inductive Node where
  | literal (value : Literal)
  | ident (name : String)
  /-- Access to a property of an object. -/
  | member (target : Node) (property : String)
  | call (callee : Node) (args : List Node)
  | object (fields : List (String × Node))
  | array (items : List Node)
  /-- A named function without parameters that returns its body. -/
  | function (name : String) (body : Node)

instance : Inhabited Node := ⟨.literal .null⟩

namespace Node

/-- The call of a method of an identifier. -/
def method (root name : String) (args : List Node) : Node :=
  .call (.member (.ident root) name) args

def ident? : Node → Option String
  | .ident name => some name
  | _ => none

def literal? : Node → Option Literal
  | .literal value => some value
  | _ => none

def text? : Node → Option String
  | .literal (.string text) => some text
  | _ => none

def fields? : Node → Option (List (String × Node))
  | .object fields => some fields
  | _ => none

def items? : Node → Option (List Node)
  | .array items => some items
  | _ => none

def function? : Node → Option (String × Node)
  | .function name body => some (name, body)
  | _ => none

def callee? : Node → Option Node
  | .call callee _ => some callee
  | _ => none

def args? : Node → Option (List Node)
  | .call _ args => some args
  | _ => none

/-- The method that is called on the identifier `root`. -/
def methodName? (root : String) : Node → Option String
  | .call (.member (.ident name) property) _ => if name = root then some property else none
  | _ => none

mutual
/-- The number of nodes of a tree. -/
def size : Node → Nat
  | .literal _ => 1
  | .ident _ => 1
  | .member target _ => target.size + 1
  | .call callee args => callee.size + sizes args + 1
  | .object fields => fieldSizes fields + 1
  | .array items => sizes items + 1
  | .function _ body => body.size + 1

def sizes : List Node → Nat
  | [] => 0
  | node :: rest => node.size + sizes rest

def fieldSizes : List (String × Node) → Nat
  | [] => 0
  | (_, node) :: rest => node.size + fieldSizes rest
end

mutual
/-- Equality of trees, with literals compared as `Literal.same` does. -/
def same : Node → Node → Bool
  | .literal a, .literal b => a.same b
  | .ident a, .ident b => a == b
  | .member a p, .member b q => same a b && p == q
  | .call a args, .call b others => same a b && sameAll args others
  | .object fields, .object others => sameFields fields others
  | .array items, .array others => sameAll items others
  | .function a body, .function b other => a == b && same body other
  | _, _ => false

def sameAll : List Node → List Node → Bool
  | [], [] => true
  | a :: as, b :: bs => same a b && sameAll as bs
  | _, _ => false

/-- Equality of lists of fields. -/
def sameFields : List (String × Node) → List (String × Node) → Bool
  | [], [] => true
  | (k, a) :: as, (l, b) :: bs => k == l && same a b && sameFields as bs
  | _, _ => false
end

end Node
end Schemata
