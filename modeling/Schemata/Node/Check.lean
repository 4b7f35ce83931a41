import Schemata.Combinator
import Schemata.Node.Printer

/-!
# Checking generated source

**Input.**  A tree and the root identifier.

**Algorithm.**  One pass from left to right.  Calls are told apart by their
callee (`Role`): a method of the root must be in the catalog and have arguments
of the right number and form; the members of a sum follow as a second call; a
call of an identifier refers to a function around it.  Then the parts are
checked, with the functions around them in scope.

**Results.**  `check` gives the first fault, and `CheckError.message` words it.
-/

namespace Schemata
namespace Node

/-- Why a tree is no valid source of a schema. -/
inductive CheckError where
  | unknownCombinator (name : String)
  | argumentCount (combinator expected : String) (got : Nat)
  | argument (combinator detail : String)
  | unboundReference (name : String)
  | unknownRoot (name : String)
  | shadowedRoot (name : String)
deriving Repr, DecidableEq

def CheckError.message : CheckError → String
  | .unknownCombinator name => "unknown combinator: " ++ name
  | .argumentCount combinator expected got =>
      "invalid argument count for " ++ combinator ++ ": expected " ++ expected ++
        ", got " ++ toString got
  | .argument combinator detail => "invalid argument for " ++ combinator ++ ": " ++ detail
  | .unboundReference name => "reference to " ++ name ++ " outside of its lazy definition"
  | .unknownRoot name => "call on unknown root: " ++ name
  | .shadowedRoot name => "function " ++ name ++ " shadows the root identifier"

/-- What a call does, by its callee. -/
inductive Role where
  /-- A method of the root. -/
  | method (name : String)
  /-- The members of a sum, after the call that gives its tag. -/
  | members
  /-- A function around the call. -/
  | reference (name : String)
  /-- A method of something else than the root. -/
  | foreign (target : String)
  | other

/-- The role of the calls of a callee. -/
def role (root : String) : Node → Role
  | .member (.ident name) property => if name = root then .method property else .foreign name
  | .member target _ => .foreign target.render
  | .ident name => .reference name
  | callee => if callee.methodName? root = some "sum" then .members else .other

/-- The fault of the arguments of a method that have the right number. -/
def argumentFault? (root name : String) (args : List Node) : Option CheckError :=
  match name, args with
  | "literal", [value] =>
      if value.literal?.isSome then none else some (.argument name "argument must be a literal")
  | "literals", values :: _ => literalsFault? values
  | "literalsOr", values :: _ => literalsFault? values
  | "type", [fields] => fieldsFault? fields
  | "partial", [fields] => fieldsFault? fields
  | "sum", [tag] =>
      if tag.text?.isSome then none else some (.argument name "tag must be a string")
  | "lazy", [id, definition] =>
      match id.text?, definition.function? with
      | none, _ => some (.argument name "id must be a string")
      | _, none => some (.argument name "definition must be a function")
      | some id, some (given, _) =>
          if given = root then some (.shadowedRoot given)
          else if given = definitionName id root then none
          else some (.argument name ("function " ++ given ++ " does not match id " ++ id))
  | _, _ => none
where
  /-- The fault of an argument that should list literals. -/
  literalsFault? (values : Node) : Option CheckError :=
    match values.items? with
    | none => some (.argument name "first argument must be an array")
    | some items =>
        if items.isEmpty || items.any (·.literal?.isNone) then
          some (.argument name "first argument must be a non-empty array of literals")
        else none
  /-- The fault of an argument that should name fields. -/
  fieldsFault? (fields : Node) : Option CheckError :=
    if fields.fields?.isSome then none else some (.argument name "fields must be an object")

/-- The fault of a call of a method of the root, its arguments' parts aside. -/
def methodFault? (root name : String) (args : List Node) : Option CheckError :=
  match Combinator.find? name with
  | none => some (.unknownCombinator name)
  | some combinator =>
      if combinator.arity.accepts args.length then argumentFault? root name args
      else some (.argumentCount name combinator.arity.text args.length)

/-- The fault of the call that gives a sum its members. -/
def membersFault? : List Node → Option CheckError
  | [members] =>
      if members.fields?.isSome then none else some (.argument "sum" "members must be an object")
  | args => some (.argumentCount "sum" "1" args.length)

/-- The fault of a call of a function, with the functions in scope. -/
def referenceFault? (scope : List String) (name : String) (args : List Node) : Option CheckError :=
  if name ∈ scope then
    if args.isEmpty then none else some (.argumentCount name "0" args.length)
  else some (.unboundReference name)

/-- The fault of a function's name. -/
def functionFault? (root name : String) : Option CheckError :=
  if name = root then some (.shadowedRoot name) else none

/-- Success where there is no fault. -/
def require : Option CheckError → Except CheckError Unit
  | none => .ok ()
  | some fault => .error fault

mutual
/-- The check of a tree inside the functions of a scope. -/
def checkIn (root : String) (scope : List String) : Node → Except CheckError Unit
  | .literal _ => .ok ()
  | .ident _ => .ok ()
  | .member target _ => checkIn root scope target
  | .object fields => checkFields root scope fields
  | .array items => checkAll root scope items
  | .function name body => do
      require (functionFault? root name)
      checkIn root (name :: scope) body
  | .call callee args =>
      match callee.role root with
      | .method name => do
          require (methodFault? root name args)
          checkAll root scope args
      | .members => do
          checkIn root scope callee
          require (membersFault? args)
          checkAll root scope args
      | .reference name => require (referenceFault? scope name args)
      | .foreign target => .error (.unknownRoot target)
      | .other => do
          checkIn root scope callee
          checkAll root scope args

def checkAll (root : String) (scope : List String) : List Node → Except CheckError Unit
  | [] => .ok ()
  | node :: rest => do
      checkIn root scope node
      checkAll root scope rest

def checkFields (root : String) (scope : List String) :
    List (String × Node) → Except CheckError Unit
  | [] => .ok ()
  | (_, node) :: rest => do
      checkIn root scope node
      checkFields root scope rest
end

/-- The check of generated source on a root identifier. -/
def check (node : Node) (root : String) : Except CheckError Unit := node.checkIn root []

end Node
end Schemata
