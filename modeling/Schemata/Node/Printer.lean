import Schemata.Node.Basic
import Schemata.Node.Identifier

/-!
# Writing generated source

`render` writes a tree on one line, `renderPretty` puts the fields of objects
and the bodies of functions on lines of their own, indented by two blanks for
each object or function around them.  Both are `write`, which differs only in
what stands between those parts.
-/

namespace Schemata
namespace Node

/-- What stands between the parts of objects and functions. -/
inductive Style where
  | line
  | indented
deriving Repr, DecidableEq

/-- The separator before a part at a depth. -/
def Style.gap : Style → Nat → String
  | .line, _ => " "
  | .indented, depth => "\n" ++ String.ofList (List.replicate (2 * depth) ' ')

mutual
/-- The text of a tree that stands at a depth. -/
def write (style : Style) (depth : Nat) : Node → String
  | .literal value => value.source
  | .ident name => identifier name
  | .member target property => write style depth target ++ "." ++ property
  | .call callee args =>
      write style depth callee ++ "(" ++ ", ".intercalate (writeAll style depth args) ++ ")"
  | .object [] => "\x7b\x7d"
  | .object (field :: rest) =>
      "\x7b" ++ style.gap (depth + 1) ++
        ("," ++ style.gap (depth + 1)).intercalate
          (writeFields style (depth + 1) (field :: rest)) ++
        style.gap depth ++ "\x7d"
  | .array items => "[" ++ ", ".intercalate (writeAll style depth items) ++ "]"
  | .function name body =>
      "function " ++ identifier name ++ "() \x7b" ++ style.gap (depth + 1) ++ "return " ++
        write style (depth + 1) body ++ ";" ++ style.gap depth ++ "\x7d"

def writeAll (style : Style) (depth : Nat) : List Node → List String
  | [] => []
  | node :: rest => write style depth node :: writeAll style depth rest

def writeFields (style : Style) (depth : Nat) : List (String × Node) → List String
  | [] => []
  | (key, node) :: rest =>
      (propertyKey key ++ ": " ++ write style depth node) :: writeFields style depth rest
end

def render (node : Node) : String := node.write .line 0

def renderPretty (node : Node) : String := node.write .indented 0

end Node
end Schemata
