import Schemata.Directory
import Schemata.Document.Json
import Schemata.Toml.Parser

/-!
# Loading documents

**Input.**  A text and the format that it is written in, or a file name and what
reading the file gives.

**Results.**  `Document.ofText` is the document of a text or the reason why there
is none, and `Document.ofFile` that of a file, whose format goes by its name.
-/

namespace Schemata

open Json (Source)
open Shape (Failure)

/-- The formats of documents. -/
inductive TextFormat where
  | json
  | toml
deriving DecidableEq

namespace TextFormat

def name : TextFormat → String
  | .json => "JSON"
  | .toml => "TOML"

/-- The last part of a path, without slashes that follow it. -/
def lastPart (path : String) : List Char :=
  ((path.toList.reverse.dropWhile (· == '/')).takeWhile (· != '/')).reverse

/-- The format of a file: JSON if its name ends so after a point and a first
part, TOML otherwise. -/
def ofPath (path : String) : TextFormat :=
  let ending := ".json".toList
  let part := lastPart path
  if ending.isSuffixOf part && part.length != ending.length then .json else .toml

def floatText : TextFormat → Float → String
  | .json => Shape.jsonFloatText
  | .toml => Shape.plainFloatText

end TextFormat

/-- Why a document does not load. -/
inductive LoadError where
  | unreadable (fault : ReadFault)
  | rejected (format : TextFormat) (failure : Failure)
  | schema (error : SchemaError)

def Shape.Failure.message (floatText : Float → String) : Failure → String
  | .malformed => "text is not well formed"
  | .misshapen fault => fault.message floatText

def LoadError.message : LoadError → String
  | .unreadable fault => "failed to read schema document: " ++ fault.message
  | .rejected format failure =>
      "invalid " ++ format.name ++ " schema document: " ++ failure.message format.floatText
  | .schema error => error.message

namespace Document

/-- The root and the definitions of a text. -/
def readText (format : TextFormat) (text : String) : Shape.Reading (String × Entries Definition) :=
  match format with
  | .json => Shape.ofText (readWhole ⟨Json.nestingLimit, true⟩) text
  | .toml =>
      match Toml.ofText? text with
      | some table => readWhole ⟨table.depth + 1, false⟩ (Source.ofValue table)
      | none => Shape.malformed

/-- The document of a text. -/
def ofText (format : TextFormat) (text : String) : Except LoadError Document :=
  match readText format text with
  | .error failure => .error (.rejected format failure)
  | .ok (root, definitions) =>
      match ofDefinitions root definitions with
      | .error error => .error (.schema error)
      | .ok document => .ok document

/-- The document of a file, given its text or the reason why it has none. -/
def ofFile (path : String) (content : Content) : Except LoadError Document :=
  match content with
  | .error fault => .error (.unreadable fault)
  | .ok text => ofText (.ofPath path) text

end Document
end Schemata
