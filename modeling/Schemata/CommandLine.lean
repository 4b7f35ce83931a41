import Schemata.Combinator
import Schemata.Document.Interpretation
import Schemata.Document.Load
import Schemata.Node.Check
import Schemata.Node.Json
import Schemata.Node.Printer

/-!
# The command line

**Input.**  The words after the name of the program.

**Algorithm.**  A command has positional words, flags, and options with a value;
two dashes end the flags and options.  What a command answers depends on the
texts that it reads, which are given to it.

**Results.**  `Command.ofWords?` reads a command, `Command.answer` carries it out.
-/

namespace Schemata
namespace CommandLine

open Json (Value)

/-! ## Words -/

/-- What words a command takes. -/
structure Usage where
  positionals : Nat
  flags : List String := []
  options : List String := []

/-- The words of a command by their part in it. -/
structure Words where
  positionals : List String := []
  flags : List String := []
  options : Entries String := []

/-- Whether a word is a flag or option: a dash and more. -/
def isDashed (word : String) : Bool :=
  match word.toList with
  | '-' :: _ :: _ => true
  | _ => false

/-- A word split at its first equals sign. -/
def splitEquals (word : String) : String × Option String :=
  let name := word.toList.takeWhile (· != '=')
  match word.toList.drop name.length with
  | _ :: value => (String.ofList name, some (String.ofList value))
  | [] => (word, none)

namespace Words

/-- The words with one more flag, which may be given once. -/
def addFlag? (words : Words) (name : String) : Option Words :=
  if name ∈ words.flags then none else some { words with flags := name :: words.flags }

/-- The words with one more option, which may be given once. -/
def addOption? (words : Words) (name value : String) : Option Words :=
  if (words.options.lookup name).isSome then none
  else some { words with options := words.options.set name value }

/-- The words with more positional ones. -/
def addPositionals (words : Words) (more : List String) : Words :=
  { words with positionals := words.positionals ++ more }

/-- The words of a command line by their part, after those that have been read. -/
def read? (usage : Usage) (words : Words) : List String → Option Words
  | [] => some words
  | "--" :: rest => some (words.addPositionals rest)
  | word :: rest =>
      if isDashed word then
        match splitEquals word with
        | (name, some value) =>
            if name ∈ usage.options then do read? usage (← words.addOption? name value) rest
            else none
        | (name, none) =>
            if name ∈ usage.flags then do read? usage (← words.addFlag? name) rest
            else if name ∈ usage.options then
              match rest with
              | value :: rest =>
                  if isDashed value then none
                  else do read? usage (← words.addOption? name value) rest
              | [] => none
            else none
      else read? usage (words.addPositionals [word]) rest

/-- The words of a command line, with as many positional ones as the command
takes. -/
def ofList? (usage : Usage) (list : List String) : Option Words :=
  (read? usage {} list).filter fun words => words.positionals.length == usage.positionals

end Words

/-! ## Commands -/

/-- How source is printed. -/
inductive Form where
  | line
  | indented
  | tree

/-- A command. -/
inductive Command where
  | render (document root : String) (form : Form)
  | check (document : String)
  | decode (document input : String)
  | roundTrip (document input : String)
  | combinators

namespace Command

/-- The form of source that flags ask for. -/
def form? (flags : List String) : Option Form :=
  match flags with
  | [] => some .line
  | ["--pretty"] => some .indented
  | ["--json"] => some .tree
  | _ => none

/-- The command of a command line. -/
def ofWords? : List String → Option Command
  | "render" :: rest => do
      let words ← Words.ofList? ⟨1, ["--pretty", "--json"], ["--root-ident"]⟩ rest
      let document ← words.positionals.head?
      let form ← form? words.flags
      some (.render document ((words.options.lookup "--root-ident").getD Node.defaultRoot) form)
  | "check" :: rest => do
      let words ← Words.ofList? ⟨1, [], []⟩ rest
      let document ← words.positionals.head?
      some (.check document)
  | "decode" :: rest => do
      match (← Words.ofList? ⟨2, [], []⟩ rest).positionals with
      | [document, input] => some (.decode document input)
      | _ => none
  | "roundtrip" :: rest => do
      match (← Words.ofList? ⟨2, [], []⟩ rest).positionals with
      | [document, input] => some (.roundTrip document input)
      | _ => none
  | "combinators" :: rest => do
      let _ ← Words.ofList? ⟨0, [], []⟩ rest
      some .combinators
  | _ => none

def document? : Command → Option String
  | .render document _ _ => some document
  | .check document => some document
  | .decode document _ => some document
  | .roundTrip document _ => some document
  | .combinators => none

/-- The file or stream that a command decodes. -/
def input? : Command → Option String
  | .decode _ input => some input
  | .roundTrip _ input => some input
  | _ => none

end Command

/-! ## Answers -/

/-- What a command prints and the code with which it ends. -/
structure Answer where
  code : Nat
  output : String := ""
  errors : String := ""

namespace Answer

/-- The answer of a command that prints lines. -/
def printed (text : String) : Answer := ⟨0, text ++ "\n", ""⟩

/-- The answer of a command that fails. -/
def failed (reason : String) : Answer := ⟨1, "", "error: " ++ reason ++ "\n"⟩

/-- The answer to a command line that is no command. -/
def misused : Answer := ⟨2, "", "error: invalid command line\n"⟩

/-- The answer to a value that does not decode. -/
def undecoded (error : DecodeError) : Answer := ⟨1, "", error.draw ++ "\n"⟩

end Answer

def haltMessage : String := "schema does not come to an end"

/-- A line of the list of combinators. -/
def combinatorLine (combinator : Combinator) : String :=
  let padded (width : Nat) (text : String) : String :=
    text ++ String.ofList (List.replicate (width - text.length) ' ')
  padded 14 combinator.name ++ " " ++ padded 12 combinator.arity.text ++ " " ++
    combinator.description

/-- The value of a text of JSON. -/
def valueOf (content : Content) : Except Answer Value :=
  match content with
  | .error fault => .error (.failed fault.message)
  | .ok text =>
      match Value.ofText? text with
      | some value => .ok value
      | none => .error (.failed (Shape.Failure.malformed.message Shape.jsonFloatText))

/-- The document of a file. -/
def documentOf (path : String) (content : Content) : Except Answer Document :=
  (Document.ofFile path content).mapError fun error => .failed error.message

/-- The source of a document. -/
def sourceOf (document : Document) (root : String) : Except Answer Node :=
  (document.source root).mapError fun _ => .failed haltMessage

/-- The outcome of decoding and then encoding a value. -/
def reencode (document : Document) (value : Value) : Except Lazy.Halt (Outcome Value) := do
  let (outcome, codec) ← Interpretation.decode document (document.interpret (A := Codec)) value
  match outcome with
  | .error error => pure (.error error)
  | .ok decoded => do
      let (encoded, _) ← Interpretation.encode document codec decoded
      pure (.ok encoded)

/-- The answer for an outcome. -/
def outcomeAnswer (result : Except Lazy.Halt (Outcome Value)) : Answer :=
  match result with
  | .error _ => .failed haltMessage
  | .ok (.error error) => .undecoded error
  | .ok (.ok value) => .printed value.pretty

/-- Source in a form. -/
def Form.print (form : Form) (node : Node) : String :=
  match form with
  | .line => node.render
  | .indented => node.renderPretty
  | .tree => node.toValue.pretty

namespace Command

/-- The answer to a command, given the texts of its document and its input. -/
def answer (command : Command) (document input : Content) : Answer :=
  let result : Except Answer Answer :=
    match command with
    | .render path root form => do
        let node ← sourceOf (← documentOf path document) root
        pure (.printed (form.print node))
    | .check path => do
        let node ← sourceOf (← documentOf path document) Node.defaultRoot
        match node.check Node.defaultRoot with
        | .ok () => pure (.printed (path ++ ": ok"))
        | .error error => throw (.failed error.message)
    | .decode path _ => do
        let document ← documentOf path document
        let value ← valueOf input
        pure (outcomeAnswer (document.decode value))
    | .roundTrip path _ => do
        let document ← documentOf path document
        let value ← valueOf input
        pure (outcomeAnswer (reencode document value))
    | .combinators =>
        pure (.printed ("\n".intercalate (Combinator.catalog.map combinatorLine)))
  match result with
  | .ok answer => answer
  | .error answer => answer

end Command

end CommandLine
end Schemata
