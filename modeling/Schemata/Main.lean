import Schemata.CommandLine

/-!
# The program

Reads the texts that a command needs, and prints its answer.
-/

namespace Schemata
namespace CommandLine

/-- The number of a failed read. -/
def codeOf : IO.Error → UInt32
  | .noFileOrDirectory _ code _ => code
  | .inappropriateType _ code _ => code
  | .permissionDenied _ code _ => code
  | .invalidArgument _ code _ => code
  | _ => 0

/-- The fault of a failed read, whose number may have a sign. -/
def faultOf (error : IO.Error) : ReadFault :=
  match ReadFault.ofCode? (codeOf error).toInt32.toInt.natAbs with
  | some fault => fault
  | none => .other (toString error)

/-- The text of bytes. -/
def textOf (bytes : ByteArray) : Content :=
  match String.fromUTF8? bytes with
  | some text => .ok text
  | none => .error .notText

def readFile (path : String) : IO Content := do
  if path.toList.contains '\x00' then return .error .zeroByte
  try
    pure (textOf (← IO.FS.readBinFile path))
  catch error => pure (.error (faultOf error))

/-- The bytes that are left in a stream. -/
partial def readRest (stream : IO.FS.Stream) (bytes : ByteArray) : IO ByteArray := do
  let more ← stream.read 65536
  if more.isEmpty then pure bytes else readRest stream (bytes ++ more)

/-- The text of the input of a command. -/
def readInput (path : String) : IO Content := do
  if path == "-" then pure (textOf (← readRest (← IO.getStdin) .empty)) else readFile path

/-- The text that a command reads, if it reads one. -/
def readOptional (read : String → IO Content) (path : Option String) : IO Content :=
  match path with
  | some path => read path
  | none => pure (.error .missing)

/-- Carries out a command line. -/
def run (words : List String) : IO UInt32 := do
  let answer ←
    match Command.ofWords? words with
    | none => pure Answer.misused
    | some command => do
        let document ← readOptional readFile command.document?
        let input ← readOptional readInput command.input?
        pure (command.answer document input)
  IO.print answer.output
  IO.eprint answer.errors
  pure answer.code.toUInt32

end CommandLine
end Schemata

/-- The program. -/
def main (words : List String) : IO UInt32 := Schemata.CommandLine.run words
