import Schemata.Entries

/-!
# Files in a directory

**Input.**  The names of files with their texts, and a path.

**Algorithm.**  A path is followed name by name from the directory on.  An empty
name and `.` stay where they are, `..` goes back; of what lies above the
directory nothing is known but that it is there.  Only a directory leads on, and
only a file has a text.

**Results.**  `Directory.read` is the text at a path or the reason why there is
none.
-/

namespace Schemata

/-- Why there is no text at a path. -/
inductive ReadFault where
  | missing
  | forbidden
  | notDirectory
  | isDirectory
  | nameTooLong
  /-- A zero byte in a path. -/
  | zeroByte
  /-- Bytes that are no text. -/
  | notText
  | other (reason : String)
deriving DecidableEq

namespace ReadFault

/-- The faults that have a number, and their words. -/
def numbered : List (Nat × ReadFault × String) := [
  (2, .missing, "No such file or directory"),
  (13, .forbidden, "Permission denied"),
  (20, .notDirectory, "Not a directory"),
  (21, .isDirectory, "Is a directory"),
  (36, .nameTooLong, "File name too long")]

/-- The fault of a number. -/
def ofCode? (code : Nat) : Option ReadFault := (numbered.lookup code).map Prod.fst

def message (fault : ReadFault) : String :=
  match numbered.find? (·.2.1 == fault), fault with
  | some (code, _, words), _ => words ++ " (os error " ++ toString code ++ ")"
  | none, .zeroByte => "file name contained an unexpected NUL byte"
  | none, .notText => "stream did not contain valid UTF-8"
  | none, .other reason => reason
  | none, _ => "file cannot be read"

end ReadFault

/-- What reading a file or a stream gives. -/
abbrev Content := Except ReadFault String

/-- A directory: its files by name, those of directories in it by path. -/
structure Directory where
  files : Entries String

namespace Directory

/-- Where a path has led. -/
inductive Place where
  /-- The directory or one in it, by the names on the way there. -/
  | inside (way : List String)
  /-- A directory that is not in this one. -/
  | outside
  | file (text : String)

/-- How long a name may be, in bytes. -/
def nameLimit : Nat := 255

/-- How long a path may be, in bytes. -/
def pathLimit : Nat := 4095

/-- Whether a name leads nowhere else. -/
def isStill (name : String) : Bool := name == "" || name == "."

/-- The names on the way to a file. -/
def wayTo (path : String) : List String := (path.splitOn "/").filter fun name => !isStill name

/-- What lies at the end of a way. -/
def enter (directory : Directory) (way : List String) : Except ReadFault Place :=
  match directory.files.find? fun file => wayTo file.1 == way with
  | some (_, text) => .ok (.file text)
  | none =>
      if directory.files.any fun file => way.isPrefixOf (wayTo file.1) then .ok (.inside way)
      else .error .missing

/-- The place to which a name leads from another. -/
def step (directory : Directory) (place : Place) (name : String) : Except ReadFault Place :=
  match place with
  | .file _ => .error .notDirectory
  | .outside =>
      if isStill name || name == ".." then .ok .outside
      else if nameLimit < name.utf8ByteSize then .error .nameTooLong
      else .error .missing
  | .inside way =>
      if isStill name then .ok (.inside way)
      else if name == ".." then .ok (if way.isEmpty then .outside else .inside way.dropLast)
      else if nameLimit < name.utf8ByteSize then .error .nameTooLong
      else directory.enter (way ++ [name])

/-- The text at a place. -/
def Place.text : Place → Content
  | .file text => .ok text
  | _ => .error .isDirectory

/-- The text at a path. -/
def read (directory : Directory) (path : String) : Content :=
  if path.isEmpty then .error .missing
  else if path.toList.contains '\x00' then .error .zeroByte
  else if pathLimit < path.utf8ByteSize then .error .nameTooLong
  else do
    let start : Place := if path.toList.head? == some '/' then .outside else .inside []
    let place ← (path.splitOn "/").foldlM directory.step start
    place.text

end Directory
end Schemata
