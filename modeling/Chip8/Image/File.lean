/-!
Reading files: why a file cannot be read, and a directory whose content is known, in which paths are
followed step by step. A path as a whole and each name in it have a greatest length in bytes. The
path is measured before the first step, a name when the step to it is taken, so a name behind a
missing directory or behind a plain file is never measured.
-/

namespace Chip8

inductive FileError where
  | notFound
  | permissionDenied
  /-- A plain file stands where the path wants a directory. -/
  | notADirectory
  /-- The path leads to a directory. -/
  | isADirectory
  /-- The path, or a name in it, is too long. -/
  | nameTooLong
  deriving DecidableEq, Repr

namespace FileError

/-- The number under which the operating system knows the error. -/
def code : FileError → Nat
  | notFound => 2
  | permissionDenied => 13
  | notADirectory => 20
  | isADirectory => 21
  | nameTooLong => 36

def kind : FileError → String
  | notFound => "NotFound"
  | permissionDenied => "PermissionDenied"
  | notADirectory => "NotADirectory"
  | isADirectory => "IsADirectory"
  | nameTooLong => "InvalidFilename"

def message : FileError → String
  | notFound => "No such file or directory"
  | permissionDenied => "Permission denied"
  | notADirectory => "Not a directory"
  | isADirectory => "Is a directory"
  | nameTooLong => "File name too long"

def ofCode? (code : Nat) : Option FileError :=
  [notFound, permissionDenied, notADirectory, isADirectory, nameTooLong].find? (·.code == code)

end FileError

inductive Entry where
  | file (bytes : List UInt8)
  /-- A directory with nothing in it. -/
  | directory

structure Directory where
  entries : List (String × Entry)

namespace Directory

/-- A directory that a path can lead to. -/
inductive Position where
  /-- The directory itself. -/
  | here
  /-- One of its subdirectories. -/
  | inside
  /-- A directory further up, of which nothing is known. -/
  | above
  deriving DecidableEq, Repr

def Position.parent : Position → Position
  | here => above
  | inside => here
  | above => above

/-- Where a path has led so far. -/
inductive Place where
  | directory (position : Position)
  | file (bytes : List UInt8)

abbrev nameLimit : Nat := 255

abbrev pathLimit : Nat := 4095

/-- The entry of a name in a directory. Only the directory itself has entries that are known. -/
def entry? (d : Directory) (position : Position) (name : String) : Option Place :=
  match position with
  | .here =>
    (d.entries.lookup name).map fun
      | .file bytes => .file bytes
      | .directory => .directory .inside
  | .inside | .above => none

/-- One step of a path: to the parent, nowhere, or to an entry. Only from a directory a step can be
taken. -/
def go (d : Directory) (place : Place) (name : String) : Except FileError Place :=
  match place with
  | .file _ => .error .notADirectory
  | .directory position =>
    if name.utf8ByteSize > nameLimit then .error .nameTooLong
    else if name = "" || name = "." then .ok place
    else if name = ".." then .ok (.directory position.parent)
    else
      match d.entry? position name with
      | none => .error .notFound
      | some entry => .ok entry

def read (d : Directory) (path : String) : Except FileError (List UInt8) :=
  if path.isEmpty then .error .notFound
  else if path.utf8ByteSize > pathLimit then .error .nameTooLong
  else do
    let start : Position := if path.startsWith "/" then .above else .here
    match ← (path.splitOn "/").foldlM d.go (.directory start) with
    | .file bytes => return bytes
    | .directory _ => .error .isADirectory

end Directory

end Chip8
