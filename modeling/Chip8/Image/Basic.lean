import Chip8.Image.File
import Chip8.Machine.Basic

/-!
Images: the bytes of a program or of a font. A program has the memory from its offset on, a font has
the memory in front of that; an image that is larger is refused.
-/

namespace Chip8.Image

inductive Kind where
  | program | font
  deriving DecidableEq, Repr

def Kind.limit : Kind → Nat
  | .program => Memory.size - Machine.programOffset
  | .font => Machine.programOffset

inductive Error where
  | tooLarge (size limit : Nat)
  | unreadable (error : FileError)
  deriving DecidableEq, Repr

namespace Error

def message : Error → String
  | tooLarge size limit => s!"Image is too large ({size} bytes), max size is {limit} bytes"
  | unreadable error => error.message

def detail : Error → String
  | tooLarge size limit =>
    Text.record "ImageTooLarge" [("size", toString size), ("max_size", toString limit)]
  | unreadable error =>
    let parts :=
      [("code", toString error.code), ("kind", error.kind), ("message", error.message.quote)]
    "Io(" ++ Text.record "Os" parts ++ ")"

end Error

/-- The bytes as an image, if there are not too many. -/
def check (kind : Kind) (bytes : List UInt8) : Except Error (List UInt8) :=
  if bytes.length > kind.limit then .error (.tooLarge bytes.length kind.limit) else .ok bytes

def ofFile (kind : Kind) : Except FileError (List UInt8) → Except Error (List UInt8)
  | .error error => .error (.unreadable error)
  | .ok bytes => check kind bytes

end Chip8.Image
