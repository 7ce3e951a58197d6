import Chip8.Machine.Basic

/-!
Font addresses as the user writes them: decimal, or hexadecimal behind `0x` or `0X`, with a plus
sign in front of the digits allowed. A number is read digit by digit, and the first digit that is
none or takes the value out of sixteen bits decides what is wrong. The font has to start in front
of the program.
-/

namespace Chip8.CommandLine

inductive NumberError where
  | empty
  | invalidDigit
  | tooLarge
  deriving DecidableEq, Repr

def NumberError.message : NumberError → String
  | empty => "cannot parse integer from empty string"
  | invalidDigit => "invalid digit found in string"
  | tooLarge => "number too large to fit in target type"

inductive AddressError where
  | number (error : NumberError)
  /-- The font would start in the program. -/
  | overlapsProgram (address : Nat)
  deriving DecidableEq, Repr

def AddressError.message : AddressError → String
  | number error => error.message
  | overlapsProgram address =>
    "font offset " ++ Text.hexMarked 3 address ++ " overlaps the program area"

/-- The value of a character as a digit of the radix. Letters of either case count from ten on. -/
def digitValue? (radix : Nat) (c : Char) : Option Nat :=
  let value :=
    if '0' ≤ c ∧ c ≤ '9' then c.toNat - '0'.toNat
    else if 'a' ≤ c ∧ c ≤ 'z' then c.toNat - 'a'.toNat + 10
    else if 'A' ≤ c ∧ c ≤ 'Z' then c.toNat - 'A'.toNat + 10
    else radix
  if value < radix then some value else none

/-- Reads digits behind those that made up `value`. -/
def readDigits (radix value : Nat) : List Char → Except NumberError Nat
  | [] => .ok value
  | c :: rest =>
    match digitValue? radix c with
    | none => .error .invalidDigit
    | some digit =>
      if value * radix + digit < UInt16.size then readDigits radix (value * radix + digit) rest
      else .error .tooLarge

/-- Reads a number. A plus sign alone is no number. -/
def readNumber (radix : Nat) : List Char → Except NumberError Nat
  | [] => .error .empty
  | ['+'] => .error .invalidDigit
  | '+' :: digits => readDigits radix 0 digits
  | digits => readDigits radix 0 digits

/-- Reads a number whose radix its beginning tells. -/
def readMarked : List Char → Except NumberError Nat
  | '0' :: 'x' :: digits => readNumber 16 digits
  | '0' :: 'X' :: digits => readNumber 16 digits
  | digits => readNumber 10 digits

def readAddress (text : String) : Except AddressError UInt16 :=
  match readMarked text.toList with
  | .error error => .error (.number error)
  | .ok address =>
    if address < Machine.programOffset then .ok (UInt16.ofNat address)
    else .error (.overlapsProgram address)

end Chip8.CommandLine
