/-!
Numbers in hexadecimal, as error messages and log lines print them: upper-case digits, filled with
zeros from the left up to a least width.
-/

namespace Chip8.Text

/-- The upper-case hexadecimal digits of `n`, at least `width` of them. -/
def hex (width n : Nat) : String :=
  String.ofList (((Nat.toDigits 16 n).map Char.toUpper).leftpad width '0')

/-- `hex` behind the mark `0x`, which does not count towards the width. -/
def hexMarked (width n : Nat) : String := "0x" ++ hex width n

end Chip8.Text
