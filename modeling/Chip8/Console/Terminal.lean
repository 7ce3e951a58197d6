import Chip8.Console.Session

/-!
A terminal in place of the window: every cell is two characters wide, and every picture is printed
over the one before. A terminal tells nothing about held keys, so none is held, and the session is
closed when the machine has halted and the last tone is over.
-/

namespace Chip8.Console.Terminal

def cellText (lit : Bool) : String := if lit then "██" else "  "

def frameText (s : Screen) : String :=
  "\x1b[H" ++ String.join (s.rows.map fun row => String.join (row.map cellText) ++ "\n")

def clearText : String := "\x1b[2J"

/-- The text of a call to the sound device. A tone rings the terminal's bell once. -/
def callText : AudioCall → String
  | .resume => "\x07"
  | .openDevice _ | .pause => ""

/-- What the user does: nothing, until there is nothing more to see or to hear. -/
def poll (s : Session) : Poll :=
  if s.halted && s.beeper.started?.isNone then .quit else .keys .released

end Chip8.Console.Terminal
