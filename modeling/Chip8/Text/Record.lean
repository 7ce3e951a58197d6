/-!
The text of a value with named parts: its name, then the parts in braces. A value without parts is
its name alone.
-/

namespace Chip8.Text

/-- Named parts with their values, in the order in which they are printed. -/
abbrev Fields := List (String × String)

/-- A part is printed as its name, a colon and its value. -/
def field : String × String → String
  | (name, value) => name ++ ": " ++ value

def record (name : String) : Fields → String
  | [] => name
  | fields => name ++ " \x7b " ++ ", ".intercalate (fields.map field) ++ " \x7d"

end Chip8.Text
