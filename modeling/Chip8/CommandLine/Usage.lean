import Chip8.CommandLine.Arguments

/-!
What the program says about its command line: the help, the version, and why a command line is
refused.
-/

namespace Chip8.CommandLine

def version : String := "chip8vm 0.1.0"

def help : String := "\n".intercalate
  ["Runs a CHIP-8 program.",
   "",
   "Usage: chip8vm [OPTIONS] <PROGRAM>",
   "",
   "Arguments:",
   "  <PROGRAM>  Program image, loaded at 0x200",
   "",
   "Options:",
   "      --load_store                 FX55/FX65 leave the index register unchanged",
   "      --shift                      8XY6/8XYE shift VX in place instead of VY",
   "      --font <FONT>                Font image to use instead of the built-in hex font",
   "      --font-offset <FONT_OFFSET>  Address the font is loaded at [default: 0]",
   "  -h, --help                       Print help",
   "  -V, --version                    Print version"]

def Refusal.message : Refusal → String
  | missingProgram => "a program image is required"
  | unknownArgument => "an argument was not expected"
  | repeatedArgument => "an argument cannot be used more than once"
  | missingValue => "an argument lacks its value"
  | unwantedValue => "an argument takes no value"
  | unusableValue error => "the font offset cannot be used: " ++ error.message

end Chip8.CommandLine
