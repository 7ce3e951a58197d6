import Chip8.CommandLine.Arguments
import Chip8.Console.Notice
import Chip8.Image.Basic

/-!
From the command line to a machine: the arguments are read, then the program image, then the font
image if one is named, and the machine is built with the settings that the switches ask for. How
files are read is left open.
-/

namespace Chip8.Console

inductive Launch where
  /-- The command line does not lead to a run. -/
  | stopped (stop : CommandLine.Stop)
  /-- An image is missing. -/
  | failed (error : Image.Error)
  | ready (machine : Machine)

namespace Launch

def follow (setting : Setting) (given : Bool) : Machine × List Notice → Machine × List Notice
  | (machine, notices) =>
    if given then
      let (enabled, events) := machine.enable setting
      (enabled, notices ++ events.map .machine ++ [.switchedOn setting])
    else (machine, notices)

def build (arguments : CommandLine.Arguments) (program font : List UInt8) :
    Machine × List Notice :=
  let (machine, events) := Machine.build program font arguments.fontOffset
  follow .shift arguments.shift <|
    follow .loadStore arguments.loadStore (machine, events.map .machine)

/-- The image in a file, with the notice that it was read if it is accepted. -/
def image (kind : Image.Kind) (path : String) (content : Except FileError (List UInt8)) :
    Except Image.Error (List UInt8) × List Notice :=
  match Image.ofFile kind content with
  | .error error => (.error error, [])
  | .ok bytes => (.ok bytes, [.imageRead bytes.length path])

/-- The font image, which is the built-in one if no file is named. -/
def fontImage {m : Type → Type} [Monad m] (readFile : String → m (Except FileError (List UInt8))) :
    Option String → m (Except Image.Error (List UInt8) × List Notice)
  | none => pure (.ok Font.builtIn, [])
  | some path => return image .font path (← readFile path)

/-- Launches from the arguments behind the program's own name. -/
def run {m : Type → Type} [Monad m] (readFile : String → m (Except FileError (List UInt8)))
    (arguments : List String) : m (Launch × List Notice) := do
  match CommandLine.Arguments.read arguments with
  | .error stop => return (.stopped stop, [])
  | .ok arguments =>
    match image .program arguments.program (← readFile arguments.program) with
    | (.error error, notices) => return (.failed error, notices)
    | (.ok program, notices) =>
      match ← fontImage readFile arguments.font? with
      | (.error error, more) => return (.failed error, notices ++ more)
      | (.ok font, more) =>
        let (machine, built) := build arguments program font
        return (.ready machine, notices ++ more ++ built)

end Launch

end Chip8.Console
