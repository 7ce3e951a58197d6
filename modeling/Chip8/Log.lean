/-!
Log lines and their levels. A threshold lets the lines of its own level and of every graver one
through.
-/

namespace Chip8

namespace Log

/-- How grave a line is, the gravest first. -/
inductive Level where
  | error | warn | info | debug | trace
  deriving DecidableEq, Repr

namespace Level

def rank : Level → Nat
  | error => 0
  | warn => 1
  | info => 2
  | debug => 3
  | trace => 4

def label : Level → String
  | error => "ERROR"
  | warn => "WARN"
  | info => "INFO"
  | debug => "DEBUG"
  | trace => "TRACE"

def ofName? : String → Option Level
  | "error" => some error
  | "warn" => some warn
  | "info" => some info
  | "debug" => some debug
  | "trace" => some trace
  | _ => none

end Level

structure Line where
  level : Level
  text : String
  deriving DecidableEq, Repr

def Line.render (line : Line) : String := line.level.label ++ " " ++ line.text

/-- The lines that a threshold lets through; without a threshold none passes. -/
def passing (threshold? : Option Level) (lines : List Line) : List Line :=
  match threshold? with
  | none => []
  | some threshold => lines.filter fun line => line.level.rank ≤ threshold.rank

end Log

end Chip8
