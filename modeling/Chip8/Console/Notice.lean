import Chip8.Machine.Event

/-!
What a run of the whole program reports: the machine's own events, and those around the machine.
-/

namespace Chip8

def Setting.switch : Setting → String
  | .loadStore => "--load_store"
  | .shift => "--shift"

namespace Console

inductive Notice where
  /-- An image was read and accepted. -/
  | imageRead (size : Nat) (path : String)
  | machine (event : Event)
  | switchedOn (setting : Setting)
  /-- The machine will not be stepped any more. -/
  | halted
  deriving DecidableEq, Repr

def Notice.line : Notice → Log.Line
  | imageRead size path => ⟨.debug, s!"Read {size} byte image from {path}"⟩
  | machine event => event.line
  | switchedOn setting => ⟨.info, "Enabled " ++ setting.switch⟩
  | halted => ⟨.info, "Program counter left memory, halting"⟩

end Console

end Chip8
