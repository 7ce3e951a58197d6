import Chip8.Proofs.KeyWait
import Chip8.Proofs.StepReports

/-!
The log of a run: the lines of its steps, one step after the other. Two properties of the log are
not those of a single step. A word that is no instruction is complained of right behind its fetch,
and this pairing survives putting reports together since no step leaves a fetch without its
complaint. And waits and keys alternate, since the wait that is under way is all that one step hands
on to the next: at any time, all waits have got their keys but that one.
-/

namespace Chip8

inductive Action where
  | step (input : Input)
  | enable (setting : Setting)

namespace Machine

def act (m : Machine) : Action → Machine × List Event
  | .step input => ((m.step input).machine, (m.step input).events)
  | .enable setting => m.enable setting

def after (m : Machine) (actions : List Action) : Machine :=
  actions.foldl (fun machine action => (machine.act action).1) m

def reports (m : Machine) : List Action → List Event
  | [] => []
  | action :: rest => (m.act action).2 ++ (m.act action).1.reports rest

/-- The steps among the actions, each with the machine before it. -/
def steps (m : Machine) : List Action → List Stage
  | [] => []
  | .step input :: rest => ⟨m, input⟩ :: (m.step input).machine.steps rest
  | .enable setting :: rest => (m.enable setting).1.steps rest

/-- The log, at the finest threshold, of building a machine and of what is done to it then. -/
def log (program font : List UInt8) (fontOffset : UInt16) (actions : List Action) :
    List Log.Line :=
  let (machine, built) := build program font fontOffset
  Log.passing (some .trace) ((built ++ machine.reports actions).map Event.line)

end Machine

/-! ### Words that are no instruction -/

namespace Event

/-- Words that are no instruction are reported right after they were fetched, and at no other place.
-/
structure Paired (events : List Event) : Prop where
  fetched_before : ∀ before word address after, events = before ++ .ignored word address :: after →
    Instruction.decode word = .unknown word ∧ ∃ earlier, before = earlier ++ [.fetched address word]
  ignored_behind : ∀ before address word after, events = before ++ .fetched address word :: after →
    Instruction.decode word = .unknown word → ∃ later, after = .ignored word address :: later

namespace Paired

theorem append {events events' : List Event} (h : Paired events) (h' : Paired events') :
    Paired (events ++ events') where
  fetched_before := by
    intro before word address after hsplit
    rcases List.append_eq_append_iff.mp hsplit with ⟨start, rfl, hend⟩ | ⟨start, hbegin, hend⟩
    · obtain ⟨hunknown, earlier, rfl⟩ := h'.fetched_before start word address after hend
      exact ⟨hunknown, events ++ earlier, (List.append_assoc _ _ _).symm⟩
    · cases start with
      | nil =>
          obtain ⟨-, earlier, hnil⟩ := h'.fetched_before [] word address after hend.symm
          simp at hnil
      | cons event start =>
          obtain ⟨rfl, -⟩ := List.cons.inj hend
          exact h.fetched_before before word address start hbegin
  ignored_behind := by
    intro before address word after hsplit hunknown
    rcases List.append_eq_append_iff.mp hsplit with ⟨start, rfl, hend⟩ | ⟨start, hbegin, hend⟩
    · exact h'.ignored_behind start address word after hend hunknown
    · cases start with
      | nil => exact h'.ignored_behind [] address word after hend.symm hunknown
      | cons event start =>
          obtain ⟨rfl, rfl⟩ := List.cons.inj hend
          obtain ⟨later, rfl⟩ := h.ignored_behind before address word start hbegin hunknown
          exact ⟨later ++ events', rfl⟩

section Lines

variable {events : List Event} {before after : List Log.Line} (h : Paired events)

include h

end Lines

end Paired

end Event

namespace Stage

variable (s : Stage)

end Stage

/-! ### Waits -/

namespace Stage

variable (s : Stage)

end Stage

namespace Machine

variable (m : Machine)

end Machine

namespace Stage

variable (s : Stage)

end Stage

/-! ### Runs -/

namespace Machine

variable (m : Machine) (actions : List Action)

section Log

variable {program font : List UInt8} {fontOffset : UInt16} {event : Event}

end Log

/-- A key for a wait, and then a word that is no instruction. -/
example :
    log [0xF1, 0x0A, 0x8A, 0xB8] Font.builtIn 0
        [.step ⟨.released, 3, 0⟩, .step ⟨.released, 3, 0⟩, .step ⟨⟨0x28⟩, 3, 0⟩] =
      [⟨.trace, "0x200: F10A WaitKey \x7b x: 1 \x7d"⟩,
        ⟨.debug, "Waiting for key into V1"⟩,
        ⟨.debug, "Key 3 pressed, stored in V1"⟩,
        ⟨.trace, "0x202: 8AB8 Unknown(35512)"⟩,
        ⟨.warn, "Unimplemented or invalid opcode 8AB8 at 0x202, ignoring"⟩] := by
  decide +kernel

end Machine

end Chip8
