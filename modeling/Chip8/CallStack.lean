import Chip8.Fault

/-!
The call stack: return addresses, the newest first, at most 254 of them.
-/

namespace Chip8

/-- The return addresses of the calls under way, the newest first. -/
structure CallStack where
  frames : List UInt16
  deriving DecidableEq, Repr

namespace CallStack

abbrev capacity : Nat := 254

def empty : CallStack := ⟨[]⟩

def depth (s : CallStack) : Nat := s.frames.length

/-- Saves a return address, unless the stack is full. -/
def push (s : CallStack) (address : UInt16) : Except Fault CallStack :=
  if s.depth < capacity then .ok ⟨address :: s.frames⟩ else .error (.stackOverflow s.depth)

def pop? (s : CallStack) : Option (UInt16 × CallStack) :=
  match s.frames with
  | [] => none
  | address :: rest => some (address, ⟨rest⟩)

theorem pop?_push {s t : CallStack} {address : UInt16} (h : s.push address = .ok t) :
    t.pop? = some (address, s) := by
  unfold push at h
  split at h
  · cases h
    rfl
  · contradiction

end CallStack

end Chip8
