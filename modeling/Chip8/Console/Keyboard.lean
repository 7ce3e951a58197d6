import Chip8.Keypad

/-!
The keyboard as a keypad. The sixteen keys lie in the four left columns of the keyboard, one row of
the keypad in each of four rows, and the Escape key ends the run, as does closing the window.
-/

namespace Chip8.Console

/-- The number of a key by its position on the keyboard. -/
abbrev Scancode := Nat

/-- The number of a key by what it produces: the code of its character, or a number from 2³⁰ on. -/
abbrev Keycode := Int

def Keycode.escape : Keycode := 27

/-- The characters of the keyboard that stand for a key of the keypad, the keys in order. -/
def keyLayout : List (Char × Key) :=
  ['x', '1', '2', '3',
   'q', 'w', 'e', 'a',
   's', 'd', 'z', 'c',
   '4', 'r', 'f', 'v'].zip (List.finRange 16)

def Keycode.hexKey? (code : Keycode) : Option Key :=
  (keyLayout.find? fun (character, _) => (character.toNat : Int) == code).map (·.2)

/-- What the key at a position produces. Letters are numbered from 4 on and digits from 30 on, with
zero behind nine; all other keys but Escape are told apart by their positions alone. -/
def Scancode.keycode (position : Scancode) : Keycode :=
  if 4 ≤ position ∧ position ≤ 29 then (position - 4 + 'a'.toNat : Nat)
  else if 30 ≤ position ∧ position ≤ 38 then (position - 30 + '1'.toNat : Nat)
  else if position = 39 then ('0'.toNat : Nat)
  else if position = 41 then Keycode.escape
  else (position + 0x40000000 : Nat)

/-- What the keys produce, by their positions. A key may produce nothing. -/
abbrev Layout := Scancode → Option Keycode

/-- The layout in which each key produces what is printed on it. -/
def Layout.plain : Layout := fun position => some position.keycode

inductive Message where
  | quit
  | other
  deriving DecidableEq, Repr

/-- The keys that are down, and the messages that wait to be taken, the oldest first. -/
structure Keyboard where
  held : List Scancode
  messages : List Message
  deriving DecidableEq, Repr

inductive Poll where
  | keys (pad : Keypad)
  | quit
  deriving DecidableEq, Repr

/-- The keypad with the key held that a code stands for, if it stands for one. -/
def holdCode (pad : Keypad) (code : Keycode) : Keypad :=
  match code.hexKey? with
  | some key => pad.hold key
  | none => pad

/-- What keys that are down tell by their codes, one after the other, when those before them have
told of `pad`. Behind Escape no key is looked at. -/
def Poll.ofCodes (pad : Keypad) : List Keycode → Poll
  | [] => .keys pad
  | code :: rest => if code = Keycode.escape then .quit else ofCodes (holdCode pad code) rest

namespace Keyboard

def idle : Keyboard := ⟨[], []⟩

def press (k : Keyboard) (position : Scancode) : Keyboard :=
  if position ∈ k.held then k else { k with held := position :: k.held }

def release (k : Keyboard) (position : Scancode) : Keyboard :=
  { k with held := k.held.filter (· != position) }

def receive (k : Keyboard) (message : Message) : Keyboard :=
  { k with messages := k.messages ++ [message] }

/-- The messages behind the first request to close the window, if there is one. -/
def afterQuit? : List Message → Option (List Message)
  | [] => none
  | .quit :: rest => some rest
  | .other :: rest => afterQuit? rest

/-- Takes messages until none waits or one wants the window closed, and then looks at the keys in
the order in which they are listed. -/
def poll (k : Keyboard) (layout : Layout := .plain) : Poll × Keyboard :=
  match afterQuit? k.messages with
  | some rest => (.quit, { k with messages := rest })
  | none => (.ofCodes .released (k.held.filterMap layout), { k with messages := [] })

end Keyboard

end Chip8.Console
