import Chip8.CommandLine.Address

/-!
The command line: the program's path, the switches `--load_store` and `--shift`, the options
`--font` and `--font-offset` with one value each, and requests for help or the version. Arguments
are read from the left and the first thing that is wrong decides.

A value that stands in an argument of its own is taken in two moves: it is noted when it is met, and
checked when the next known argument comes up or the line ends. So an argument that nobody knows is
refused before a noted value in front of it is looked at.
-/

namespace Chip8.CommandLine

structure Arguments where
  program : String
  loadStore : Bool
  shift : Bool
  font? : Option String
  fontOffset : UInt16
  deriving DecidableEq, Repr

inductive Refusal where
  | missingProgram
  /-- An option that does not exist, or a second path. -/
  | unknownArgument
  /-- A switch or an option that was given before. -/
  | repeatedArgument
  /-- An option without its value, or an empty path. -/
  | missingValue
  /-- A value for something that takes none. -/
  | unwantedValue
  /-- A font address that cannot be used. -/
  | unusableValue (error : AddressError)
  deriving DecidableEq, Repr

/-- Why the arguments do not lead to a run. -/
inductive Stop where
  | help
  | version
  | refused (refusal : Refusal)
  deriving DecidableEq, Repr

inductive Slot where
  | program | font | fontOffset
  deriving DecidableEq, Repr

/-- The values and switches that were found and checked. -/
structure Draft where
  program? : Option String
  loadStore : Bool
  shift : Bool
  font? : Option String
  fontOffset? : Option UInt16
  deriving DecidableEq, Repr

namespace Draft

def empty : Draft := ⟨none, false, false, none, none⟩

def has (draft : Draft) : Slot → Bool
  | .program => draft.program?.isSome
  | .font => draft.font?.isSome
  | .fontOffset => draft.fontOffset?.isSome

def put (draft : Draft) (slot : Slot) (value : String) : Except Stop Draft :=
  if draft.has slot then .error (.refused .repeatedArgument)
  else
    match slot with
    | .program =>
      if value.isEmpty then .error (.refused .missingValue)
      else .ok { draft with program? := some value }
    | .font =>
      if value.isEmpty then .error (.refused .missingValue)
      else .ok { draft with font? := some value }
    | .fontOffset =>
      match readAddress value with
      | .error error => .error (.refused (.unusableValue error))
      | .ok address => .ok { draft with fontOffset? := some address }

/-- Turns a switch on, once. -/
def turnOn (draft : Draft) : Setting → Except Stop Draft
  | .loadStore =>
    if draft.loadStore then .error (.refused .repeatedArgument)
    else .ok { draft with loadStore := true }
  | .shift =>
    if draft.shift then .error (.refused .repeatedArgument)
    else .ok { draft with shift := true }

def finish (draft : Draft) : Except Stop Arguments :=
  match draft.program? with
  | none => .error (.refused .missingProgram)
  | some program =>
    .ok ⟨program, draft.loadStore, draft.shift, draft.font?, draft.fontOffset?.getD 0⟩

end Draft

/-- A slot whose value is awaited, or noted and not checked yet. -/
structure Pending where
  slot : Slot
  value? : Option String
  deriving DecidableEq, Repr

structure Reading where
  draft : Draft
  pending? : Option Pending
  /-- Whether options were ended, so that everything that follows is a path. -/
  pathsOnly : Bool
  deriving DecidableEq, Repr

inductive Word where
  /-- The two dashes that end options. -/
  | endOfOptions
  /-- A name behind two dashes, with the value behind the first equals sign, if there is one. -/
  | long (name : String) (value? : Option String)
  /-- A letter behind one dash; what follows the letter does not matter. -/
  | short (letter : Char)
  | plain (text : String)
  deriving DecidableEq, Repr

/-- The part of a text in front of the first equals sign, and the part behind it, if there is one. -/
def splitAtEquals (text : List Char) : String × Option String :=
  let name := String.ofList (text.takeWhile (· != '='))
  match text.dropWhile (· != '=') with
  | [] => (name, none)
  | _ :: value => (name, some (String.ofList value))

/-- The form of an argument. A single dash is a path. -/
def Word.ofArgument (text : String) : Word :=
  match text.toList with
  | ['-', '-'] => .endOfOptions
  | '-' :: '-' :: rest =>
    let (name, value?) := splitAtEquals rest
    .long name value?
  | '-' :: letter :: _ => .short letter
  | _ => .plain text

inductive Known where
  | switch (setting : Setting)
  | option (slot : Slot)
  | request (stop : Stop)
  deriving DecidableEq, Repr

def Known.ofName? : String → Option Known
  | "load_store" => some (.switch .loadStore)
  | "shift" => some (.switch .shift)
  | "font" => some (.option .font)
  | "font-offset" => some (.option .fontOffset)
  | "help" => some (.request .help)
  | "version" => some (.request .version)
  | _ => none

def Known.ofLetter? : Char → Option Stop
  | 'h' => some .help
  | 'V' => some .version
  | _ => none

namespace Reading

def start : Reading := ⟨.empty, none, false⟩

def settle (r : Reading) : Except Stop Draft :=
  match r.pending? with
  | none => .ok r.draft
  | some ⟨_, none⟩ => .error (.refused .missingValue)
  | some ⟨slot, some value⟩ => r.draft.put slot value

/-- Goes on with a draft in which everything is checked. -/
def settled (r : Reading) (draft : Draft) : Reading := { r with draft, pending? := none }

def path (r : Reading) (text : String) : Except Stop Reading :=
  if r.draft.program?.isSome || r.pending?.any (·.slot == .program) then
    .error (.refused .unknownArgument)
  else do
    let draft ← r.settle
    return { r with draft, pending? := some ⟨.program, some text⟩ }

def known (r : Reading) : Known → Option String → Except Stop Reading
  | .switch _, some _ | .request _, some _ => .error (.refused .unwantedValue)
  | .switch setting, none => do
    let draft ← r.settle
    return r.settled (← draft.turnOn setting)
  | .request stop, none => do
    let _ ← r.settle
    .error stop
  | .option slot, some value => do
    let draft ← r.settle
    return r.settled (← draft.put slot value)
  | .option slot, none => do
    let draft ← r.settle
    return { r with draft, pending? := some ⟨slot, none⟩ }

def next (r : Reading) (text : String) : Except Stop Reading :=
  if r.pathsOnly then r.path text
  else
    match Word.ofArgument text with
    | .endOfOptions => .ok { r with pathsOnly := true }
    | .long name value? =>
      match Known.ofName? name with
      | none => .error (.refused .unknownArgument)
      | some word => r.known word value?
    | .short letter =>
      match Known.ofLetter? letter with
      | none => .error (.refused .unknownArgument)
      | some stop => r.known (.request stop) none
    | .plain value =>
      match r.pending? with
      | some ⟨slot, none⟩ => .ok { r with pending? := some ⟨slot, some value⟩ }
      | _ => r.path value

def finish (r : Reading) : Except Stop Arguments := do
  let draft ← r.settle
  draft.finish

end Reading

/-- Reads the arguments behind the program's own name. -/
def Arguments.read (arguments : List String) : Except Stop Arguments := do
  let reading ← arguments.foldlM Reading.next .start
  reading.finish

end Chip8.CommandLine
