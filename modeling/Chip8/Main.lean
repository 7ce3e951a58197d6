import Chip8.CommandLine.Usage
import Chip8.Console.Exit
import Chip8.Console.Terminal

/-!
The command line program. It reads files and the clock and prints; all decisions are made elsewhere.
-/

namespace Chip8.Console

/-- The number of an error of the operating system. Some calls report it negated. -/
def errorNumber (code : UInt32) : Nat := min code.toNat (0 - code).toNat

/-- Reads a file. A failure that no image error stands for is passed on. -/
def readFile (path : String) : IO (Except FileError (List UInt8)) := do
  try
    return .ok (← IO.FS.readBinFile path).toList
  catch failure =>
    match failure with
    | .noFileOrDirectory _ code _ | .permissionDenied _ code _ | .inappropriateType _ code _
    | .invalidArgument _ code _ =>
      match FileError.ofCode? (errorNumber code) with
      | some error => return .error error
      | none => throw failure
    | _ => throw failure

def readThreshold : IO (Option Log.Level) := do
  match ← IO.getEnv "CHIP8VM_LOG" with
  | some name => return Log.Level.ofName? name
  | none => return some .error

def printNotices (threshold? : Option Log.Level) (notices : List Notice) : IO Unit := do
  for line in Log.passing threshold? (notices.map Notice.line) do
    IO.eprintln line.render

def printNow (text : String) : IO Unit := do
  let stdout ← IO.getStdout
  stdout.putStr text
  stdout.flush

partial def playTurns (threshold? : Option Log.Level) (session : Session) : IO Ending := do
  let random ← IO.rand 0 255
  let now ← IO.monoNanosNow
  let result := session.turn ⟨Terminal.poll session, now, UInt8.ofNat random⟩
  printNotices threshold? result.notices
  match result.ending? with
  | some ending => return ending
  | none =>
    printNow (String.join (result.calls.map Terminal.callText) ++
      Terminal.frameText result.session.machine.screen)
    IO.sleep 1
    playTurns threshold? result.session

def play (threshold? : Option Log.Level) (machine : Machine) : IO Ending := do
  printNow Terminal.clearText
  playTurns threshold? (Session.start machine (← IO.monoNanosNow) 1000000)

def printStop : CommandLine.Stop → IO Unit
  | .help => IO.println CommandLine.help
  | .version => IO.println CommandLine.version
  | .refused refusal => IO.eprintln ("error: " ++ refusal.message)

end Chip8.Console

open Chip8 Chip8.Console in
def main (arguments : List String) : IO UInt32 := do
  let threshold? ← readThreshold
  let (launch, notices) ← Launch.run readFile arguments
  printNotices threshold? notices
  match launch with
  | .stopped stop => printStop stop
  | .failed _ | .ready _ => pure ()
  let exit ←
    match launch with
    | .stopped stop => pure (Exit.ofStop stop)
    | .failed error => pure (Exit.failure error.detail)
    | .ready machine => Exit.ofEnding <$> play threshold? machine
  for line in exit.error? do
    IO.eprintln line
  return UInt32.ofNat exit.code
