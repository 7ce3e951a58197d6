import Chip8.Console.Canvas
import Chip8.Console.Tone
import Chip8.Instruction.Encode
import Chip8.Machine.Run
import Chip8.Main
import Chip8.Proofs.Memory
import Chip8.Proofs.Step
import Chip8.Proofs.Execute
import Chip8.Proofs.Reachable
import Chip8.Proofs.Results
import Chip8.Proofs.Calls
import Chip8.Proofs.Encoding
import Chip8.Proofs.Control
import Chip8.Proofs.Slots
import Chip8.Proofs.ProgramCounter
import Chip8.Proofs.KeyWait
import Chip8.Proofs.Patterns
import Chip8.Proofs.Clock
import Chip8.Proofs.DelayTimer
import Chip8.Proofs.Beeps
import Chip8.Proofs.Footprint
import Chip8.Proofs.Noninterference
import Chip8.Proofs.Settings
import Chip8.Proofs.Stuck
import Chip8.Proofs.FontPlacement
import Chip8.Proofs.Transfers
import Chip8.Proofs.Blocks
import Chip8.Proofs.Drawing
import Chip8.Proofs.Overlays
import Chip8.Proofs.Construction
import Chip8.Proofs.FlaggedArithmetic
import Chip8.Proofs.TickRate
import Chip8.Proofs.SessionCourse
import Chip8.Proofs.Numerals
import Chip8.Proofs.Addresses
import Chip8.Proofs.Picture
import Chip8.Proofs.Tones
import Chip8.Proofs.HeldKeys
import Chip8.Proofs.LogLines
import Chip8.Proofs.StepReports
import Chip8.Proofs.RunLog
import Chip8.Proofs.Checked.Arithmetic
import Chip8.Proofs.Checked.Parts
import Chip8.Proofs.Checked.Machine
import Chip8.Proofs.Checked.Loops
import Chip8.Proofs.Checked.Safety
import Chip8.Proofs.Accesses
