import Chip8.Architecture
import Chip8.Font
import Chip8.Fault
import Chip8.Text.Hex
import Chip8.Text.Lines
import Chip8.Text.Numeral
import Chip8.Memory
import Chip8.ReturnStack
import Chip8.Timers
import Chip8.Key
import Chip8.Screen
import Chip8.Instruction.Field
import Chip8.Instruction.Opcode
import Chip8.Instruction.Format
import Chip8.Instruction.Basic
import Chip8.Instruction.Arithmetic
import Chip8.Random
import Chip8.Machine.Basic
import Chip8.Machine.Execution
import Chip8.Machine.Cycle
import Chip8.Machine.Loading
import Chip8.Listing.Row
import Chip8.Listing.Assembly
import Chip8.Listing.Dump
import Chip8.Log
import Chip8.Session.Basic
import Chip8.Session.Playback
import Chip8.Command.Arguments
import Chip8.Command.Usage
import Chip8.Command.Report
import Chip8.Host.ChaCha
import Chip8.Host.Random
import Chip8.Host.Logger
import Chip8.Main
import Chip8.Proofs.Refusal
import Chip8.Proofs.History
import Chip8.Proofs.Faults
import Chip8.Proofs.Footprint
import Chip8.Proofs.Calls
import Chip8.Proofs.Insulation
import Chip8.Proofs.Loading
import Chip8.Proofs.Digits
import Chip8.Proofs.Rules
import Chip8.Proofs.Control
import Chip8.Proofs.Bounds
import Chip8.Proofs.Randomness
import Chip8.Proofs.Guarded.Basic
import Chip8.Proofs.Guarded.Storage
import Chip8.Proofs.Guarded.Screen
import Chip8.Proofs.Guarded.Instruction
import Chip8.Proofs.Guarded.Listing
import Chip8.Proofs.Guarded.Machine
import Chip8.Proofs.Guarded
import Chip8.Proofs.Hexadecimal
import Chip8.Proofs.Listing.Lines
import Chip8.Proofs.Listing.Lister
import Chip8.Proofs.Listing
import Chip8.Proofs.Trace
import Chip8.Proofs.DeadState
import Chip8.Proofs.Waiting
import Chip8.Proofs.Frames
import Chip8.Proofs.Assembling
import Chip8.Proofs.Countdown
import Chip8.Proofs.Numerals
import Chip8.Proofs.Requests
import Chip8.Proofs.Printing
import Chip8.Proofs.Outcome
import Chip8.Proofs.Sprites
import Chip8.Proofs.Collisions
import Chip8.Proofs.Changes
import Chip8.Proofs.Accesses
import Chip8.Proofs.Computation
import Chip8.Proofs.Transfer
import Chip8.Proofs.Signals
import Chip8.Proofs.Stacking
import Chip8.Proofs.Wording
import Chip8.Proofs.Buzzer
import Chip8.Proofs.Dump
import Chip8.Proofs.Picture
