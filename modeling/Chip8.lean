import Chip8.Alu
import Chip8.CallStack
import Chip8.CommandLine.Arguments
import Chip8.CommandLine.Help
import Chip8.CommandLine.Session
import Chip8.Count
import Chip8.Decimal.Fixed
import Chip8.Dialect
import Chip8.Fault
import Chip8.FileTree
import Chip8.Font
import Chip8.Instruction
import Chip8.Instruction.Routing
import Chip8.Keypad
import Chip8.Log
import Chip8.Log.Clock
import Chip8.Log.Level
import Chip8.Machine
import Chip8.Machine.Command
import Chip8.Machine.Cycle
import Chip8.Machine.Execute
import Chip8.Machine.Summary
import Chip8.Machine.Watched
import Chip8.Main
import Chip8.Memory
import Chip8.Progress
import Chip8.Proofs.Arithmetic
import Chip8.Proofs.Atomicity
import Chip8.Proofs.Calls
import Chip8.Proofs.Changes
import Chip8.Proofs.Clipping
import Chip8.Proofs.Colours
import Chip8.Proofs.Commands
import Chip8.Proofs.Countdowns
import Chip8.Proofs.Decoding
import Chip8.Proofs.Dialects
import Chip8.Proofs.Drawings
import Chip8.Proofs.Effects
import Chip8.Proofs.FaultCauses
import Chip8.Proofs.FaultReports
import Chip8.Proofs.Flow
import Chip8.Proofs.Glyphs
import Chip8.Proofs.Halting
import Chip8.Proofs.HostRuns
import Chip8.Proofs.Images
import Chip8.Proofs.IndexTransfers
import Chip8.Proofs.Integers
import Chip8.Proofs.KeyPresses
import Chip8.Proofs.KeyWaits
import Chip8.Proofs.KeypadUpdates
import Chip8.Proofs.NextAddresses
import Chip8.Proofs.ProgressBars
import Chip8.Proofs.RandomDraws
import Chip8.Proofs.Reachable
import Chip8.Proofs.ReadSets
import Chip8.Proofs.Readings
import Chip8.Proofs.RegisterStreams
import Chip8.Proofs.RoutingTables
import Chip8.Proofs.Screens
import Chip8.Proofs.SessionOutcomes
import Chip8.Proofs.Sprites
import Chip8.Proofs.StackHistories
import Chip8.Proofs.Stacks
import Chip8.Proofs.Steps
import Chip8.Proofs.Timers
import Chip8.Proofs.Transcripts
import Chip8.Proofs.Transfers
import Chip8.Proofs.Unread
import Chip8.Proofs.Words
import Chip8.Proofs.WriteSets
import Chip8.Random
import Chip8.Screen
import Chip8.Sprite
import Chip8.Text.BinarySize
import Chip8.Text.Digit
import Chip8.Text.Grouped
import Chip8.Text.Hex
import Chip8.Text.Numeral
import Chip8.Text.Printable
import Chip8.Text.Quoted
import Chip8.Word
