import Core6502.Checkpoint
import Core6502.Main
import Core6502.Proofs.Execution
import Core6502.Proofs.Stack.Cells
import Core6502.Proofs.Footprint.Write
import Core6502.Proofs.Footprint.Read
import Core6502.Proofs.OperandEffect
import Core6502.Proofs.Fusion
import Core6502.Proofs.Stack.Discipline
import Core6502.Proofs.Control.Branch
import Core6502.Proofs.Control.ProgramCounter
import Core6502.Proofs.Timing
import Core6502.Proofs.ModeIndependence
import Core6502.Proofs.Failure
import Core6502.Proofs.Flags.Consulted
import Core6502.Proofs.Flags.Inert
import Core6502.Proofs.Debug.Stop
import Core6502.Proofs.Debug.Session
import Core6502.Proofs.Debug.Recording
import Core6502.Proofs.Debug.Ring
import Core6502.Proofs.Debug.Replay
import Core6502.Proofs.Checkpoint.Reading
import Core6502.Proofs.Checkpoint.Format
import Core6502.Proofs.Checkpoint.Rewind
import Core6502.Proofs.Addressing
import Core6502.Proofs.Arithmetic.Digits
import Core6502.Proofs.Arithmetic.LongSum
import Core6502.Proofs.Runner.Groups
import Core6502.Proofs.Runner.CommandLine
import Core6502.Proofs.Image.Placement
import Core6502.Proofs.Runner.Start
import Core6502.Proofs.Runner.Outcome
import Core6502.Proofs.Flags.Description
import Core6502.Proofs.Arithmetic.LongShift
import Core6502.Proofs.Boundaries
import Core6502.Proofs.Flags.Comparison
import Core6502.Proofs.Debug.Budget
import Core6502.Proofs.Image.Loading
import Core6502.Proofs.Tiling
import Core6502.Proofs.Image.Mapping
import Core6502.Proofs.Runner.Numerals
import Core6502.Proofs.Debug.TraceLine
