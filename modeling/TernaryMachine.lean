import TernaryMachine.Assembly
import TernaryMachine.Assembly.Error
import TernaryMachine.Assembly.Expression
import TernaryMachine.Assembly.Operand
import TernaryMachine.Assembly.Statement
import TernaryMachine.Charset
import TernaryMachine.CommandLine
import TernaryMachine.CommandLine.Arguments
import TernaryMachine.CommandLine.Folder
import TernaryMachine.CommandLine.Host
import TernaryMachine.CommandLine.Path
import TernaryMachine.Debugger
import TernaryMachine.Digits
import TernaryMachine.Disassembly
import TernaryMachine.Embedding
import TernaryMachine.Exchange
import TernaryMachine.Flags
import TernaryMachine.Image
import TernaryMachine.Instruction
import TernaryMachine.Instruction.Operation
import TernaryMachine.Json
import TernaryMachine.Machine
import TernaryMachine.Machine.Core
import TernaryMachine.Machine.Execution
import TernaryMachine.Main
import TernaryMachine.Numeral
import TernaryMachine.Program
import TernaryMachine.Proofs.Notation
import TernaryMachine.Proofs.Opcode
import TernaryMachine.Proofs.SourceText
import TernaryMachine.Registers
import TernaryMachine.Signed32
import TernaryMachine.Stack
import TernaryMachine.Store
import TernaryMachine.Store.Script
import TernaryMachine.Text.Blank
import TernaryMachine.Text.Decimal
import TernaryMachine.Text.Lines
import TernaryMachine.Text.Printable
import TernaryMachine.Text.Quoted
import TernaryMachine.Trit
import TernaryMachine.Tryte
import TernaryMachine.Word
import TernaryMachine.Proofs.InstructionText
import TernaryMachine.Proofs.RoundTrip
import TernaryMachine.Proofs.Patching
import TernaryMachine.Proofs.Denotation
import TernaryMachine.Proofs.Correspondence
import TernaryMachine.Proofs.ImageText
import TernaryMachine.Proofs.Slicing
import TernaryMachine.Proofs.Interrupts
import TernaryMachine.Proofs.Bounds
import TernaryMachine.Proofs.SafeActions
import TernaryMachine.Proofs.Sessions
import TernaryMachine.Proofs.ContinuousRun
import TernaryMachine.Proofs.Places
import TernaryMachine.Proofs.Effects
import TernaryMachine.Proofs.StepEffects
import TernaryMachine.Proofs.StackContents
import TernaryMachine.Proofs.Subroutines
import TernaryMachine.Proofs.StepView
import TernaryMachine.Proofs.Definitions
import TernaryMachine.Proofs.Relocation
import TernaryMachine.Proofs.Alike
import TernaryMachine.Proofs.Halting
import TernaryMachine.Proofs.EffectiveAddress
import TernaryMachine.Proofs.Mirror
import TernaryMachine.Proofs.OperandGrammar
import TernaryMachine.Proofs.Sweeps
import TernaryMachine.Proofs.Booting
import TernaryMachine.Proofs.PositionIndependence
import TernaryMachine.Proofs.CommentScan
import TernaryMachine.Proofs.Words
import TernaryMachine.Proofs.StatementGrammar
import TernaryMachine.Proofs.LineGrammar
import TernaryMachine.Proofs.LineEdits
import TernaryMachine.Proofs.StringData
import TernaryMachine.Proofs.SymbolRenaming
import TernaryMachine.Proofs.TermRenaming
import TernaryMachine.Proofs.RenamedSource
import TernaryMachine.Proofs.WordHalves
import TernaryMachine.Proofs.ImageRemarks
import TernaryMachine.Proofs.Loading
import TernaryMachine.Proofs.TrapDispatch
import TernaryMachine.Proofs.Expansion
import TernaryMachine.Proofs.Numerals
import TernaryMachine.Proofs.FlagRecord
import TernaryMachine.Proofs.CarryChain
import TernaryMachine.Proofs.RegisterFile
