import WordMachine.Bus.FaultPlan
import WordMachine.Json.Reader
import WordMachine.Machine.Host
import WordMachine.Main
import WordMachine.Proofs.Bus.Layout
import WordMachine.Proofs.Bus.Loading
import WordMachine.Proofs.Bus.Recording
import WordMachine.Proofs.Bus.Words
import WordMachine.Proofs.CommandLine.Report
import WordMachine.Proofs.Cpu.Accesses
import WordMachine.Proofs.Cpu.Arithmetic
import WordMachine.Proofs.Cpu.Branches
import WordMachine.Proofs.Cpu.Calls
import WordMachine.Proofs.Cpu.Events
import WordMachine.Proofs.Cpu.Failures
import WordMachine.Proofs.Cpu.Faults
import WordMachine.Proofs.Cpu.Iteration
import WordMachine.Proofs.Cpu.Memory
import WordMachine.Proofs.Cpu.Registers
import WordMachine.Proofs.Cpu.Stack
import WordMachine.Proofs.Cpu.Stores
import WordMachine.Proofs.Cpu.Synonyms
import WordMachine.Proofs.Hexadecimal
import WordMachine.Proofs.Instruction.Encoding
import WordMachine.Proofs.Instruction.Results
import WordMachine.Proofs.Json.Forms
import WordMachine.Proofs.Json.Text
import WordMachine.Proofs.Json.Variants
import WordMachine.Proofs.Machine.Configuration
import WordMachine.Proofs.Machine.Confinement
import WordMachine.Proofs.Machine.InputPrefix
import WordMachine.Proofs.Machine.Journal
import WordMachine.Proofs.Machine.Limit
import WordMachine.Proofs.Machine.MemoryMap
import WordMachine.Proofs.Machine.RamGuard
import WordMachine.Proofs.Machine.Refinement
import WordMachine.Proofs.Machine.RomImage
import WordMachine.Proofs.Machine.RunLoop
import WordMachine.Proofs.Machine.Runs
import WordMachine.Proofs.Machine.Sessions
import WordMachine.Proofs.Machine.Steps
import WordMachine.Proofs.Machine.Store
import WordMachine.Proofs.Machine.Streams
import WordMachine.Proofs.Machine.Tracing
import WordMachine.Proofs.Registers.Dump
