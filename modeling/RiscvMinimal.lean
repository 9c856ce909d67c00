import RiscvMinimal.Lib.Clocked
import RiscvMinimal.Lib.Division
import RiscvMinimal.Lib.Fuel
import RiscvMinimal.Rv32.Machine
import RiscvMinimal.IoRegisters
import RiscvMinimal.Storage
import RiscvMinimal.RamAccesses
import RiscvMinimal.Arithmetic
import RiscvMinimal.Pipe3.Traps
import RiscvMinimal.Pipe3.TrapEntry
import RiscvMinimal.Pipe3.TrapAgreement
import RiscvMinimal.Pipe3.TrapReturn
import RiscvMinimal.Pipe3.Forwarding
import RiscvMinimal.Pipe3.Jumps
import RiscvMinimal.Pipe3.Accesses
import RiscvMinimal.Pipe3.Instructions
import RiscvMinimal.Pipe3.MdUnit
import RiscvMinimal.Pipe3.TrapCsrs
import RiscvMinimal.Pipe3.FetchedWord
import RiscvMinimal.Pipe3.Instret
import RiscvMinimal.Pipe3.UsartReads
import RiscvMinimal.Pipe3.CsrExact
import RiscvMinimal.Pipe3.Transparent
import RiscvMinimal.Software.SerialLink
import RiscvMinimal.UsartLoopback
import RiscvMinimal.Pipe2.InOrder
import RiscvMinimal.Pipe2.LostExceptions
import RiscvMinimal.Pipe2.CsrWrites
import RiscvMinimal.Loader.Synthesis
import RiscvMinimal.Loader.Stored
import RiscvMinimal.Loader.Termination
import RiscvMinimal.Loader.Export
import RiscvMinimal.Loader.Mif
import RiscvMinimal.Loader.Bounds
import RiscvMinimal.MulDivRuns
import RiscvMinimal.Timer1
import RiscvMinimal.LegalWords
import RiscvMinimal.Pipe2.Instret
import RiscvMinimal.UsartParity
import RiscvMinimal.Pipe2.Sequential
import RiscvMinimal.Pipe2.PlainAlu
import RiscvMinimal.SystemTimer
import RiscvMinimal.Software.TimeReading
import RiscvMinimal.Software.TimerHandler
import RiscvMinimal.Software.TrapDispatch
import RiscvMinimal.Software.Hex
import RiscvMinimal.Software.CommandLine
import RiscvMinimal.Software.Readback
import RiscvMinimal.Software.Sbrk
import RiscvMinimal.Pipe2.UniversalHandler
import RiscvMinimal.Equivalence
import RiscvMinimal.RomOnly.Agreement
