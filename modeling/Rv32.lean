import Rv32.Main
import Rv32.Proofs.Board.Run
import Rv32.Proofs.Checked.Machine
import Rv32.Proofs.Command.Numeral
import Rv32.Proofs.Device.Clint
import Rv32.Proofs.Device.Fifo
import Rv32.Proofs.Hart.Compressed
import Rv32.Proofs.Hart.Frame
import Rv32.Proofs.Hart.Interruptor
import Rv32.Proofs.Hart.Interrupts
import Rv32.Proofs.Hart.Nesting
import Rv32.Proofs.Hart.PreciseTrap
import Rv32.Proofs.Hart.SetClear
import Rv32.Proofs.Hart.Single
import Rv32.Proofs.Hart.Snapshot
import Rv32.Proofs.Hart.WellFormed
import Rv32.Proofs.Instruction.Arithmetic
import Rv32.Proofs.Instruction.Decode
import Rv32.Proofs.Machine.Reset
import Rv32.Proofs.Machine.Schedule
import Rv32.Proofs.Machine.Translation
import Rv32.Proofs.Mmu.Atomic
import Rv32.Proofs.Mmu.Conditional
import Rv32.Proofs.Mmu.Isolation
import Rv32.Proofs.Paging.Sv32
import Rv32.Proofs.Program.Image
import Rv32.Proofs.Single.Order
