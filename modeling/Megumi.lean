import Megumi.Heap.Basic
import Megumi.Heap.Order
import Megumi.Clk
import Megumi.Scheduler
import Megumi.SchedulerRuns
import Megumi.SchedulerTicks
import Megumi.SchedulerDrain
import Megumi.SchedulerHandles
import Megumi.SchedulerTies
import Megumi.SchedulerRescale
import Megumi.Interrupts
import Megumi.Wiring
import Megumi.Cpu.State
import Megumi.Config
import Megumi.Cpu.Ccp
import Megumi.Cpu.IoSpace
import Megumi.Cpu.Decode
import Megumi.Cpu.Execute
import Megumi.Cpu.Opcodes
import Megumi.Cpu.Interrupt
import Megumi.Cpu.Nesting
import Megumi.Cpu.Alu
import Megumi.Cpu.Word
import Megumi.Cpu.Chain
import Megumi.Cpu.Flash
import Megumi.Cpu.Stack
import Megumi.Cpu.Defined
import Megumi.Blocks
import Megumi.Cpu.Dispatch
import Megumi.Cpu.Multibyte
import Megumi.Cpu.Pointer
import Megumi.Cpu.Updates
import Megumi.Cpu.Writes
import Megumi.Cpu.DataSpace
import Megumi.Cpu.Shift
import Megumi.Cpu.Extended
import Megumi.Cpu.Protocol
import Megumi.Cpu.Step
import Megumi.DeviceStep
import Megumi.Frame
import Megumi.Masks
