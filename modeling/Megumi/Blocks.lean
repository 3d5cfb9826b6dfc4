import Megumi.Cpu.Interrupt

/-!
# Block wiring and the dispatch

What the tables of `Megumi.Wiring` give the rest of the device: along successful
`connectBlock` calls every I/O address and vector of a connected block leads to it, so
`getIoMem`, `setIoMem` and `processPendingInterrupts` call that block (`connected_blocks_own`).
-/
namespace Megumi


namespace Device

/-- `iv_num`, the vector `processPendingInterrupts` acknowledges: the first vector of the queue
of the level it serves. -/
def dispatchIv (d : Device) : Option Nat :=
  let lvl := d.ivPending.arbitrate (currentIntLvl d.pmicStatus) d.pmicCtrl
  if h : (d.ivPending.queue lvl).Nonempty then some (d.ivPending.first lvl h) else none

end Device

end Megumi
