import Megumi.Heap.Order
import Megumi.Clk

/-!
# The clock event scheduler

`Device::schedule`, `Device::unschedule`, `Device::step` and `Device::onClockConfigChange`
(`src/device.cpp`) on `clk_sys_tick_` and `clk_sys_queue_`. A callback is an arbitrary
function to the scheduler: `Device::step` only sees the number of ticks it returns, so `fire`
takes that number. `ClockEvent` and `clock_queue_cmp` are declared in `clock.h`, which is not
in the repository.
-/

namespace Megumi

open Function Heap

/-- Which callback an event runs: `Device::reset` binds `Device::stepCPU`, a block binds its
own `step` (`id` names the block). -/
inductive ClockCallback
  | stepCpu
  | block (id : Nat)
  deriving DecidableEq, Repr, Inhabited

/-- `ClockEvent`: the fields `Device::schedule` fills, in its order, and `handle`, the address
`new` gave the event, which `Device::unschedule` compares. -/
structure ClockEvent where
  clock : ClockType
  callback : ClockCallback
  priority : BitVec 32
  tick : BitVec 32
  scale : BitVec 32
  handle : Nat
  deriving DecidableEq, Repr, Inhabited

/-- Modelled from the spec: `clock_queue_cmp`, "order by tick ascending, then by priority
ascending, then stable by insertion order". `clock.h` is not in the repository. An event holds
only what `Device::schedule` gives it, and `Device::step` changes only its tick when it puts it
back, so the insertion order a comparator can read is that of the `schedule` calls, in which
`new` created the events: their handles. The `std` heap algorithms keep at the front an element
no other orders after, so `clockQueueCmp a b` holds when `a` fires after `b`. -/
def clockQueueCmp (a b : ClockEvent) : Bool :=
  b.tick < a.tick || (a.tick == b.tick &&
    (b.priority < a.priority || (a.priority == b.priority && b.handle < a.handle)))

theorem clockQueueCmp_iff (a b : ClockEvent) :
    clockQueueCmp a b = true ↔ b.tick.toNat < a.tick.toNat ∨
      (a.tick.toNat = b.tick.toNat ∧ b.priority.toNat < a.priority.toNat) ∨
      (a.tick.toNat = b.tick.toNat ∧ a.priority.toNat = b.priority.toNat ∧ b.handle < a.handle) := by
  simp only [clockQueueCmp, Bool.or_eq_true, Bool.and_eq_true, beq_iff_eq, decide_eq_true_eq,
    BitVec.lt_def, BitVec.toNat_eq]
  tauto

theorem clockQueueCmp_strictWeak : StrictWeak clockQueueCmp := by
  constructor <;> intros <;> simp only [← Bool.not_eq_true, clockQueueCmp_iff] at * <;> omega

/-- The scheduler's part of `Device`: `clk_sys_tick_`, the vector `clk_sys_queue_` (`queue`
and `size`), and the address the next `new ClockEvent` returns. -/
structure Sched where
  clkSysTick : BitVec 32
  queue : Nat → ClockEvent
  size : Nat
  nextHandle : Nat

namespace Sched

/-- A scheduler with no event queued. `Device::reset` clears the tick and the queue, so what it
starts from does not matter. -/
def empty : Sched := ⟨0, fun _ => default, 0, 0⟩

/-- `clk_sys_queue_.front()`. -/
def front (s : Sched) : ClockEvent := s.queue 0

/-- The events in `clk_sys_queue_`. -/
def events (s : Sched) : Multiset ClockEvent := contents s.queue s.size

/-- `Device::schedule(clock, cb, ticks, priority)`, where `scale` is `getClockScale(clock)`:
the event is pushed at the back and sifted up. Its handle is `nextHandle`. -/
def schedule (s : Sched) (clock : ClockType) (callback : ClockCallback)
    (ticks priority scale : BitVec 32) : Sched :=
  { s with
    queue := pushHeap clockQueueCmp (update s.queue s.size
        { clock, callback, priority, tick := (s.clkSysTick / scale + ticks) * scale, scale,
          handle := s.nextHandle }) (s.size + 1)
    size := s.size + 1
    nextHandle := s.nextHandle + 1 }

/-- The scheduler part of `Device::reset`: tick 0, an empty queue, then `stepCPU` scheduled
on the CPU clock one tick ahead with priority 100; `scale` is the CPU scale of the CLK block
`Device::reset` has just reset. -/
def reset (s : Sched) (scale : BitVec 32) : Sched :=
  schedule { s with clkSysTick := 0, size := 0 } .cpu .stepCpu 1 100 scale

/-- The position `Device::unschedule`'s linear search stops at. -/
def find (s : Sched) (handle : Nat) : Option Nat :=
  (List.range s.size).find? fun i => (s.queue i).handle == handle

/-- `Device::unschedule`: erase the event and rebuild the heap. An unknown handle only logs an
error. -/
def unschedule (s : Sched) (handle : Nat) : Sched :=
  match s.find handle with
  | some i => { s with queue := makeHeap clockQueueCmp (eraseAt s.queue i) (s.size - 1),
                       size := s.size - 1 }
  | none => s

/-- `onClockConfigChange`'s loop body: keep the number of ticks of the event's own clock left
before it fires, counted in the clock's new `scale`. -/
def rescale (tick scale : BitVec 32) (ev : ClockEvent) : ClockEvent :=
  if ev.scale = scale then ev
  else { ev with tick := tick + (ev.tick - tick + ev.scale - 1) / ev.scale * scale, scale }

/-- `Device::onClockConfigChange`, where `scaleOf` is `getClockScale` for the new CLK
configuration. -/
def onClockConfigChange (s : Sched) (scaleOf : ClockType → BitVec 32) : Sched :=
  { s with
    queue := makeHeap clockQueueCmp
      (fun j => rescale s.clkSysTick (scaleOf (s.queue j).clock) (s.queue j)) s.size }

/-- The `assert` of `onClockConfigChange`, for every event whose scale changes. -/
def RescaleAsserts (s : Sched) (scaleOf : ClockType → BitVec 32) : Prop :=
  ∀ j < s.size, (s.queue j).scale ≠ scaleOf (s.queue j).clock →
    ((s.queue j).tick - s.clkSysTick) % (s.queue j).scale = 0

/-- The first line of `Device::step`: the tick jumps to the front event's. -/
def advance (s : Sched) : Sched := { s with clkSysTick := s.front.tick }

/-- The test of `Device::step`'s loop: the front event is due. -/
def due (s : Sched) : Bool := s.front.tick ≤ s.clkSysTick

/-- The rest of one pass of `Device::step`'s loop, once the front event's callback returned
`next`: the event is moved `next` of its clock's ticks ahead (`pop_heap` then `push_heap`),
or dropped when `next` is 0 (`pop_heap` then `pop_back`). -/
def fire (s : Sched) (next : BitVec 32) : Sched :=
  if next ≠ 0 then
    { s with
      queue := pushHeap clockQueueCmp (popHeap clockQueueCmp
        (update s.queue 0 { s.front with tick := s.front.tick + next * s.front.scale }) s.size)
        s.size }
  else { s with queue := popHeap clockQueueCmp s.queue s.size, size := s.size - 1 }

/-- What a callback may return: any number of ticks, except that `Device::stepCPU` always
returns 1. -/
def Returns (ev : ClockEvent) (next : BitVec 32) : Prop := ev.callback = .stepCpu → next = 1

/-! ## The operations on the events -/

theorem find_spec {s : Sched} {handle i : Nat} (h : s.find handle = some i) :
    i < s.size ∧ (s.queue i).handle = handle := by
  obtain ⟨hi, hh⟩ := List.find?_some h, List.mem_of_find?_eq_some h
  exact ⟨List.mem_range.1 hh, by simpa using hi⟩

theorem schedule_events (s : Sched) (clock : ClockType) (callback : ClockCallback)
    (ticks priority scale : BitVec 32) :
    (s.schedule clock callback ticks priority scale).events =
      s.events + {{ clock, callback, priority,
                     tick := (s.clkSysTick / scale + ticks) * scale, scale,
                     handle := s.nextHandle }} := by
  rw [events, schedule, pushHeap_contents _ _ _ (by omega), contents_succ, update_same,
    contents_congr fun j hj => update_noteq (Nat.ne_of_lt hj) _ _]
  rfl

theorem unschedule_events {s : Sched} {handle i : Nat} (h : s.find handle = some i) :
    (s.unschedule handle).events + {s.queue i} = s.events := by
  obtain ⟨hi, -⟩ := find_spec h
  rw [events, unschedule, h]
  dsimp only
  rw [makeHeap_contents, eraseAt_contents _ (by omega), Nat.sub_add_cancel (by omega)]
  rfl

theorem onClockConfigChange_events (s : Sched) (scaleOf : ClockType → BitVec 32) :
    (s.onClockConfigChange scaleOf).events =
      s.events.map fun ev => rescale s.clkSysTick (scaleOf ev.clock) ev := by
  rw [events, onClockConfigChange]
  dsimp only
  rw [makeHeap_contents]
  simp only [events, contents, Multiset.map_map]
  rfl

theorem fire_events_move (s : Sched) {next : BitVec 32} (hn : next ≠ 0) (h0 : 0 < s.size) :
    (s.fire next).events + {s.front} =
      s.events + {{ s.front with tick := s.front.tick + next * s.front.scale }} := by
  unfold fire events
  rw [if_pos hn]
  dsimp only
  rcases Nat.lt_or_ge 1 s.size with h1 | h1
  · rw [pushHeap_contents _ _ _ h0, popHeap_contents _ _ _ h1]
    exact contents_update _ _ h0
  · have : s.size = 1 := by omega
    rw [this, pushHeap_one, popHeap_one]
    exact contents_update _ _ Nat.one_pos

theorem fire_events_drop (s : Sched) (h0 : 0 < s.size) :
    (s.fire 0).events + {s.front} = s.events := by
  unfold fire events
  rw [if_neg (by simp)]
  dsimp only
  rcases Nat.lt_or_ge 1 s.size with h1 | h1
  · exact popHeap_contents_init _ _ _ h1
  · have : s.size = 1 := by omega
    rw [this, popHeap_one]
    exact (contents_succ _ 0).symm

/-! ## The operations keep the heap -/

theorem schedule_heap {s : Sched} (h : IsHeap clockQueueCmp s.queue s.size) (clock : ClockType)
    (callback : ClockCallback) (ticks priority scale : BitVec 32) :
    IsHeap clockQueueCmp (s.schedule clock callback ticks priority scale).queue
      (s.schedule clock callback ticks priority scale).size := by
  refine pushHeap_heap clockQueueCmp_strictWeak _ _ (fun i hi0 hil hti => ?_) (by omega)
  have hp : parent i < i := by unfold parent; omega
  rw [update_noteq (by omega), update_noteq (by omega)]
  exact h i hi0 (by omega) hti

theorem unschedule_heap (s : Sched) (h : IsHeap clockQueueCmp s.queue s.size) (handle : Nat) :
    IsHeap clockQueueCmp (s.unschedule handle).queue (s.unschedule handle).size := by
  unfold unschedule
  split
  · exact makeHeap_heap clockQueueCmp_strictWeak _ _
  · exact h

theorem onClockConfigChange_heap (s : Sched) (scaleOf : ClockType → BitVec 32) :
    IsHeap clockQueueCmp (s.onClockConfigChange scaleOf).queue
      (s.onClockConfigChange scaleOf).size :=
  makeHeap_heap clockQueueCmp_strictWeak _ _

/-- `Device::step` raises the tick of the root, so `pop_heap` runs on a vector that is a
heap below the root only; `push_heap` then puts the event back in order. -/
theorem fire_heap {s : Sched} (h : IsHeap clockQueueCmp s.queue s.size) (next : BitVec 32)
    (h0 : 0 < s.size) : IsHeap clockQueueCmp (s.fire next).queue (s.fire next).size := by
  unfold fire
  split
  · refine pushHeap_heap clockQueueCmp_strictWeak _ _
      (popHeap_heap clockQueueCmp_strictWeak _ _ fun i hi0 hil hpi => ?_) h0
    rw [update_noteq (by omega), update_noteq (by omega)]
    exact h i hi0 hil (Nat.zero_le _)
  · exact popHeap_heap clockQueueCmp_strictWeak _ _ fun i hi0 hil _ => h i hi0 hil (Nat.zero_le _)

end Sched

end Megumi
