import Megumi.Scheduler

/-!
# What holds along every run of the scheduler

`Reachable allowed` is every scheduler state from `Device::reset` on, through `schedule`,
`unschedule` of any event but the `stepCPU` one, every pass of `Device::step`'s loop with any
number of ticks returned by the callbacks, and `onClockConfigChange` for any CLK
configuration, on the states where `allowed` permits it. The passes of a `Device::step` call
are separate steps, so the states between two passes are reached too.

`reachable_queue_heap`: `clk_sys_queue_` is a heap with the earliest event at its front and
holds the `stepCPU` event exactly once, so `Device::step` never finds it empty.
-/

namespace Megumi.Sched

open Heap

/-- The states the scheduler reaches. -/
inductive Reachable (allowed : Sched → (ClockType → BitVec 32) → Prop) : Sched → Prop
  | reset (s : Sched) : Reachable allowed (s.reset (getClockScale Clk.reset .cpu))
  | schedule {s : Sched} (clk : Clk) (clock : ClockType) (id : Nat) (ticks priority : BitVec 32) :
      Reachable allowed s → clk.Valid →
      Reachable allowed (s.schedule clock (.block id) ticks priority (getClockScale clk clock))
  | unschedule {s : Sched} (handle : Nat) : Reachable allowed s →
      (∀ j < s.size, (s.queue j).handle = handle → (s.queue j).callback ≠ .stepCpu) →
      Reachable allowed (s.unschedule handle)
  | advance {s : Sched} : Reachable allowed s → 0 < s.size → Reachable allowed s.advance
  | fire {s : Sched} (next : BitVec 32) : Reachable allowed s → 0 < s.size → s.due = true →
      Returns s.front next → Reachable allowed (s.fire next)
  | configChange {s : Sched} (clk : Clk) : Reachable allowed s → clk.Valid →
      allowed s (getClockScale clk) →
      Reachable allowed (s.onClockConfigChange (getClockScale clk))

/-! ## The heap and the `stepCPU` event -/

/-- The callbacks of the queued events. -/
def callbacks (s : Sched) : Multiset ClockCallback := s.events.map ClockEvent.callback

/-- The invariant of `clk_sys_queue_`: a heap holding the `stepCPU` event exactly once. -/
structure Good (s : Sched) : Prop where
  heap : IsHeap clockQueueCmp s.queue s.size
  cpu : s.callbacks.count .stepCpu = 1

theorem Good.size_pos {s : Sched} (g : Good s) : 0 < s.size := by
  have := g.cpu
  rcases Nat.eq_zero_or_pos s.size with h | h
  · simp [callbacks, events, contents, h] at this
  · exact h

theorem reset_good (s : Sched) (scale : BitVec 32) : Good (s.reset scale) := by
  refine ⟨schedule_heap (fun i _ hil => (Nat.not_lt_zero i hil).elim) _ _ _ _ _, ?_⟩
  rw [callbacks, reset, schedule_events]
  rfl

theorem schedule_good {s : Sched} (g : Good s) (clock : ClockType) (id : Nat)
    (ticks priority scale : BitVec 32) : Good (s.schedule clock (.block id) ticks priority scale) :=
  ⟨schedule_heap g.heap _ _ _ _ _, by
    rw [callbacks, schedule_events, Multiset.map_add, Multiset.count_add, ← callbacks, g.cpu]; rfl⟩

theorem unschedule_good {s : Sched} (g : Good s) (handle : Nat)
    (h : ∀ j < s.size, (s.queue j).handle = handle → (s.queue j).callback ≠ .stepCpu) :
    Good (s.unschedule handle) := by
  refine ⟨unschedule_heap s g.heap handle, ?_⟩
  cases hf : s.find handle with
  | none => rw [unschedule, hf]; exact g.cpu
  | some i =>
    obtain ⟨hi, hh⟩ := find_spec hf
    have := congrArg (fun m => (m.map ClockEvent.callback).count .stepCpu) (unschedule_events hf)
    simp only [Multiset.map_add, Multiset.count_add, Multiset.map_singleton,
      Multiset.count_singleton, if_neg (h i hi hh).symm, add_zero] at this
    rw [callbacks, this, ← callbacks, g.cpu]

theorem fire_good {s : Sched} (g : Good s) (next : BitVec 32) (hr : Returns s.front next) :
    Good (s.fire next) := by
  refine ⟨fire_heap g.heap next g.size_pos, ?_⟩
  by_cases hn : next = 0
  · subst hn
    have := congrArg (fun m => (m.map ClockEvent.callback).count .stepCpu)
      (fire_events_drop s g.size_pos)
    have hc : s.front.callback ≠ .stepCpu := fun e => by simpa using hr e
    simp only [Multiset.map_add, Multiset.count_add, Multiset.map_singleton,
      Multiset.count_singleton, if_neg hc.symm, add_zero] at this
    rw [callbacks, this, ← callbacks, g.cpu]
  · have := congrArg (fun m => (m.map ClockEvent.callback).count .stepCpu)
      (fire_events_move s hn g.size_pos)
    simp only [Multiset.map_add, Multiset.count_add, Multiset.map_singleton] at this
    rw [callbacks, add_right_cancel this, ← callbacks, g.cpu]

theorem onClockConfigChange_good {s : Sched} (g : Good s) (scaleOf : ClockType → BitVec 32) :
    Good (s.onClockConfigChange scaleOf) := by
  refine ⟨onClockConfigChange_heap s scaleOf, ?_⟩
  have hcb : ∀ ev : ClockEvent, (rescale s.clkSysTick (scaleOf ev.clock) ev).callback = ev.callback :=
    fun ev => by unfold rescale; split <;> rfl
  rw [callbacks, onClockConfigChange_events, Multiset.map_map]
  simp only [Function.comp_def, hcb]
  exact g.cpu

theorem Reachable.good {allowed : Sched → (ClockType → BitVec 32) → Prop} {s : Sched}
    (r : Reachable allowed s) : Good s := by
  induction r with
  | reset s => exact reset_good s _
  | schedule clk clock id ticks priority _ _ ih => exact schedule_good ih clock id _ _ _
  | unschedule handle _ h ih => exact unschedule_good ih handle h
  | advance _ _ ih => exact ⟨ih.heap, ih.cpu⟩
  | fire next _ _ _ hr ih => exact fire_good ih next hr
  | configChange clk _ _ _ ih => exact onClockConfigChange_good ih _

/-- **`clk_sys_queue_` is always a heap.** In every reachable state, including those between
two passes of `Device::step` where the root's tick was raised before `pop_heap`, the queue is
a heap for `clock_queue_cmp`, its front fires no later than any queued event (by tick, then
priority), and it holds the `stepCPU` event exactly once, so it is never empty. -/
theorem reachable_queue_heap {s : Sched} (r : Reachable (fun _ _ => True) s) :
    IsHeap clockQueueCmp s.queue s.size ∧
      (∀ j < s.size, s.front.tick.toNat < (s.queue j).tick.toNat ∨
        (s.front.tick = (s.queue j).tick ∧ s.front.priority.toNat ≤ (s.queue j).priority.toNat)) ∧
      s.callbacks.count .stepCpu = 1 ∧ 0 < s.size := by
  have g := r.good
  refine ⟨g.heap, fun j hj => ?_, g.cpu, g.size_pos⟩
  have := g.heap.front clockQueueCmp_strictWeak j hj
  rw [← Bool.not_eq_true, clockQueueCmp_iff] at this
  rw [BitVec.toNat_eq]
  unfold front
  omega

theorem reset_queue_heap :
    let s := empty.reset (getClockScale Clk.reset .cpu)
    IsHeap clockQueueCmp s.queue s.size ∧
      (∀ j < s.size, s.front.tick.toNat < (s.queue j).tick.toNat ∨
        (s.front.tick = (s.queue j).tick ∧ s.front.priority.toNat ≤ (s.queue j).priority.toNat)) ∧
      s.callbacks.count .stepCpu = 1 ∧ 0 < s.size :=
  reachable_queue_heap (.reset empty)

end Megumi.Sched
