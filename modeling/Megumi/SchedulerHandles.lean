import Megumi.SchedulerDrain

/-!
# The handles of `clk_sys_queue_`

`Device::schedule` returns the `ClockEvent*` it allocates, and `Device::unschedule` erases the
first queued event with that pointer (`src/device.cpp`). A pointer is modelled by the handle
`nextHandle` that `schedule` hands out and then moves past. Along every run of the scheduler the
queued events have distinct handles, all below `nextHandle` (`Handles`); so `unschedule` of the
handle `schedule` has just returned erases exactly that event, and the queue holds again the
events it held before (`schedule_unschedule`).
-/

namespace Megumi.Sched

open Heap

/-- The handles `Device::unschedule` searches for: those of the queued events are distinct and
below the one `schedule` hands out next. -/
structure Handles (s : Sched) : Prop where
  nodup : (s.events.map ClockEvent.handle).Nodup
  lt : ∀ ev ∈ s.events, ev.handle < s.nextHandle

/-- Two queued events with one handle are one event. -/
theorem Handles.eq_of_handle {s : Sched} (h : Handles s) {a b : ClockEvent} (ha : a ∈ s.events)
    (hb : b ∈ s.events) (hab : a.handle = b.handle) : a = b :=
  Multiset.inj_on_of_nodup_map h.nodup a ha b hb hab

/-- A state whose queued handles, and `nextHandle`, are those of one that has the invariant. -/
theorem Handles.congr {s t : Sched} (h : Handles s)
    (hm : t.events.map ClockEvent.handle = s.events.map ClockEvent.handle)
    (hn : t.nextHandle = s.nextHandle) : Handles t := by
  refine ⟨hm ▸ h.nodup, fun ev hev => ?_⟩
  have hm' : ev.handle ∈ s.events.map ClockEvent.handle := hm ▸ Multiset.mem_map_of_mem _ hev
  obtain ⟨ev', hev', he⟩ := Multiset.mem_map.1 hm'
  exact hn ▸ he ▸ h.lt ev' hev'

/-- A state that holds the events of one with the invariant but one. -/
theorem Handles.of_add {s t : Sched} (h : Handles s) {x : ClockEvent} (he : t.events + {x} = s.events)
    (hn : t.nextHandle = s.nextHandle) : Handles t :=
  ⟨Multiset.nodup_of_le (Multiset.map_le_map (he ▸ Multiset.le_add_right _ _)) h.nodup,
    fun ev hev => hn ▸ h.lt ev (mem_of_add he hev)⟩

theorem Handles.schedule {s : Sched} (h : Handles s) (clock : ClockType) (callback : ClockCallback)
    (ticks priority scale : BitVec 32) : Handles (s.schedule clock callback ticks priority scale) := by
  refine ⟨?_, fun ev hev => ?_⟩
  · rw [schedule_events, Multiset.map_add, Multiset.map_singleton, add_comm, Multiset.singleton_add,
      Multiset.nodup_cons]
    refine ⟨fun hm => ?_, h.nodup⟩
    obtain ⟨ev, hev, he⟩ := Multiset.mem_map.1 hm
    exact absurd (h.lt ev hev) (by rw [he]; exact Nat.lt_irrefl _)
  · rw [schedule_events] at hev
    show ev.handle < s.nextHandle + 1
    rcases Multiset.mem_add.1 hev with hev | hev
    · exact Nat.lt_succ_of_lt (h.lt ev hev)
    · rw [Multiset.mem_singleton.1 hev]; exact Nat.lt_succ_self _

theorem Handles.unschedule {s : Sched} (h : Handles s) (handle : Nat) :
    Handles (s.unschedule handle) := by
  cases hf : s.find handle with
  | none => unfold Sched.unschedule; rw [hf]; exact h
  | some i => exact h.of_add (unschedule_events hf) (by unfold Sched.unschedule; rw [hf])

theorem Handles.fire {s : Sched} (h : Handles s) (next : BitVec 32) (h0 : 0 < s.size) :
    Handles (s.fire next) := by
  by_cases hn : next = 0
  · subst hn; exact h.of_add (fire_events_drop s h0) (by unfold Sched.fire; split <;> rfl)
  · refine h.congr ?_ (by unfold Sched.fire; split <;> rfl)
    have hm := congrArg (Multiset.map ClockEvent.handle) (fire_events_move s hn h0)
    rw [Multiset.map_add, Multiset.map_add, Multiset.map_singleton, Multiset.map_singleton] at hm
    exact add_right_cancel hm

theorem rescale_handle (tick scale : BitVec 32) (ev : ClockEvent) :
    (rescale tick scale ev).handle = ev.handle := by
  unfold rescale; split <;> rfl

theorem Handles.onClockConfigChange {s : Sched} (h : Handles s) (scaleOf : ClockType → BitVec 32) :
    Handles (s.onClockConfigChange scaleOf) :=
  h.congr (by
    rw [onClockConfigChange_events, Multiset.map_map]
    exact Multiset.map_congr rfl fun ev _ => rescale_handle _ _ ev) rfl

theorem Reachable.handles {allowed : Sched → (ClockType → BitVec 32) → Prop} {s : Sched}
    (r : Reachable allowed s) : Handles s := by
  induction r with
  | reset s =>
    have h0 : Handles { s with clkSysTick := 0, size := 0 } :=
      ⟨Multiset.nodup_zero, fun _ hev => absurd hev (Multiset.not_mem_zero _)⟩
    exact h0.schedule _ _ _ _ _
  | schedule _ clock id ticks priority _ _ ih => exact ih.schedule clock _ ticks priority _
  | unschedule handle _ _ ih => exact ih.unschedule handle
  | advance _ _ ih => exact ⟨ih.nodup, ih.lt⟩
  | fire next _ h0 _ _ ih => exact ih.fire next h0
  | configChange _ _ _ _ ih => exact ih.onClockConfigChange _

/-- `find` reaches every queued handle. -/
theorem find_isSome {s : Sched} {j : Nat} (hj : j < s.size) : (s.find (s.queue j).handle).isSome := by
  rw [find, List.find?_isSome]
  exact ⟨j, List.mem_range.2 hj, beq_self_eq_true _⟩

/-- **`unschedule` undoes `schedule`.** In every state the scheduler reaches, the queued events
have distinct handles, all below `nextHandle`; so `Device::unschedule` of the handle that
`Device::schedule` has just returned erases exactly the scheduled event, and the queue holds
the events it held before, whatever was scheduled. -/
theorem schedule_unschedule {allowed : Sched → (ClockType → BitVec 32) → Prop} {s : Sched}
    (r : Reachable allowed s) :
    Handles s ∧ ∀ (clock : ClockType) (callback : ClockCallback) (ticks priority scale : BitVec 32),
      ((s.schedule clock callback ticks priority scale).unschedule s.nextHandle).events = s.events := by
  refine ⟨r.handles, fun clock callback ticks priority scale => ?_⟩
  set s' := s.schedule clock callback ticks priority scale
  have hs' : Handles s' := r.handles.schedule clock callback ticks priority scale
  -- the scheduled event, queued in `s'` under the handle `nextHandle`
  set ev : ClockEvent :=
    ⟨clock, callback, priority, (s.clkSysTick / scale + ticks) * scale, scale, s.nextHandle⟩
  have hev : ev ∈ s'.events := by
    rw [schedule_events]; exact Multiset.mem_add.2 (.inr (Multiset.mem_singleton_self _))
  obtain ⟨j, hj, hqj⟩ := mem_events_iff.1 hev
  obtain ⟨i, hi⟩ := Option.isSome_iff_exists.1 (hqj ▸ find_isSome hj : (s'.find ev.handle).isSome)
  have hrem := unschedule_events hi
  have hqi : s'.queue i = ev := hs'.eq_of_handle (mem_events (find_spec hi).1) hev (find_spec hi).2
  rw [hqi, schedule_events] at hrem
  exact add_right_cancel hrem

theorem reset_schedule_unschedule :
    Reachable (fun _ _ => True) (empty.reset (getClockScale Clk.reset .cpu)) ∧
      Handles (empty.reset (getClockScale Clk.reset .cpu)) ∧
      ∀ (clock : ClockType) (callback : ClockCallback) (ticks priority scale : BitVec 32),
        (((empty.reset (getClockScale Clk.reset .cpu)).schedule clock callback ticks priority
          scale).unschedule (empty.reset (getClockScale Clk.reset .cpu)).nextHandle).events =
          (empty.reset (getClockScale Clk.reset .cpu)).events :=
  ⟨.reset empty, @schedule_unschedule (fun _ _ => True) _ (.reset empty)⟩

end Megumi.Sched
