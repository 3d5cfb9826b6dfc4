import Megumi.SchedulerTicks

/-!
# One call of `Device::step`

`Device::step` (`src/device.cpp`) sets `clk_sys_tick_` to the front event's tick and loops:
while the front event is due, it runs its callback and moves the event `next` of its clock's
ticks ahead, or drops it when `next` is 0. `drain` is that loop with a bound on its passes; the
callback of pass `k` returns `ret k ev` on its event `ev`, so nothing is assumed of the
callbacks beyond what `Returns` says of `stepCPU`.

The loop stops because each pass takes one event of the front tick away and puts nothing back at
that tick, as long as the event moves (`0 < scale`) without wrapping (`tick + next * scale`
below `2^32`). Then one call runs each event of the front tick once, in priority order, and no
other (`step_fires_due_once`). Every scale the scheduler stores is one `getClockScale` gave, a
divisor of 4096 (`Reachable.scale_dvd`), so on every reachable queue only the no-wrap condition
is left (`reachable_step_fires_due_once`).
-/

namespace Megumi.Sched

open Function Heap

/-- `Device::step`'s loop, for at most `fuel` passes: the callback of pass `k` returns
`ret k ev` on its event `ev`. The result lists the fired events with what their callbacks
returned, in order, and the state the loop stops in; `none` when the fuel runs out, or when the
queue is empty at the test (`front()` of an empty vector). -/
def drain (ret : Nat → ClockEvent → BitVec 32) (fuel : Nat) (s : Sched) :
    Option (List (ClockEvent × BitVec 32) × Sched) :=
  if s.size = 0 then none
  else if s.due then
    match fuel with
    | 0 => none
    | fuel + 1 => (drain (fun k => ret (k + 1)) fuel (s.fire (ret 0 s.front))).map
        fun r => ((s.front, ret 0 s.front) :: r.1, r.2)
  else some ([], s)

/-- `Device::step`: the tick jumps to the front event's, then the loop runs. -/
def step (ret : Nat → ClockEvent → BitVec 32) (fuel : Nat) (s : Sched) :
    Option (List (ClockEvent × BitVec 32) × Sched) :=
  drain ret fuel s.advance

theorem drain_not_due {s : Sched} (h0 : 0 < s.size) (hd : s.due = false)
    (ret : Nat → ClockEvent → BitVec 32) (fuel : Nat) : drain ret fuel s = some ([], s) := by
  unfold drain
  rw [if_neg (by omega), if_neg (by simp [hd])]

theorem drain_due {s : Sched} (h0 : 0 < s.size) (hd : s.due = true)
    (ret : Nat → ClockEvent → BitVec 32) (fuel : Nat) :
    drain ret (fuel + 1) s = (drain (fun k => ret (k + 1)) fuel (s.fire (ret 0 s.front))).map
      fun r => ((s.front, ret 0 s.front) :: r.1, r.2) := by
  conv_lhs => unfold drain
  rw [if_neg (by omega), if_pos hd]

/-! ## The front event -/

theorem mem_events_iff {s : Sched} {ev : ClockEvent} :
    ev ∈ s.events ↔ ∃ j < s.size, s.queue j = ev := by
  simp [events, contents]

/-- The front of the heap fires no later than any queued event: it has the least tick, and the
least priority among the events of that tick. -/
theorem Good.front_le {s : Sched} (g : Good s) {ev : ClockEvent} (hev : ev ∈ s.events) :
    s.front.tick.toNat ≤ ev.tick.toNat ∧
      (ev.tick = s.front.tick → s.front.priority.toNat ≤ ev.priority.toNat) := by
  obtain ⟨j, hj, rfl⟩ := mem_events_iff.1 hev
  have := g.heap.front clockQueueCmp_strictWeak j hj
  rw [← Bool.not_eq_true, clockQueueCmp_iff] at this
  rw [BitVec.toNat_eq]
  unfold front
  omega

/-- One pass, read on the events: the front event leaves, and comes back moved when its callback
returned a non-zero `next`. -/
theorem fire_events (s : Sched) (h0 : 0 < s.size) (next : BitVec 32) :
    (s.fire next).events + {s.front} = s.events +
      if next = 0 then 0 else {{ s.front with tick := s.front.tick + next * s.front.scale }} := by
  split
  · subst next; rw [add_zero]; exact fire_events_drop s h0
  · exact fire_events_move s ‹_› h0

/-! ## One pass at the front tick -/

section Pass

variable {T : BitVec 32} {u : Sched} {next : BitVec 32}

/-- A moved event of scale at least 1 that does not wrap lands after `T`. -/
theorem toNat_moved (hT : u.front.tick = T) (hs : 0 < u.front.scale.toNat)
    (hfit : u.front.tick.toNat + next.toNat * u.front.scale.toNat < 2 ^ 32) (hn : next ≠ 0) :
    T.toNat < (u.front.tick + next * u.front.scale).toNat := by
  have hn' : 0 < next.toNat := by
    rcases Nat.eq_zero_or_pos next.toNat with h | h
    · exact absurd (BitVec.eq_of_toNat_eq (by simpa using h)) hn
    · exact h
  have hprod : next.toNat * u.front.scale.toNat < 2 ^ 32 := by omega
  rw [BitVec.toNat_add, BitVec.toNat_mul, Nat.mod_eq_of_lt hprod, Nat.mod_eq_of_lt hfit, ← hT]
  exact Nat.lt_add_of_pos_right (Nat.mul_pos hn' hs)

theorem fire_due_events (h0 : 0 < u.size) (hT : u.front.tick = T) (hs : 0 < u.front.scale.toNat)
    (hfit : u.front.tick.toNat + next.toNat * u.front.scale.toNat < 2 ^ 32) :
    (u.fire next).events.filter (·.tick = T) + {u.front} = u.events.filter (·.tick = T) ∧
      (u.fire next).events.filter (·.tick ≠ T) = u.events.filter (·.tick ≠ T) +
        if next = 0 then 0 else {{ u.front with tick := u.front.tick + next * u.front.scale }} := by
  have he := fire_events u h0 next
  have hmoved : next ≠ 0 → (u.front.tick + next * u.front.scale) ≠ T := fun hn e =>
    absurd (congrArg BitVec.toNat e) (Nat.ne_of_gt (toNat_moved hT hs hfit hn))
  constructor
  · have := congrArg (Multiset.filter (·.tick = T)) he
    rw [Multiset.filter_add, Multiset.filter_add, Multiset.filter_singleton, if_pos hT] at this
    rw [this]
    split
    · simp
    · rw [Multiset.filter_singleton, if_neg (hmoved ‹_›), Multiset.empty_eq_zero, add_zero]
  · have := congrArg (Multiset.filter (·.tick ≠ T)) he
    rw [Multiset.filter_add, Multiset.filter_add, Multiset.filter_singleton,
      if_neg (not_not.2 hT), Multiset.empty_eq_zero, add_zero] at this
    rw [this]
    split
    · simp
    · rw [Multiset.filter_singleton, if_pos (hmoved ‹_›)]

/-- A pass at `T` leaves every event at `T` or after, and the events at `T` it leaves were
queued before it. -/
theorem fire_due_stays (h0 : 0 < u.size) (hT : u.front.tick = T) (hs : 0 < u.front.scale.toNat)
    (hfit : u.front.tick.toNat + next.toNat * u.front.scale.toNat < 2 ^ 32)
    (hge : ∀ ev ∈ u.events, T.toNat ≤ ev.tick.toNat) :
    (∀ ev ∈ (u.fire next).events, T.toNat ≤ ev.tick.toNat) ∧
      ∀ ev ∈ (u.fire next).events, ev.tick = T → ev ∈ u.events := by
  refine ⟨fun ev hev => ?_, fun ev hev e => Multiset.mem_of_mem_filter
    (mem_of_add (fire_due_events h0 hT hs hfit).1 (Multiset.mem_filter.2 ⟨hev, e⟩))⟩
  rcases Multiset.mem_add.1 (mem_of_add (fire_events u h0 _) hev) with h | h
  · exact hge ev h
  · split at h
    · exact absurd h (Multiset.not_mem_zero _)
    · rw [Multiset.mem_singleton.1 h]; exact (toNat_moved hT hs hfit ‹_›).le

/-- Once the front event is not due, no event is at `T` or before. -/
theorem not_due_after (g : Good u) (hT : u.clkSysTick = T) (hd : u.due = false) :
    ∀ ev ∈ u.events, T.toNat < ev.tick.toNat := by
  intro ev hev
  have := (g.front_le hev).1
  simp only [due, BitVec.le_def, decide_eq_false_iff_not, hT] at hd
  omega

/-- A due front event is at `T`. -/
theorem front_tick_of_due (hT : u.clkSysTick = T)
    (hge : ∀ ev ∈ u.events, T.toNat ≤ ev.tick.toNat) (g : Good u) (hd : u.due = true) : u.front.tick = T := by
  have := hge _ (mem_events g.size_pos)
  simp only [due, BitVec.le_def, decide_eq_true_eq, hT] at hd
  exact BitVec.eq_of_toNat_eq (by unfold front at *; omega)

/-- Where the loop stops: no event at `T` is left, none fires, every event stays. -/
theorem drain_stop (g : Good u) (hT : u.clkSysTick = T) (hd : u.due = false)
    (ret : Nat → ClockEvent → BitVec 32) (fuel : Nat) :
    ∃ fired u', drain ret fuel u = some (fired, u') ∧ Good u' ∧ u'.clkSysTick = T ∧
      (fired.map Prod.fst : Multiset ClockEvent) = u.events.filter (·.tick = T) ∧
      (fired.map fun p => p.1.priority.toNat).Pairwise (· ≤ ·) ∧
      u'.events = u.events.filter (·.tick ≠ T) +
        ((fired.filter fun p => p.2 ≠ 0).map
          fun p => { p.1 with tick := p.1.tick + p.2 * p.1.scale } : List ClockEvent) ∧
      ∀ ev ∈ u'.events, T.toNat < ev.tick.toNat := by
  have hgt := not_due_after g hT hd
  have hne : ∀ ev ∈ u.events, ev.tick ≠ T := fun ev hev e => by
    have := hgt ev hev; rw [e] at this; omega
  refine ⟨[], u, drain_not_due g.size_pos hd ret fuel, g, hT, ?_, List.Pairwise.nil, ?_, hgt⟩
  · exact (Multiset.filter_eq_nil.2 hne).symm
  · rw [Multiset.filter_eq_self.2 hne, List.filter_nil, List.map_nil, Multiset.coe_nil, add_zero]

end Pass

/-! ## The loop -/

/-- **The loop at the front tick `T`.** From a good state at tick `T` with no event before it,
where each event at `T` moves without wrapping, fuel for the events at `T` suffices: each of
them fires once, in priority order, and no other; each comes back moved or is dropped; and the
loop stops with every event after `T`. -/
theorem drain_spec (T : BitVec 32) : ∀ (fuel : Nat) (ret : Nat → ClockEvent → BitVec 32)
    (u : Sched), Good u → u.clkSysTick = T → (∀ k ev, Returns ev (ret k ev)) →
    (∀ ev ∈ u.events, T.toNat ≤ ev.tick.toNat) →
    (∀ k, ∀ ev ∈ u.events, ev.tick = T →
      0 < ev.scale.toNat ∧ ev.tick.toNat + (ret k ev).toNat * ev.scale.toNat < 2 ^ 32) →
    Multiset.card (u.events.filter (·.tick = T)) ≤ fuel →
    ∃ fired u', drain ret fuel u = some (fired, u') ∧ Good u' ∧ u'.clkSysTick = T ∧
      (fired.map Prod.fst : Multiset ClockEvent) = u.events.filter (·.tick = T) ∧
      (fired.map fun p => p.1.priority.toNat).Pairwise (· ≤ ·) ∧
      u'.events = u.events.filter (·.tick ≠ T) +
        ((fired.filter fun p => p.2 ≠ 0).map
          fun p => { p.1 with tick := p.1.tick + p.2 * p.1.scale } : List ClockEvent) ∧
      ∀ ev ∈ u'.events, T.toNat < ev.tick.toNat := by
  intro fuel
  induction fuel with
  | zero =>
    intro ret u g hT _ hge _ hcard
    cases hd : u.due
    · exact drain_stop g hT hd ret 0
    · have := Multiset.card_eq_zero.1 (Nat.le_zero.1 hcard)
      exact absurd (Multiset.filter_eq_nil.1 this _ (mem_events g.size_pos))
        (not_not.2 (front_tick_of_due hT hge g hd))
  | succ fuel ih =>
    intro ret u g hT hret hge hfit hcard
    cases hd : u.due
    · exact drain_stop g hT hd ret (fuel + 1)
    have hfront := mem_events (s := u) g.size_pos
    have hT' := front_tick_of_due hT hge g hd
    obtain ⟨hs, hfit0⟩ := hfit 0 u.front hfront hT'
    obtain ⟨hfilt, hfiltne⟩ := fire_due_events g.size_pos hT' hs hfit0
    obtain ⟨hge', hsub⟩ := fire_due_stays g.size_pos hT' hs hfit0 hge
    have hcard' :
        Multiset.card ((u.fire (ret 0 u.front)).events.filter (·.tick = T)) ≤ fuel := by
      have := congrArg Multiset.card hfilt
      rw [Multiset.card_add, Multiset.card_singleton] at this
      omega
    obtain ⟨fired, u', hdr, g', hT'', hmap, hsorted, hev, hgt⟩ :=
      ih (fun k => ret (k + 1)) _ (fire_good g _ (hret 0 u.front))
        ((fire_clkSysTick _ _).trans hT) (fun k => hret (k + 1)) hge'
        (fun k ev hev e => hfit (k + 1) ev (hsub ev hev e) e) hcard'
    refine ⟨(u.front, ret 0 u.front) :: fired, u', ?_, g', hT'', ?_, ?_, ?_, hgt⟩
    · rw [drain_due g.size_pos hd, hdr]; rfl
    · rw [List.map_cons, ← Multiset.cons_coe, hmap, ← hfilt, add_comm, Multiset.singleton_add]
    · refine List.pairwise_cons.2 ⟨fun b hb => ?_, hsorted⟩
      obtain ⟨p, hp, rfl⟩ := List.mem_map.1 hb
      have hp' : p.1 ∈ (u.fire (ret 0 u.front)).events.filter (·.tick = T) := by
        rw [← hmap]; exact Multiset.mem_coe.2 (List.mem_map_of_mem _ hp)
      obtain ⟨hpm, hpt⟩ := Multiset.mem_filter.1 hp'
      exact (g.front_le (hsub _ hpm hpt)).2 (hpt.trans hT'.symm)
    · rw [hev, hfiltne, add_assoc]
      congr 1
      by_cases hn : ret 0 u.front = 0
      · rw [if_pos hn, zero_add]
        simp only [List.filter_cons, hn, ne_eq, not_true_eq_false, decide_False,
          Bool.false_eq_true, if_false]
      · rw [if_neg hn]
        simp only [List.filter_cons, hn, ne_eq, not_false_eq_true, decide_True, if_true,
          List.map_cons, ← Multiset.cons_coe, Multiset.singleton_add]

theorem card_events (s : Sched) : Multiset.card s.events = s.size := by
  simp [events, contents]

/-- **One call of `Device::step`.** From a good queue (a heap holding the `stepCPU` event once,
as every reachable queue is) where every event at the front tick has scale at least 1 and moves
without wrapping, whatever the callbacks return: the call returns within `size` passes; it sets
`clk_sys_tick_` to the front tick, the least queued tick; it runs the callback of each event at
that tick exactly once and no other, in non-decreasing priority; it puts back each fired event
whose callback returned `next ≠ 0` at `tick + next * scale` and drops each that returned 0; and
it leaves a good queue with every event after the new `clk_sys_tick_`. -/
theorem step_fires_due_once {s : Sched} (g : Good s) (ret : Nat → ClockEvent → BitVec 32)
    (hret : ∀ k ev, Returns ev (ret k ev))
    (hfit : ∀ k, ∀ ev ∈ s.events, ev.tick = s.front.tick →
      0 < ev.scale.toNat ∧ ev.tick.toNat + (ret k ev).toNat * ev.scale.toNat < 2 ^ 32)
    {fuel : Nat} (hfuel : s.size ≤ fuel) :
    ∃ fired s', s.step ret fuel = some (fired, s') ∧ Good s' ∧
      s'.clkSysTick = s.front.tick ∧ (∀ ev ∈ s.events, s.front.tick.toNat ≤ ev.tick.toNat) ∧
      (fired.map Prod.fst : Multiset ClockEvent) = s.events.filter (·.tick = s.front.tick) ∧
      (fired.map fun p => p.1.priority.toNat).Pairwise (· ≤ ·) ∧
      s'.events = s.events.filter (·.tick ≠ s.front.tick) +
        ((fired.filter fun p => p.2 ≠ 0).map
          fun p => { p.1 with tick := p.1.tick + p.2 * p.1.scale } : List ClockEvent) ∧
      ∀ ev ∈ s'.events, s'.clkSysTick.toNat < ev.tick.toNat := by
  have hge : ∀ ev ∈ s.events, s.front.tick.toNat ≤ ev.tick.toNat :=
    fun ev hev => (g.front_le hev).1
  have hcard : Multiset.card (s.events.filter (·.tick = s.front.tick)) ≤ fuel :=
    (Multiset.card_le_card (Multiset.filter_le _ _)).trans ((card_events s).trans_le hfuel)
  obtain ⟨fired, s', h, g', hT, hmap, hsort, hev, hgt⟩ :=
    drain_spec s.front.tick fuel ret s.advance ⟨g.heap, g.cpu⟩ rfl hret hge hfit hcard
  exact ⟨fired, s', h, g', hT, hge, hmap, hsort, hev, hT ▸ hgt⟩

/-! ## Every reachable event moves -/

/-- Every scale a valid CLK gives divides 4096, and the scheduler stores no other. -/
theorem Reachable.scale_dvd {allowed : Sched → (ClockType → BitVec 32) → Prop} {s : Sched}
    (r : Reachable allowed s) : ∀ ev ∈ s.events, ev.scale.toNat ∣ 4096 := by
  induction r with
  | reset s =>
    intro ev hev
    rw [events_single rfl, Multiset.mem_singleton, reset_front] at hev
    rw [hev]; exact getClockScale_dvd Clk.reset_valid _
  | schedule clk clock id ticks priority _ hc ih =>
    intro ev hev
    rw [schedule_events] at hev
    rcases Multiset.mem_add.1 hev with h | h
    · exact ih ev h
    · rw [Multiset.mem_singleton.1 h]; exact getClockScale_dvd hc clock
  | @unschedule t handle _ _ ih =>
    intro ev hev
    cases hf : t.find handle with
    | none => rw [Sched.unschedule, hf] at hev; exact ih ev hev
    | some i => exact ih ev (mem_of_add (unschedule_events hf) hev)
  | advance _ _ ih => exact ih
  | @fire t next _ h0 _ _ ih =>
    intro ev hev
    rcases Multiset.mem_add.1 (mem_of_add (fire_events t h0 next) hev) with h | h
    · exact ih ev h
    · split at h
      · exact absurd h (Multiset.not_mem_zero _)
      · rw [Multiset.mem_singleton.1 h]; exact ih t.front (mem_events h0)
  | configChange clk _ hc _ ih =>
    intro ev hev
    rw [onClockConfigChange_events] at hev
    obtain ⟨ev, hin, rfl⟩ := Multiset.mem_map.1 hev
    unfold rescale
    split
    · exact ih ev hin
    · exact getClockScale_dvd hc ev.clock

/-- In every reachable state each event moves when it fires. -/
theorem Reachable.scale_pos {allowed : Sched → (ClockType → BitVec 32) → Prop} {s : Sched}
    (r : Reachable allowed s) : ∀ ev ∈ s.events, 0 < ev.scale.toNat :=
  fun ev hev => Nat.pos_of_dvd_of_pos (r.scale_dvd ev hev) (by norm_num)

/-- **`Device::step` returns on every reachable state** when no moved event wraps: the scale
condition of `step_fires_due_once` holds on every run, so within `size` passes the call stops,
having run each event of the front tick exactly once. -/
theorem Reachable.step_returns {allowed : Sched → (ClockType → BitVec 32) → Prop} {s : Sched}
    (r : Reachable allowed s) (ret : Nat → ClockEvent → BitVec 32)
    (hret : ∀ k ev, Returns ev (ret k ev))
    (hwrap : ∀ k, ∀ ev ∈ s.events, ev.tick = s.front.tick →
      ev.tick.toNat + (ret k ev).toNat * ev.scale.toNat < 2 ^ 32) :
    ∃ fired s', s.step ret s.size = some (fired, s') ∧
      (fired.map Prod.fst : Multiset ClockEvent) = s.events.filter (·.tick = s.front.tick) := by
  obtain ⟨fired, s', h, -, -, -, hmap, -⟩ := step_fires_due_once r.good ret hret
    (fun k ev hev e => ⟨r.scale_pos ev hev, hwrap k ev hev e⟩) le_rfl
  exact ⟨fired, s', h, hmap⟩

theorem reset_step_returns :
    let s := empty.reset (getClockScale Clk.reset .cpu)
    ∃ fired s', s.step (fun _ _ => 1) s.size = some (fired, s') ∧
      (fired.map Prod.fst : Multiset ClockEvent) = s.events.filter (·.tick = s.front.tick) := by
  have hf : (empty.reset (getClockScale Clk.reset .cpu)).front = cpuEvent 1 := by
    rw [reset_front]; decide
  refine Reachable.step_returns (show Reachable (fun _ _ => True) _ from .reset empty) _
    (fun _ _ _ => rfl) (fun _ ev hev _ => ?_)
  rw [events_single rfl, hf, Multiset.mem_singleton] at hev
  subst hev
  decide

end Megumi.Sched
