import Megumi.SchedulerDrain

/-!
# `onClockConfigChange` keeps the distance in each clock's own ticks

`Device::onClockConfigChange` (`src/device.cpp`) rescales each event whose clock's scale
changed: `dt = (tick - clk_sys_tick_ + scale - 1) / scale` is the number of its clock's ticks
left, and the event moves to `clk_sys_tick_ + dt * newScale`. With the `assert` (the distance
is a multiple of the old scale), the rounding adds nothing and `dt` is the distance in ticks of
the clock, which the new tick keeps (`onClockConfigChange_keeps_distance`), as long as the
`unsigned int` sum `tick - clk_sys_tick_ + scale - 1` and the product `dt * newScale` stay below
`2^32`. On every reachable queue the scales are divisors of 4096, so a multiple of one below
`2^32` is at most `2^32 - scale` and the sum never wraps (`reachable_keeps_distance`).
-/

namespace Megumi.Sched

open Heap

/-- The rounding of `dt` adds nothing on a multiple of the scale. -/
theorem add_sub_one_div_of_dvd {d s : Nat} (hs : 0 < s) (h : s ∣ d) :
    (d + s - 1) / s = d / s := by
  obtain ⟨k, rfl⟩ := h
  rw [Nat.add_sub_assoc hs, Nat.mul_add_div hs, Nat.mul_div_cancel_left _ hs,
    Nat.div_eq_of_lt (by omega), Nat.add_zero]

/-- One pass of `onClockConfigChange`'s loop: the event takes the new scale and keeps its
distance in ticks of its clock, counted in `unsigned int` arithmetic, and every other field;
an event already at the new scale is left as it is. -/
theorem rescale_spec (tick newScale : BitVec 32) (ev : ClockEvent) (hn : 0 < newScale.toNat)
    (h : ev.scale ≠ newScale → 0 < ev.scale.toNat ∧ (ev.tick - tick) % ev.scale = 0 ∧
      (ev.tick - tick).toNat + ev.scale.toNat - 1 < 2 ^ 32 ∧
      (ev.tick - tick).toNat / ev.scale.toNat * newScale.toNat < 2 ^ 32) :
    (rescale tick newScale ev).scale = newScale ∧
      ((rescale tick newScale ev).tick - tick) / (rescale tick newScale ev).scale =
        (ev.tick - tick) / ev.scale ∧
      (rescale tick newScale ev).clock = ev.clock ∧
      (rescale tick newScale ev).callback = ev.callback ∧
      (rescale tick newScale ev).priority = ev.priority ∧
      (rescale tick newScale ev).handle = ev.handle ∧
      (ev.scale = newScale → rescale tick newScale ev = ev) := by
  unfold rescale
  by_cases hs : ev.scale = newScale
  · rw [if_pos hs]; exact ⟨hs, by rw [hs], rfl, rfl, rfl, rfl, fun _ => rfl⟩
  obtain ⟨hs0, hdiv, hsum, hprod⟩ := h hs
  rw [if_neg hs]
  refine ⟨rfl, ?_, rfl, rfl, rfl, rfl, fun e => absurd e hs⟩
  have hd : ev.scale.toNat ∣ (ev.tick - tick).toNat := by
    have := congrArg BitVec.toNat hdiv
    rw [BitVec.toNat_umod] at this
    exact Nat.dvd_of_mod_eq_zero this
  -- the distance in ticks of the clock, as `Device::onClockConfigChange` computes it
  have hdt : ((ev.tick - tick + ev.scale - 1) / ev.scale).toNat =
      (ev.tick - tick).toNat / ev.scale.toNat := by
    have hnum :
        (ev.tick - tick + ev.scale - 1).toNat = (ev.tick - tick).toNat + ev.scale.toNat - 1 := by
      rw [BitVec.toNat_sub, BitVec.toNat_add, show (1 : BitVec 32).toNat = 1 from rfl]
      omega
    rw [BitVec.toNat_udiv, hnum, add_sub_one_div_of_dvd hs0 hd]
  apply BitVec.eq_of_toNat_eq
  rw [BitVec.toNat_udiv, BitVec.toNat_udiv, BitVec.toNat_sub, BitVec.toNat_add, BitVec.toNat_mul,
    hdt, Nat.mod_eq_of_lt hprod]
  have hlt := tick.isLt
  rw [show (2 ^ 32 - tick.toNat + (tick.toNat + (ev.tick - tick).toNat / ev.scale.toNat *
      newScale.toNat) % 2 ^ 32) % 2 ^ 32 =
      (ev.tick - tick).toNat / ev.scale.toNat * newScale.toNat by omega]
  exact Nat.mul_div_cancel _ hn

/-- **`onClockConfigChange` keeps each event's distance in ticks of its clock.** For a valid CLK
configuration, when every event whose scale changes has a scale of at least 1, a distance to
`clk_sys_tick_` that is a multiple of it (the `assert`), and neither the rounding sum nor the
product `dt * newScale` wraps: the queue stays a heap of the rescaled events, each event takes
the scale of its clock and keeps `(tick - clk_sys_tick_) / scale` and its other fields, and an
event already at its clock's scale is left as it is. -/
theorem onClockConfigChange_keeps_distance (s : Sched) {clk : Clk} (hc : clk.Valid)
    (h : ∀ ev ∈ s.events, ev.scale ≠ getClockScale clk ev.clock →
      0 < ev.scale.toNat ∧ (ev.tick - s.clkSysTick) % ev.scale = 0 ∧
      (ev.tick - s.clkSysTick).toNat + ev.scale.toNat - 1 < 2 ^ 32 ∧
      (ev.tick - s.clkSysTick).toNat / ev.scale.toNat * (getClockScale clk ev.clock).toNat <
        2 ^ 32) :
    IsHeap clockQueueCmp (s.onClockConfigChange (getClockScale clk)).queue s.size ∧
      (s.onClockConfigChange (getClockScale clk)).clkSysTick = s.clkSysTick ∧
      (s.onClockConfigChange (getClockScale clk)).events =
        s.events.map (fun ev => rescale s.clkSysTick (getClockScale clk ev.clock) ev) ∧
      ∀ ev ∈ s.events, (rescale s.clkSysTick (getClockScale clk ev.clock) ev).scale =
          getClockScale clk ev.clock ∧
        ((rescale s.clkSysTick (getClockScale clk ev.clock) ev).tick - s.clkSysTick) /
            (rescale s.clkSysTick (getClockScale clk ev.clock) ev).scale =
          (ev.tick - s.clkSysTick) / ev.scale ∧
        (rescale s.clkSysTick (getClockScale clk ev.clock) ev).clock = ev.clock ∧
        (rescale s.clkSysTick (getClockScale clk ev.clock) ev).callback = ev.callback ∧
        (rescale s.clkSysTick (getClockScale clk ev.clock) ev).priority = ev.priority ∧
        (rescale s.clkSysTick (getClockScale clk ev.clock) ev).handle = ev.handle ∧
        (ev.scale = getClockScale clk ev.clock →
          rescale s.clkSysTick (getClockScale clk ev.clock) ev = ev) :=
  ⟨onClockConfigChange_heap s _, rfl, onClockConfigChange_events s _, fun ev hev =>
    rescale_spec _ _ ev (getClockScale_pos hc ev.clock) (h ev hev)⟩

/-- A distance that is a multiple of a divisor of 4096 leaves room for the rounding sum. -/
theorem add_scale_le {D sc : Nat} (hs : sc ∣ 4096) (hd : sc ∣ D) (hD : D < 2 ^ 32) :
    D + sc ≤ 2 ^ 32 := by
  have h32 : sc ∣ 2 ^ 32 := hs.trans (by norm_num)
  have := Nat.le_of_dvd (Nat.sub_pos_of_lt hD) (Nat.dvd_sub' h32 hd)
  omega

/-- **`onClockConfigChange` keeps each event's distance on every reachable queue.** For a valid
CLK configuration, when every event whose scale changes is at a distance from `clk_sys_tick_`
that is a multiple of its scale (the `assert`) and `dt * newScale` does not wrap: the queue stays
a heap of the rescaled events, each event takes the scale of its clock and keeps
`(tick - clk_sys_tick_) / scale` and its other fields, and an event already at its clock's
scale is left as it is. The rounding sum never wraps there, since every stored scale divides
4096. -/
theorem reachable_keeps_distance {allowed : Sched → (ClockType → BitVec 32) → Prop} {s : Sched}
    (r : Reachable allowed s) {clk : Clk} (hc : clk.Valid)
    (h : ∀ ev ∈ s.events, ev.scale ≠ getClockScale clk ev.clock →
      (ev.tick - s.clkSysTick) % ev.scale = 0 ∧
      (ev.tick - s.clkSysTick).toNat / ev.scale.toNat * (getClockScale clk ev.clock).toNat <
        2 ^ 32) :
    IsHeap clockQueueCmp (s.onClockConfigChange (getClockScale clk)).queue s.size ∧
      (s.onClockConfigChange (getClockScale clk)).clkSysTick = s.clkSysTick ∧
      (s.onClockConfigChange (getClockScale clk)).events =
        s.events.map (fun ev => rescale s.clkSysTick (getClockScale clk ev.clock) ev) ∧
      ∀ ev ∈ s.events, (rescale s.clkSysTick (getClockScale clk ev.clock) ev).scale =
          getClockScale clk ev.clock ∧
        ((rescale s.clkSysTick (getClockScale clk ev.clock) ev).tick - s.clkSysTick) /
            (rescale s.clkSysTick (getClockScale clk ev.clock) ev).scale =
          (ev.tick - s.clkSysTick) / ev.scale ∧
        (rescale s.clkSysTick (getClockScale clk ev.clock) ev).clock = ev.clock ∧
        (rescale s.clkSysTick (getClockScale clk ev.clock) ev).callback = ev.callback ∧
        (rescale s.clkSysTick (getClockScale clk ev.clock) ev).priority = ev.priority ∧
        (rescale s.clkSysTick (getClockScale clk ev.clock) ev).handle = ev.handle ∧
        (ev.scale = getClockScale clk ev.clock →
          rescale s.clkSysTick (getClockScale clk ev.clock) ev = ev) := by
  refine onClockConfigChange_keeps_distance s hc fun ev hev hne => ?_
  obtain ⟨hmod, hprod⟩ := h ev hev hne
  have hpos := r.scale_pos ev hev
  -- the distance is a multiple of the scale, so it stops `scale` short of `2^32`
  have hd : ev.scale.toNat ∣ (ev.tick - s.clkSysTick).toNat := by
    have := congrArg BitVec.toNat hmod
    rw [BitVec.toNat_umod] at this
    exact Nat.dvd_of_mod_eq_zero this
  have hle := add_scale_le (r.scale_dvd ev hev) hd (ev.tick - s.clkSysTick).isLt
  exact ⟨hpos, hmod, by omega, hprod⟩

/-- From `Device::reset`, PSCTRL sets prescaler A to 2 and the `stepCPU` event, one CPU tick
ahead at scale 1, is rescaled to scale 2. -/
theorem reset_prescale_keeps_distance :
    let s := empty.reset (getClockScale Clk.reset .cpu)
    let clk := Clk.reset.setIo 0 1 4
    Reachable (fun _ _ => True) s ∧
    IsHeap clockQueueCmp (s.onClockConfigChange (getClockScale clk)).queue s.size ∧
      (s.onClockConfigChange (getClockScale clk)).clkSysTick = s.clkSysTick ∧
      (s.onClockConfigChange (getClockScale clk)).events =
        s.events.map (fun ev => rescale s.clkSysTick (getClockScale clk ev.clock) ev) ∧
      ∀ ev ∈ s.events, (rescale s.clkSysTick (getClockScale clk ev.clock) ev).scale =
          getClockScale clk ev.clock ∧
        ((rescale s.clkSysTick (getClockScale clk ev.clock) ev).tick - s.clkSysTick) /
            (rescale s.clkSysTick (getClockScale clk ev.clock) ev).scale =
          (ev.tick - s.clkSysTick) / ev.scale ∧
        (rescale s.clkSysTick (getClockScale clk ev.clock) ev).clock = ev.clock ∧
        (rescale s.clkSysTick (getClockScale clk ev.clock) ev).callback = ev.callback ∧
        (rescale s.clkSysTick (getClockScale clk ev.clock) ev).priority = ev.priority ∧
        (rescale s.clkSysTick (getClockScale clk ev.clock) ev).handle = ev.handle ∧
        (ev.scale = getClockScale clk ev.clock →
          rescale s.clkSysTick (getClockScale clk ev.clock) ev = ev) := by
  have hf : (empty.reset (getClockScale Clk.reset .cpu)).front = cpuEvent 1 := by
    rw [reset_front]; decide
  refine ⟨.reset empty, @reachable_keeps_distance (fun _ _ => True) _ (.reset empty) _
    (Clk.setIo_valid Clk.reset_valid _ _ _) fun ev hev _ => ?_⟩
  rw [events_single rfl, hf, Multiset.mem_singleton] at hev
  subst hev
  decide

end Megumi.Sched
