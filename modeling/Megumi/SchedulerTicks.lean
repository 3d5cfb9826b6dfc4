import Megumi.SchedulerRuns

/-!
# Ticks on the grid of their clock, and the 32-bit tick counter

Every scale is a power of two dividing 4096 (`getClockScale_dvd`), so the `unsigned int`
arithmetic of `schedule` (`(clk_sys_tick_/scale + ticks) * scale`) and of `Device::step`
(`tick += next * scale`) keeps an event's tick a multiple of its scale, wrap-around included.
`onClockConfigChange` keeps it only when the current tick is a multiple of the new scales as
well: `reachable_ticks_aligned` under that condition, `rescale_leaves_tick_off_grid` without it.

`clk_sys_tick_` is an `unsigned int` too. `step_runs_stepCpu_forever`: after `2^32 - 2` steps
of the reset configuration, one `Device::step` call runs `stepCPU` again and again, because the
event's tick wraps to 0 and is due at once.
-/

namespace Megumi.Sched

open Function Heap

/-! ## Divisibility through 32-bit arithmetic -/

section Grid

variable {k : Nat} (hk : k ∣ 4096)
include hk

theorem dvd_toNat_add {a b : BitVec 32} (ha : k ∣ a.toNat) (hb : k ∣ b.toNat) :
    k ∣ (a + b).toNat := by
  rw [BitVec.toNat_add, Nat.dvd_mod_iff (hk.trans (by norm_num))]
  exact Nat.dvd_add ha hb

theorem dvd_toNat_mul (a : BitVec 32) {b : BitVec 32} (hb : k ∣ b.toNat) : k ∣ (a * b).toNat := by
  rw [BitVec.toNat_mul, Nat.dvd_mod_iff (hk.trans (by norm_num))]
  exact Dvd.dvd.mul_left hb _

theorem dvd_toNat_sub {a b : BitVec 32} (ha : k ∣ a.toNat) (hb : k ∣ b.toNat) :
    k ∣ (a - b).toNat := by
  have h32 : k ∣ 2 ^ 32 := hk.trans (by norm_num)
  rw [BitVec.toNat_sub, Nat.dvd_mod_iff h32]
  exact Nat.dvd_add (Nat.dvd_sub' h32 hb) ha

end Grid

/-- An event on the grid of its clock: its scale divides 4096 and its tick. -/
def OnGrid (ev : ClockEvent) : Prop := ev.scale.toNat ∣ 4096 ∧ ev.scale.toNat ∣ ev.tick.toNat

/-- `onClockConfigChange` called on a SYS tick that is a tick of every queued event's clock,
in its old scale and in its new one. -/
def AlignedCall (s : Sched) (scaleOf : ClockType → BitVec 32) : Prop :=
  ∀ ev ∈ s.events, ev.scale.toNat ∣ s.clkSysTick.toNat ∧ (scaleOf ev.clock).toNat ∣ s.clkSysTick.toNat

/-- `onClockConfigChange` called on a SYS tick that is a multiple of every queued event's
stored scale. -/
def OldAlignedCall (s : Sched) (_ : ClockType → BitVec 32) : Prop :=
  ∀ ev ∈ s.events, ev.scale.toNat ∣ s.clkSysTick.toNat

theorem mem_events {s : Sched} {j : Nat} (hj : j < s.size) : s.queue j ∈ s.events :=
  Multiset.mem_map_of_mem _ (Multiset.mem_range.2 hj)

theorem mem_of_add {s t : Multiset ClockEvent} {x ev : ClockEvent} (h : s + {x} = t)
    (hev : ev ∈ s) : ev ∈ t :=
  h ▸ Multiset.mem_add.2 (.inl hev)

theorem reset_onGrid (s : Sched) {scale : BitVec 32} (hs : scale.toNat ∣ 4096) :
    ∀ ev ∈ (s.reset scale).events, OnGrid ev := by
  intro ev hev
  rw [reset, schedule_events] at hev
  rcases Multiset.mem_add.1 hev with h | h
  · exact absurd h (Multiset.not_mem_zero _)
  · rw [Multiset.mem_singleton.1 h]; exact ⟨hs, dvd_toNat_mul hs _ dvd_rfl⟩

theorem schedule_onGrid {s : Sched} (g : ∀ ev ∈ s.events, OnGrid ev) (clk : Clk) (hc : clk.Valid)
    (clock : ClockType) (id : Nat) (ticks priority : BitVec 32) :
    ∀ ev ∈ (s.schedule clock (.block id) ticks priority (getClockScale clk clock)).events,
      OnGrid ev := by
  intro ev hev
  rw [schedule_events] at hev
  rcases Multiset.mem_add.1 hev with h | h
  · exact g ev h
  · have hs := getClockScale_dvd hc clock
    rw [Multiset.mem_singleton.1 h]; exact ⟨hs, dvd_toNat_mul hs _ dvd_rfl⟩

theorem unschedule_onGrid {s : Sched} (g : ∀ ev ∈ s.events, OnGrid ev) (handle : Nat) :
    ∀ ev ∈ (s.unschedule handle).events, OnGrid ev := by
  intro ev hev
  cases hf : s.find handle with
  | none => rw [unschedule, hf] at hev; exact g ev hev
  | some i => exact g ev (mem_of_add (unschedule_events hf) hev)

theorem fire_onGrid {s : Sched} (g : ∀ ev ∈ s.events, OnGrid ev) (h0 : 0 < s.size)
    (next : BitVec 32) : ∀ ev ∈ (s.fire next).events, OnGrid ev := by
  intro ev hev
  by_cases hn : next = 0
  · subst hn; exact g ev (mem_of_add (fire_events_drop s h0) hev)
  · rcases Multiset.mem_add.1 (mem_of_add (fire_events_move s hn h0) hev) with h | h
    · exact g ev h
    · obtain ⟨hs, ht⟩ := g _ (mem_events h0)
      rw [Multiset.mem_singleton.1 h]
      exact ⟨hs, dvd_toNat_add hs ht (dvd_toNat_mul hs _ dvd_rfl)⟩

theorem onClockConfigChange_onGrid {s : Sched} (g : ∀ ev ∈ s.events, OnGrid ev) {clk : Clk}
    (hc : clk.Valid) (ha : AlignedCall s (getClockScale clk)) :
    ∀ ev ∈ (s.onClockConfigChange (getClockScale clk)).events, OnGrid ev := by
  intro ev hev
  rw [onClockConfigChange_events] at hev
  obtain ⟨ev, hin, rfl⟩ := Multiset.mem_map.1 hev
  have hs := getClockScale_dvd hc ev.clock
  unfold rescale
  split
  · exact g ev hin
  · exact ⟨hs, dvd_toNat_add hs (ha ev hin).2 (dvd_toNat_mul hs _ dvd_rfl)⟩

theorem Reachable.onGrid {s : Sched} (r : Reachable AlignedCall s) : ∀ ev ∈ s.events, OnGrid ev := by
  induction r with
  | reset s => exact reset_onGrid s (getClockScale_dvd Clk.reset_valid _)
  | schedule clk clock id ticks priority _ hc ih => exact schedule_onGrid ih clk hc clock id _ _
  | unschedule handle _ _ ih => exact unschedule_onGrid ih handle
  | advance _ _ ih => exact ih
  | fire next _ h0 _ _ ih => exact fire_onGrid ih h0 next
  | configChange clk _ hc ha ih => exact onClockConfigChange_onGrid ih hc ha

/-- **Rescaling keeps ticks aligned** when `onClockConfigChange` is called on a tick of
every queued event's clock, in its stored scale and in its new one: every queued event's tick
stays a multiple of its scale, and the `assert((ev->tick - clk_sys_tick_) % ev->scale == 0)`
holds for every event at every such call. -/
theorem reachable_ticks_aligned {s : Sched} (r : Reachable AlignedCall s) :
    (∀ ev ∈ s.events, ev.scale.toNat ∣ ev.tick.toNat) ∧
      ∀ clk : Clk, clk.Valid → AlignedCall s (getClockScale clk) →
        RescaleAsserts s (getClockScale clk) := by
  have g := r.onGrid
  refine ⟨fun ev hev => (g ev hev).2, fun clk _ ha j hj _ => ?_⟩
  obtain ⟨hs, ht⟩ := g _ (mem_events hj)
  apply BitVec.toNat_eq.2
  rw [BitVec.toNat_umod]
  exact Nat.mod_eq_zero_of_dvd (dvd_toNat_sub hs ht (ha _ (mem_events hj)).1)

theorem reset_ticks_aligned :
    let s := empty.reset (getClockScale Clk.reset .cpu)
    (∀ ev ∈ s.events, ev.scale.toNat ∣ ev.tick.toNat) ∧
      ∀ clk : Clk, clk.Valid → AlignedCall s (getClockScale clk) →
        RescaleAsserts s (getClockScale clk) :=
  reachable_ticks_aligned (.reset empty)

/-! ## Queues of one event -/

/-- The `stepCPU` event `Device::reset` schedules when the CPU runs at the SYS rate and the
event is the first one `new` returned, moved to `tick`. -/
def cpuEvent (tick : BitVec 32) : ClockEvent :=
  { clock := .cpu, callback := .stepCpu, priority := 100, tick, scale := 1, handle := 0 }

theorem advance_front (s : Sched) : s.advance.front = s.front := rfl

theorem advance_clkSysTick (s : Sched) : s.advance.clkSysTick = s.front.tick := rfl

/-- After the first line of `Device::step`, the front event is due. -/
theorem advance_due (s : Sched) : s.advance.due = true := by
  simp [due, advance, front]

theorem events_single {s : Sched} (h : s.size = 1) : s.events = {s.front} := by
  rw [events, h]; rfl

theorem reset_size (s : Sched) (scale : BitVec 32) : (s.reset scale).size = 1 := rfl

theorem reset_clkSysTick (s : Sched) (scale : BitVec 32) : (s.reset scale).clkSysTick = 0 := rfl

theorem reset_front (s : Sched) (scale : BitVec 32) :
    (s.reset scale).front =
      { clock := .cpu, callback := .stepCpu, priority := 100, tick := (0 / scale + 1) * scale,
        scale, handle := s.nextHandle } := by
  simp only [reset, schedule, front, Nat.zero_add, pushHeap_one, update_same]

theorem fire_clkSysTick (s : Sched) (next : BitVec 32) : (s.fire next).clkSysTick = s.clkSysTick := by
  unfold fire; split <;> rfl

theorem fire_size {s : Sched} {next : BitVec 32} (hn : next ≠ 0) : (s.fire next).size = s.size := by
  simp only [fire, if_pos hn]

theorem fire_front_single {s : Sched} (h : s.size = 1) {next : BitVec 32} (hn : next ≠ 0) :
    (s.fire next).front = { s.front with tick := s.front.tick + next * s.front.scale } := by
  simp only [fire, if_pos hn, front, h, popHeap_one, pushHeap_one, update_same]

theorem onClockConfigChange_front_single {s : Sched} (h : s.size = 1) (scaleOf : ClockType → BitVec 32) :
    (s.onClockConfigChange scaleOf).front = rescale s.clkSysTick (scaleOf s.front.clock) s.front := by
  simp only [onClockConfigChange, front, h, makeHeap_one]

/-- Without the new scales in the condition, one rescaling takes an event off its grid: from
`Device::reset`, one `Device::step` leaves `stepCPU` due at SYS tick 2 at SYS tick 1; PSCTRL
then sets prescaler A to 2, and `onClockConfigChange`, called on tick 1, a multiple of the
stored scale 1, moves the event to tick `1 + 1 * 2 = 3` with scale 2. -/
theorem rescale_leaves_tick_off_grid :
    ∃ s, Reachable OldAlignedCall s ∧ ∃ ev ∈ s.events, ¬ ev.scale.toNat ∣ ev.tick.toNat := by
  let s1 := empty.reset (getClockScale Clk.reset .cpu)
  have f1 : s1.front = cpuEvent 1 := by rw [reset_front]; decide
  have f3 : (s1.advance.fire 1).front = { cpuEvent 1 with tick := 2 } := by
    rw [fire_front_single rfl (by decide), advance_front, f1]; decide
  let clk := Clk.reset.setIo 0 1 4
  refine ⟨_, .configChange clk (.fire 1 (.advance (.reset _) Nat.one_pos) Nat.one_pos
    (advance_due _) fun _ => rfl) (Clk.setIo_valid Clk.reset_valid _ _ _) ?_, _,
    mem_events (s := (s1.advance.fire 1).onClockConfigChange _) Nat.one_pos, ?_⟩
  · intro ev hev
    rw [events_single rfl, f3, Multiset.mem_singleton] at hev
    rw [hev]; exact one_dvd _
  · rw [← front, onClockConfigChange_front_single rfl, f3, fire_clkSysTick, advance_clkSysTick, f1]
    decide

/-! ## The 32-bit SYS tick wraps -/

/-- The passes of one `Device::step` call's loop so far, from the state after its first line:
each runs the due front event's callback, which returns `next`, and `fire`s. `fired` lists the
events whose callbacks ran, in order. -/
inductive Passes : Sched → List ClockEvent → Sched → Prop
  | nil (s : Sched) : Passes s [] s
  | fire {s s' : Sched} {fired : List ClockEvent} (next : BitVec 32) : 0 < s.size → s.due = true →
      Returns s.front next → Passes (s.fire next) fired s' → Passes s (s.front :: fired) s'

/-- Runs from `Device::reset` of whole `Device::step` calls, `schedule` with at least one tick,
`unschedule` of any event but the `stepCPU` one, and `onClockConfigChange` for any CLK
configuration. -/
inductive Run : Sched → Prop
  | reset (s : Sched) : Run (s.reset (getClockScale Clk.reset .cpu))
  | schedule {s : Sched} (clk : Clk) (clock : ClockType) (id : Nat) (ticks priority : BitVec 32) :
      Run s → clk.Valid → 1 ≤ ticks.toNat →
      Run (s.schedule clock (.block id) ticks priority (getClockScale clk clock))
  | unschedule {s : Sched} (handle : Nat) : Run s →
      (∀ j < s.size, (s.queue j).handle = handle → (s.queue j).callback ≠ .stepCpu) →
      Run (s.unschedule handle)
  | step {s s' : Sched} {fired : List ClockEvent} : Run s → 0 < s.size →
      Passes s.advance fired s' → s'.due = false → Run s'
  | configChange {s : Sched} (clk : Clk) : Run s → clk.Valid →
      Run (s.onClockConfigChange (getClockScale clk))

theorem Passes.reachable {allowed : Sched → (ClockType → BitVec 32) → Prop} {s s' : Sched}
    {fired : List ClockEvent} (p : Passes s fired s') (r : Reachable allowed s) :
    Reachable allowed s' := by
  induction p with
  | nil => exact r
  | fire next h0 hdue hr _ ih => exact ih (.fire next r h0 hdue hr)

/-- Every run is a path of the scheduler's operations. -/
theorem Run.reachable {s : Sched} (r : Run s) : Reachable (fun _ _ => True) s := by
  induction r with
  | reset s => exact .reset s
  | schedule clk clock id ticks priority _ hc _ ih => exact .schedule clk clock id ticks priority ih hc
  | unschedule handle _ h ih => exact .unschedule handle ih h
  | step _ h0 hp _ ih => exact hp.reachable (.advance ih h0)
  | configChange clk _ hc ih => exact .configChange clk ih hc trivial

/-- The reset configuration after `k` steps: only `stepCPU` is queued, due at the next tick. -/
def OnlyCpu (s : Sched) (k : Nat) : Prop :=
  s.size = 1 ∧ s.clkSysTick = BitVec.ofNat 32 k ∧ s.front = cpuEvent (BitVec.ofNat 32 (k + 1))

theorem fire_cpuEvent {s : Sched} (h : s.size = 1) {t : BitVec 32} (hf : s.front = cpuEvent t) :
    (s.fire 1).front = cpuEvent (t + 1) := by
  rw [fire_front_single h (by decide), hf]
  simp [cpuEvent]

theorem ofNat_add_one (k : Nat) : BitVec.ofNat 32 k + 1 = BitVec.ofNat 32 (k + 1) :=
  BitVec.toNat_eq.2 (by simp)

/-- One `Device::step` call of the reset configuration before the wrap: `stepCPU` runs once. -/
theorem onlyCpu_step {s : Sched} {k : Nat} (h : OnlyCpu s k) (hk : k + 2 < 2 ^ 32) :
    Passes s.advance [s.front] (s.advance.fire 1) ∧ (s.advance.fire 1).due = false ∧
      OnlyCpu (s.advance.fire 1) (k + 1) := by
  obtain ⟨h1, -, hf⟩ := h
  have hf' : (s.advance.fire 1).front = cpuEvent (BitVec.ofNat 32 (k + 2)) := by
    rw [fire_cpuEvent (s := s.advance) h1 hf, ofNat_add_one]
  have ht : (s.advance.fire 1).clkSysTick = BitVec.ofNat 32 (k + 1) := by
    rw [fire_clkSysTick, advance_clkSysTick, hf]; rfl
  refine ⟨.fire 1 h1.symm.le (advance_due s) (fun _ => rfl) (.nil _), ?_,
    (fire_size (by decide)).trans h1, ht, hf'⟩
  simp only [due, hf', ht, cpuEvent, BitVec.le_def, BitVec.toNat_ofNat, decide_eq_false_iff_not]
  omega

theorem reset_onlyCpu (s : Sched) (h : s.nextHandle = 0) :
    OnlyCpu (s.reset (getClockScale Clk.reset .cpu)) 0 :=
  ⟨rfl, rfl, by rw [reset_front, h]; decide⟩

theorem run_onlyCpu (k : Nat) (hk : k + 2 ≤ 2 ^ 32) : ∃ s, Run s ∧ OnlyCpu s k := by
  induction k with
  | zero => exact ⟨_, .reset empty, reset_onlyCpu _ rfl⟩
  | succ k ih =>
    obtain ⟨s, r, h⟩ := ih (by omega)
    obtain ⟨hp, hd, h'⟩ := onlyCpu_step h (by omega)
    exact ⟨_, r.step h.1.symm.le hp hd, h'⟩

/-- At SYS tick `2^32 - 1` every tick is due, so a lone event that is moved ahead by one tick
at each pass is run again and again. -/
theorem passes_at_wrap (n : Nat) {s : Sched} (h1 : s.size = 1)
    (ht : s.clkSysTick = BitVec.ofNat 32 (2 ^ 32 - 1)) (hc : s.front.callback = .stepCpu) :
    ∃ fired s', Passes s fired s' ∧ fired.map ClockEvent.callback = List.replicate n .stepCpu := by
  induction n generalizing s with
  | zero => exact ⟨[], s, .nil s, rfl⟩
  | succ n ih =>
    have hdue : s.due = true := by
      simp only [due, ht, BitVec.le_def, BitVec.toNat_ofNat, decide_eq_true_eq]
      omega
    obtain ⟨fired, s', hp, hm⟩ := ih ((fire_size (by decide)).trans h1)
      ((fire_clkSysTick s 1).trans ht) (by rw [fire_front_single h1 (by decide)]; exact hc)
    exact ⟨s.front :: fired, s', .fire 1 (h1 ▸ Nat.one_pos) hdue (fun _ => rfl) hp,
      by rw [List.map_cons, hm, hc]; rfl⟩

/-- **`Device::step` never returns once the SYS tick reaches `2^32 - 1`.** From
`Device::reset`, `2^32 - 2` steps of the reset configuration reach SYS tick `2^32 - 2`. In the
next `Device::step` call the `stepCPU` event is due at `2^32 - 1`, and `tick += next * scale`
wraps its tick to 0, then 1, and so on, all due at `2^32 - 1`: the call runs `stepCPU` any
number of times. -/
theorem step_runs_stepCpu_forever :
    ∃ s, Run s ∧ ∀ n, ∃ fired s', Passes s.advance fired s' ∧
      fired.map ClockEvent.callback = List.replicate n .stepCpu := by
  obtain ⟨s, r, h1, -, hf⟩ := run_onlyCpu (2 ^ 32 - 2) (by norm_num)
  refine ⟨s, r, fun n => passes_at_wrap n h1 ?_ (by rw [advance_front, hf]; rfl)⟩
  rw [advance_clkSysTick, hf]; rfl

end Megumi.Sched
