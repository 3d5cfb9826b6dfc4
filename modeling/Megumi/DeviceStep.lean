import Megumi.Cpu.Step
import Megumi.SchedulerTicks

/-!
# `Device::step`

`Device::step` (`src/device.cpp`) moves `clk_sys_tick_` to the front event's tick, then runs
the due front event's callback and `fire`s the event until the front is not due. The `stepCPU`
event runs `StepCPU` and returns 1; a block's callback acts on the block's own state, which is
not modelled here, and returns some `next`. Event callbacks do not schedule or unschedule
events (`src/unnamed/part_001`), so each pass `fire`s the queue it started from. The queue of
a run of `Device::step` calls is then a run of the scheduler (`DeviceRun.sched`), and the
invariant of `clk_sys_queue_` holds along it (`deviceRun_queue_good`). No block of the
repository schedules an event, and nothing calls `onClockConfigChange`: along device runs the
queue is the `stepCPU` event alone, at scale 1, and each call runs `stepCPU` once, whatever the
program writes to CLK (`deviceRun_cpu_each_tick`).

`executeNextInstruction` reads `flash_data_[cpu_.pc_]` and leaves the range check as a `TODO`.
Erased flash decodes to SBRS r31,7 at every word, which does not skip while `r31` is clear, as
it is after reset: each `Device::step` moves the PC one word (`ErasedAt.step`), and once every
word has run, the next fetch is past the end of `flash_data_`
(`erased_flash_runs_off_the_end`).
-/

namespace Megumi

open Sreg

namespace Device

/-- The passes of the loop of one `Device::step` call, from the state after its first line. -/
inductive DevicePasses : Device → Device → Prop
  | nil {d : Device} : d.sched.due = false → DevicePasses d d
  | stepCpu {d d1 d' : Device} {taken : Bool} {cs : List Nat} : 0 < d.sched.size →
      d.sched.due = true → d.sched.front.callback = .stepCpu → StepCPU d d1 taken cs →
      DevicePasses { d1 with sched := d.sched.fire 1 } d' → DevicePasses d d'
  | block {d d' : Device} {id : Nat} (next : BitVec 32) : 0 < d.sched.size →
      d.sched.due = true → d.sched.front.callback = .block id →
      DevicePasses { d with sched := d.sched.fire next } d' → DevicePasses d d'

/-- `Device::step`: `clk_sys_tick_ = clk_sys_queue_.front()->tick`, then the loop. -/
inductive DeviceStep : Device → Device → Prop
  | mk {d d' : Device} : 0 < d.sched.size →
      DevicePasses { d with sched := d.sched.advance } d' → DeviceStep d d'

/-- The states reached by `Device::step` calls from `Device::reset`, with any flash image. -/
inductive DeviceRun : Device → Prop
  | reset (d : Device) : DeviceRun d.reset
  | step {d d' : Device} : DeviceRun d → DeviceStep d d' → DeviceRun d'

/-! ## The queue along device runs -/

/-- The queue of the loop's passes is a run of `Sched.Passes`: a `stepCPU` pass returns 1. -/
theorem DevicePasses.sched {d d' : Device} (h : DevicePasses d d') :
    ∃ fired, Sched.Passes d.sched fired d'.sched ∧ d'.sched.due = false := by
  induction h with
  | nil hd => exact ⟨[], .nil _, hd⟩
  | stepCpu h0 hdue _ _ _ ih =>
    obtain ⟨_, hp, hd⟩ := ih
    exact ⟨_, .fire 1 h0 hdue (fun _ => rfl) hp, hd⟩
  | block next h0 hdue hcb _ ih =>
    obtain ⟨_, hp, hd⟩ := ih
    exact ⟨_, .fire next h0 hdue (fun hc => nomatch hcb.symm.trans hc) hp, hd⟩

/-- The queue of a device run is a run of the scheduler. -/
theorem DeviceRun.sched {d : Device} (h : DeviceRun d) : Sched.Run d.sched := by
  induction h with
  | reset d => exact .reset d.sched
  | step _ hs ih =>
    obtain ⟨h0, hp⟩ := hs
    obtain ⟨_, hp, hd⟩ := hp.sched
    exact .step ih h0 hp hd

/-- **`clk_sys_queue_` along device runs.** In every state that `Device::step` calls reach from
`Device::reset`, the queue is a heap for `clock_queue_cmp` holding the `stepCPU` event exactly
once, so the `assert(!clk_sys_queue_.empty())` that opens `Device::step` holds. -/
theorem deviceRun_queue_good {d : Device} (h : DeviceRun d) :
    Heap.IsHeap clockQueueCmp d.sched.queue d.sched.size ∧
      d.sched.callbacks.count .stepCpu = 1 ∧ 0 < d.sched.size :=
  let g := h.sched.reachable.good
  ⟨g.heap, g.cpu, g.size_pos⟩

theorem erasedDemo_queue_good :
    DeviceRun erasedDemo ∧ Heap.IsHeap clockQueueCmp erasedDemo.sched.queue erasedDemo.sched.size ∧
      erasedDemo.sched.callbacks.count .stepCpu = 1 ∧ 0 < erasedDemo.sched.size :=
  ⟨.reset _, deviceRun_queue_good (.reset _)⟩

/-! ## The CPU clock along device runs -/

/-- The queue `Device::reset` leaves, `k` SYS ticks later: the `stepCPU` event alone, at scale
1, due at the next tick. -/
structure CpuAlone (s : Sched) (k : Nat) : Prop where
  bound : k + 2 ≤ 2 ^ 32
  size : s.size = 1
  tick : s.clkSysTick = BitVec.ofNat 32 k
  callback : s.front.callback = .stepCpu
  scale : s.front.scale = 1
  front_tick : s.front.tick = BitVec.ofNat 32 (k + 1)

theorem CpuAlone.reset (d : Device) : CpuAlone d.reset.sched 0 :=
  ⟨by norm_num, Sched.reset_size _ _, Sched.reset_clkSysTick _ _,
    by rw [show d.reset.sched = d.sched.reset (getClockScale Clk.reset .cpu) from rfl,
      Sched.reset_front],
    by rw [show d.reset.sched = d.sched.reset (getClockScale Clk.reset .cpu) from rfl,
      Sched.reset_front]; rfl,
    by rw [show d.reset.sched = d.sched.reset (getClockScale Clk.reset .cpu) from rfl,
      Sched.reset_front]; rfl⟩

/-- At SYS tick `2^32 - 1` a lone `stepCPU` event is due at every pass, so the loop of
`Device::step` has no last pass. -/
theorem DevicePasses.not_at_wrap {d d' : Device} (h : DevicePasses d d') (h1 : d.sched.size = 1)
    (ht : d.sched.clkSysTick = BitVec.ofNat 32 (2 ^ 32 - 1))
    (hc : d.sched.front.callback = .stepCpu) : False := by
  induction h with
  | @nil e hd =>
    rw [Sched.due, ht, decide_eq_false_iff_not, BitVec.le_def, BitVec.toNat_ofNat] at hd
    exact hd (by have := e.sched.front.tick.isLt; omega)
  | stepCpu _ _ _ _ _ ih =>
    exact ih ((Sched.fire_size (by decide)).trans h1) ((Sched.fire_clkSysTick _ _).trans ht)
      (by rw [Sched.fire_front_single h1 (by decide)]; exact hc)
  | block _ _ _ hcb _ _ => exact nomatch hcb.symm.trans hc

/-- One `Device::step` call from the queue `CpuAlone s k`: it runs `stepCPU` once and moves
`clk_sys_tick_` and the event one tick on. At `k = 2^32 - 2` no call returns. -/
theorem CpuAlone.step {d d' : Device} {k : Nat} (ha : CpuAlone d.sched k) (h : DeviceStep d d') :
    CpuAlone d'.sched (k + 1) ∧ ∃ d1 taken cs, StepCPU { d with sched := d.sched.advance } d1 taken cs ∧
      d' = { d1 with sched := d.sched.advance.fire 1 } := by
  obtain ⟨-, hp⟩ := h
  have hcb : d.sched.advance.front.callback = .stepCpu := ha.callback
  cases hp with
  | nil hd => exact absurd (Sched.advance_due _) (by rw [hd]; decide)
  | block _ _ _ hb _ => exact nomatch hb.symm.trans hcb
  | stepCpu _ _ _ hs hrest =>
    have hf := @Sched.fire_front_single d.sched.advance ha.size 1 (by decide)
    have ht : (d.sched.advance.fire 1).clkSysTick = BitVec.ofNat 32 (k + 1) :=
      (Sched.fire_clkSysTick _ _).trans ha.front_tick
    by_cases hk : k + 2 < 2 ^ 32
    · -- the fired event is due one tick later, so the loop stops
      have hft : (d.sched.advance.fire 1).front.tick = BitVec.ofNat 32 (k + 2) := by
        rw [hf, Sched.advance_front, ha.front_tick, ha.scale, show (1 : BitVec 32) * 1 = 1 from rfl,
          Sched.ofNat_add_one]
      have hnd : (d.sched.advance.fire 1).due = false := by
        rw [Sched.due, hft, ht, decide_eq_false_iff_not, BitVec.le_def, BitVec.toNat_ofNat,
          BitVec.toNat_ofNat]
        omega
      cases hrest with
      | nil _ =>
        refine ⟨⟨by omega, (Sched.fire_size (by decide)).trans ha.size, ht, ?_, ?_, hft⟩,
          _, _, _, hs, rfl⟩
        · rw [hf]; exact ha.callback
        · rw [hf]; exact ha.scale
      | stepCpu _ hdue _ _ _ => exact absurd hdue (by rw [hnd]; decide)
      | block _ _ hdue _ _ => exact absurd hdue (by rw [hnd]; decide)
    · -- at the wrap the loop never ends
      exact (hrest.not_at_wrap ((Sched.fire_size (by decide)).trans ha.size)
        (ht.trans (by congr 1; have := ha.bound; omega)) (by rw [hf]; exact ha.callback)).elim

/-- **The CPU runs at the SYS rate.** In every state that `Device::step` calls reach from
`Device::reset`, the queue holds the `stepCPU` event alone, at scale 1, due one tick after
`clk_sys_tick_ = k`; and each further call runs `stepCPU` exactly once and moves
`clk_sys_tick_` to `k + 1`. A write to CLK.PSCTRL changes `getClockScale`, but nothing calls
`onClockConfigChange`, so it never slows the CPU down. -/
theorem deviceRun_cpu_each_tick {d : Device} (h : DeviceRun d) :
    ∃ k, CpuAlone d.sched k ∧ ∀ d', DeviceStep d d' → CpuAlone d'.sched (k + 1) ∧
      ∃ d1 taken cs, StepCPU { d with sched := d.sched.advance } d1 taken cs ∧
        d' = { d1 with sched := d.sched.advance.fire 1 } := by
  induction h with
  | reset d => exact ⟨0, CpuAlone.reset d, fun _ hs => (CpuAlone.reset d).step hs⟩
  | step _ hs ih =>
    obtain ⟨k, -, hstep⟩ := ih
    have ha := (hstep _ hs).1
    exact ⟨k + 1, ha, fun _ hs' => ha.step hs'⟩

theorem erasedDemo_cpu_each_tick :
    DeviceRun erasedDemo ∧ ∃ k, CpuAlone erasedDemo.sched k ∧ ∀ d', DeviceStep erasedDemo d' →
      CpuAlone d'.sched (k + 1) ∧ ∃ d1 taken cs,
        StepCPU { erasedDemo with sched := erasedDemo.sched.advance } d1 taken cs ∧
        d' = { d1 with sched := erasedDemo.sched.advance.fire 1 } :=
  ⟨.reset _, deviceRun_cpu_each_tick (.reset _)⟩

/-! ## One call on erased flash -/

theorem stepCPUInterrupts_of_I_clear {d : Device} (hI : flag d.cpu.sreg I = false) :
    d.stepCPUInterrupts = some ({ d with breaked := false }, false) := by
  simp [stepCPUInterrupts, hI]

/-- At a boundary with `sreg_.I` clear, a call on an erased word runs SBRS r31,7; with bit 7 of
`r31` clear it does not skip, and only the PC moves. -/
theorem stepCPU_erased {d : Device} (h0 : d.instructionCycles = 0)
    (hI : flag d.cpu.sreg I = false) (hop : d.flashAt d.cpu.pc.toNat = some 0xFFFF)
    (h31 : flag (d.regfile 31) 7 = false) :
    ∃ d', StepCPU d d' false [1] ∧ d'.instructionCycles = 0 ∧
      d'.cpu = { d.cpu with pc := d.cpu.pc + 1 } ∧ d'.regfile = d.regfile ∧
      d'.flash = d.flash ∧ d'.conf = d.conf ∧ d'.sram = d.sram ∧ d'.breaked = false := by
  have hx : ({ d with breaked := false } : Device).executeNextInstruction =
      some (({ d with breaked := false } : Device).advance 1, 1) := by
    show (d.flashAt d.cpu.pc.toNat).bind _ = _
    rw [hop, Option.some_bind, show decode 0xFFFF = .sbr 31 7 true from rfl]
    show (if flag (d.regfile 31) 7 == true then _ else _) = _
    rw [h31]
    rfl
  refine ⟨_, .mk (stepCPUInterrupts_of_I_clear hI) (.run h0 hx (.done ?_)), ?_,
    rfl, rfl, rfl, rfl, rfl, rfl⟩
  · exact (by decide : BitVec.ofNat 32 1 ≠ 0)
  · exact (by decide : BitVec.ofNat 32 1 - 1 = 0)

/-- With only `stepCPU` queued, a `stepCPU` call from the advanced queue is a whole
`Device::step`, after which `stepCPU` is again alone, one tick later. -/
theorem deviceStep_of_onlyCpu {d d1 : Device} {k : Nat} {taken : Bool} {cs : List Nat}
    (h : Sched.OnlyCpu d.sched k) (hk : k + 2 < 2 ^ 32)
    (hs : StepCPU { d with sched := d.sched.advance } d1 taken cs) :
    DeviceStep d { d1 with sched := d.sched.advance.fire 1 } ∧
      Sched.OnlyCpu (d.sched.advance.fire 1) (k + 1) := by
  obtain ⟨-, hdue, hsched⟩ := Sched.onlyCpu_step h hk
  have hsize : 0 < d.sched.size := h.1 ▸ Nat.one_pos
  exact ⟨.mk hsize (.stepCpu hsize (Sched.advance_due _)
    (by rw [Sched.advance_front, h.2.2]; rfl) hs (.nil hdue)), hsched⟩

/-! ## Runs on erased flash -/

/-- `k` calls of `Device::step` after reset on erased flash: only `stepCPU` is queued, the CPU
is at an instruction boundary with SREG and `r31` clear, and the PC is at word `k`. -/
structure ErasedAt (d : Device) (k : Nat) : Prop where
  sched : Sched.OnlyCpu d.sched k
  cycles : d.instructionCycles = 0
  sreg : d.cpu.sreg = 0
  r31 : d.regfile 31 = 0
  flash : d.flash = List.replicate (d.conf.flashSize / 2) 0xFFFF
  pc : d.cpu.pc = BitVec.ofNat 32 k

theorem erasedAt_reset (m : ModelConf) (bs : DeviceBlocks) (b : Bool) :
    ErasedAt (create m bs b).reset 0 :=
  ⟨Sched.reset_onlyCpu _ rfl, rfl, rfl, rfl, rfl, rfl⟩

/-- A `Device::step` call from a word of erased flash runs `stepCPU` once and moves the PC to
the next word. -/
theorem ErasedAt.step {d : Device} {k : Nat} (h : ErasedAt d k) (hk : k < d.conf.flashSize / 2)
    (hw : k + 2 < 2 ^ 32) : ∃ d', DeviceStep d d' ∧ ErasedAt d' (k + 1) ∧ d'.conf = d.conf := by
  have hop : d.flashAt d.cpu.pc.toNat = some 0xFFFF := by
    rw [h.pc, BitVec.toNat_ofNat, Nat.mod_eq_of_lt (by omega), flashAt, h.flash,
      List.getElem?_replicate, if_pos hk]
  obtain ⟨d1, hs, h0, hcpu, hreg, hfl, hconf, -⟩ :=
    stepCPU_erased (d := { d with sched := d.sched.advance }) h.cycles (by rw [h.sreg]; rfl) hop
      (by rw [h.r31]; rfl)
  obtain ⟨hstep, hsched⟩ := deviceStep_of_onlyCpu h.sched hw hs
  refine ⟨_, hstep, ⟨hsched, h0, ?_, ?_, ?_, ?_⟩, hconf⟩
  · show d1.cpu.sreg = 0
    rw [hcpu]; exact h.sreg
  · show d1.regfile 31 = 0
    rw [hreg]; exact h.r31
  · show d1.flash = List.replicate (d1.conf.flashSize / 2) 0xFFFF
    rw [hfl, hconf]; exact h.flash
  · show d1.cpu.pc = _
    rw [hcpu, h.pc]; exact Sched.ofNat_add_one k

/-- From `Device::reset` on erased flash, `k` calls of `Device::step` bring the PC to word `k`,
for every `k` up to the size of the flash in words. -/
theorem run_erased {m : ModelConf} (hf : m.flashSize < 2 ^ 32) :
    ∀ k ≤ m.flashSize / 2, ∃ d, DeviceRun d ∧ d.conf = m ∧ ErasedAt d k
  | 0, _ => ⟨_, .reset (create m .core false), rfl, erasedAt_reset m _ _⟩
  | k + 1, hk => by
    obtain ⟨d, r, rfl, h⟩ := run_erased hf k (by omega)
    obtain ⟨d', hs, h', hc⟩ := h.step (by omega) (by omega)
    exact ⟨d', r.step hs, hc, h'⟩

/-- **The fetch runs off the end of erased flash.** For every configuration, the run from
`Device::reset` on the erased flash reaches a state where `stepCPU` is the event the next
`Device::step` runs, enters no interrupt, and fetches at an instruction boundary with the PC at
or past `flash_data_.size()`. -/
theorem erased_flash_runs_off_the_end (m : ModelConf) (hf : m.flashSize < 2 ^ 32) :
    ∃ d, DeviceRun d ∧ d.conf = m ∧ 0 < d.sched.size ∧ d.sched.front.callback = .stepCpu ∧
      ∃ d', { d with sched := d.sched.advance }.stepCPUInterrupts = some (d', false) ∧
        d'.instructionCycles = 0 ∧ d'.flash.length ≤ d'.cpu.pc.toNat := by
  obtain ⟨d, r, hc, h⟩ := run_erased hf (m.flashSize / 2) le_rfl
  refine ⟨d, r, hc, h.sched.1 ▸ Nat.one_pos, by rw [h.sched.2.2]; rfl, _,
    stepCPUInterrupts_of_I_clear (by rw [show d.cpu.sreg = 0 from h.sreg]; rfl), h.cycles, ?_⟩
  show d.flash.length ≤ d.cpu.pc.toNat
  rw [d.flash_length, h.pc, BitVec.toNat_ofNat, hc, Nat.mod_eq_of_lt (by omega)]

theorem erased_flash_runs_off_the_end_two_words :
    ModelConf.Accepted ⟨4, 2, 0, 0, 0x10, false⟩ ∧
      ∃ d, DeviceRun d ∧ d.conf = ⟨4, 2, 0, 0, 0x10, false⟩ ∧ 0 < d.sched.size ∧
        d.sched.front.callback = .stepCpu ∧
        ∃ d', { d with sched := d.sched.advance }.stepCPUInterrupts = some (d', false) ∧
          d'.instructionCycles = 0 ∧ d'.flash.length ≤ d'.cpu.pc.toNat :=
  ⟨by decide, erased_flash_runs_off_the_end ⟨4, 2, 0, 0, 0x10, false⟩ (by decide)⟩

/-! ## Reset after BREAK -/

/-- A two-word flash holding an erased word, then BREAK. -/
def brkImage : Device :=
  { create ⟨4, 2, 0, 0, 0x10, false⟩ .core false with
    flash := [0xFFFF, 0x9598], flash_length := by decide }

/-- At a boundary with `sreg_.I` clear, a call on BREAK sets `breaked_` and only moves the PC. -/
theorem stepCPU_brk {d : Device} (h0 : d.instructionCycles = 0)
    (hI : flag d.cpu.sreg I = false) (hop : d.flashAt d.cpu.pc.toNat = some 0x9598) :
    ∃ d', StepCPU d d' false [1] ∧ d'.breaked = true ∧ d'.sram = d.sram ∧ d'.flash = d.flash ∧
      d'.conf = d.conf := by
  have hx : ({ d with breaked := false } : Device).executeNextInstruction =
      some (({ d with breaked := true } : Device).advance 1, 1) := by
    show (d.flashAt d.cpu.pc.toNat).bind _ = _
    rw [hop, Option.some_bind, show decode 0x9598 = .brk from rfl]
    rfl
  refine ⟨_, .mk (stepCPUInterrupts_of_I_clear hI) (.run h0 hx (.done ?_)), rfl, rfl, rfl, rfl⟩
  exact (by decide : BitVec.ofNat 32 1 ≠ 0)

/-- **Reset keeps `breaked_`.** Two states of one device run: after the first `Device::step`
from reset, which ran SBRS on the erased word and cleared `breaked_`, and after the second,
which ran BREAK. They have the same configuration, SRAM and flash, and `Device::reset` leaves
`breaked_` as it was, so the two reset states differ there. -/
theorem reset_keeps_breaked :
    ∃ d1 d2 : Device, DeviceRun d1 ∧ DeviceRun d2 ∧ d1.conf = d2.conf ∧ d1.sram = d2.sram ∧
      d1.flash = d2.flash ∧ d1.reset.breaked ≠ d2.reset.breaked := by
  let d := brkImage.reset
  have honly : Sched.OnlyCpu d.sched 0 := Sched.reset_onlyCpu _ rfl
  -- the first step runs SBRS r31,7 at word 0
  obtain ⟨d1, hs, h0, hcpu, -, hfl1, -, -, hb1⟩ :=
    stepCPU_erased (d := { d with sched := d.sched.advance }) rfl (by decide) rfl (by decide)
  obtain ⟨hstep, honly'⟩ := deviceStep_of_onlyCpu honly (by decide) hs
  let e := { d1 with sched := d.sched.advance.fire 1 }
  -- the second runs BREAK at word 1
  obtain ⟨d2, hs', hb2, hsram, hfl, hc⟩ := stepCPU_brk (d := { e with sched := e.sched.advance })
    h0 (by show flag d1.cpu.sreg I = false; rw [hcpu]; decide)
    (by show d1.flashAt d1.cpu.pc.toNat = _; rw [flashAt, hfl1, hcpu]; rfl)
  have r1 : DeviceRun e := .step (.reset _) hstep
  refine ⟨e, _, r1, .step r1 (deviceStep_of_onlyCpu honly' (by decide) hs').1, hc.symm,
    hsram.symm, hfl.symm, ?_⟩
  show d1.breaked ≠ d2.breaked
  rw [hb1, hb2]; decide

end Device

end Megumi
