import Megumi.Cpu.State

/-!
# The CCP windows of `CPU::step` and the CLK lock

A write of the signature `0x9D` to CCP (`CPU::setIo` at `0x04`, `src/unnamed/part_000`) puts it
in `ccp_buffer_`; the next `CPU::step` opens the I/O-register window, `ccp_ioreg_cycles_ = 4`,
and each later step counts it down. `0xD8` opens the SPM window the same way. `ccpState()` has
`CCP_IOREG` while the window is open, and `CLK::setIo` (`src/block/clk.cpp`) sets LOCK only
then: a LOCK write through the I/O space succeeds exactly when one to four steps separate it
from the signature (`ccp_lock_window`).

Nothing in the repository calls `CPU::step`, so along runs of the device the windows never
open (`deviceRun_ccp_idle`); this module says what the countdown does when it runs. Once LOCK
is set, no sequence of CLK writes, whatever the CCP state, changes LOCK, CTRL, PSCTRL or a
clock scale (`clk_lock_sticky`).
-/

namespace Megumi

namespace Clk

/-- A write of a nonzero value to LOCK locks an unlocked CLK exactly when the CCP state has
`CCP_IOREG`. -/
theorem setIo_lock_iff {c : Clk} (hl : c.locked = false) {v : BitVec 8} (hv : v ≠ 0)
    (ccp : BitVec 8) : (c.setIo ccp 0x02 v).locked = true ↔ ccp &&& CCP_IOREG ≠ 0 := by
  have h0 : ¬((0x02 : BitVec 16) = 0x00 ∧ (!c.locked) = true) := fun h => absurd h.1 (by decide)
  have h1 : ¬((0x02 : BitVec 16) = 0x01 ∧ (!c.locked) = true) := fun h => absurd h.1 (by decide)
  rw [setIo, if_neg h0, if_neg h1, if_pos rfl, if_pos ⟨by rw [hl]; rfl, hv⟩]
  by_cases hc : ccp &&& CCP_IOREG = 0
  · rw [if_neg (not_not.2 hc), hl]
    exact iff_of_false Bool.false_ne_true (not_not.2 hc)
  · rw [if_pos hc]
    exact iff_of_true rfl hc

/-- What LOCK freezes: LOCK itself, CTRL, PSCTRL and the prescalers. -/
structure Frozen (c c' : Clk) : Prop where
  locked : c'.locked = c.locked
  sclk : c'.sclk = c.sclk
  psctrl : c'.psctrl = c.psctrl
  prescalerA : c'.prescalerA = c.prescalerA
  prescalerB : c'.prescalerB = c.prescalerB
  prescalerC : c'.prescalerC = c.prescalerC

theorem Frozen.trans {c c' c'' : Clk} (h : Frozen c c') (h' : Frozen c' c'') : Frozen c c'' :=
  ⟨h'.1.trans h.1, h'.2.trans h.2, h'.3.trans h.3, h'.4.trans h.4, h'.5.trans h.5, h'.6.trans h.6⟩

/-- A locked CLK takes only RTCCTRL writes. -/
theorem setIo_frozen {c : Clk} (hl : c.locked = true) (ccp : BitVec 8) (addr : BitVec 16)
    (v : BitVec 8) : Frozen c (c.setIo ccp addr v) := by
  unfold setIo
  simp only [hl, Bool.not_true, Bool.false_eq_true, and_false, if_false, false_and]
  split_ifs <;> first | exact ⟨rfl, rfl, rfl, rfl, rfl, rfl⟩ | exact ⟨hl.symm, rfl, rfl, rfl, rfl, rfl⟩

end Clk

/-- **LOCK is sticky.** Once CLK.LOCK is set, no sequence of `CLK::setIo` writes, whatever the
CCP state of each, clears it or changes CTRL, PSCTRL or any clock scale. -/
theorem clk_lock_sticky {c c' : Clk}
    (h : Relation.ReflTransGen (fun c c' => ∃ ccp a v, c' = c.setIo ccp a v) c c')
    (hl : c.locked = true) :
    c'.locked = true ∧ c'.sclk = c.sclk ∧ c'.psctrl = c.psctrl ∧
      getClockScale c' = getClockScale c := by
  have hf : Clk.Frozen c c' := by
    induction h with
    | refl => exact ⟨rfl, rfl, rfl, rfl, rfl, rfl⟩
    | tail _ hs ih =>
      obtain ⟨ccp, a, v, rfl⟩ := hs
      exact ih.trans (Clk.setIo_frozen (ih.locked.trans hl) ccp a v)
  refine ⟨hf.locked.trans hl, hf.sclk, hf.psctrl, funext fun clock => ?_⟩
  cases clock <;> simp only [getClockScale, hf.prescalerA, hf.prescalerB, hf.prescalerC]

/-- A locked CLK refuses a CTRL write selecting the PLL. -/
theorem locked_ignores_ctrl :
    ({ Clk.reset with locked := true }.setIo 0 0x00 4).locked = true ∧
      ({ Clk.reset with locked := true }.setIo 0 0x00 4).sclk = Clk.reset.sclk ∧
      ({ Clk.reset with locked := true }.setIo 0 0x00 4).psctrl = Clk.reset.psctrl ∧
      getClockScale ({ Clk.reset with locked := true }.setIo 0 0x00 4) =
        getClockScale { Clk.reset with locked := true } :=
  @clk_lock_sticky { Clk.reset with locked := true } _ (.single ⟨0, 0x00, 4, rfl⟩) rfl

namespace Cpu

/-- `CPU::step`: count the CCP windows down, then open one if `ccp_buffer_` holds a
signature. -/
def step (c : Cpu) : Cpu :=
  let c := { c with ccpIoregCycles := c.ccpIoregCycles - 1, ccpSpmCycles := c.ccpSpmCycles - 1 }
  if c.ccpBuffer = 0x9D then { c with ccpIoregCycles := 4, ccpBuffer := 0 }
  else if c.ccpBuffer = 0xD8 then { c with ccpSpmCycles := 4, ccpBuffer := 0 }
  else c

/-- `ccpState()` has `CCP_IOREG` exactly while the I/O-register window is open. -/
theorem ccpState_and_ioreg (c : Cpu) : c.ccpState &&& Clk.CCP_IOREG ≠ 0 ↔ c.ccpIoregCycles ≠ 0 := by
  unfold ccpState
  by_cases h1 : c.ccpIoregCycles = 0 <;> by_cases h2 : c.ccpSpmCycles = 0 <;>
    simp only [h1, h2, ne_eq, not_true, not_false_eq_true, if_true, if_false] <;> decide

/-- Steps after the signature `0x9D`, with no CCP write between them: the first clears the
buffer and opens a window of four cycles, each later one takes a cycle off. -/
theorem step_iterate_of_ioreg {c : Cpu} (h : c.ccpBuffer = 0x9D) (j : Nat) :
    (step^[j + 1] c).ccpBuffer = 0 ∧ (step^[j + 1] c).ccpIoregCycles = 4 - j := by
  induction j with
  | zero => simp only [zero_add, Function.iterate_one, step, h, if_true, and_self]
  | succ j ih =>
    rw [Function.iterate_succ_apply']
    obtain ⟨hb, hi⟩ := ih
    simp only [step, hb, hi, show (0 : BitVec 8) ≠ 0x9D by decide,
      show (0 : BitVec 8) ≠ 0xD8 by decide, if_false, true_and]
    omega

end Cpu

namespace Device

/-- `CPU::step` on the device's CPU block. -/
def cpuStep (d : Device) : Device := { d with cpu := d.cpu.step }

theorem cpuStep_iterate (d : Device) (k : Nat) :
    cpuStep^[k] d = { d with cpu := Cpu.step^[k] d.cpu } := by
  induction k with
  | zero => rfl
  | succ k ih => rw [Function.iterate_succ_apply', Function.iterate_succ_apply', ih]; rfl

/-- **The CCP window of CLK.LOCK.** Write the signature `0x9D` to CCP through the I/O space, run
`CPU::step` `k ≥ 1` times, then write a nonzero value to CLK.LOCK: an unlocked CLK locks
exactly when `k ≤ 4`. -/
theorem ccp_lock_window (d : Device) {k : Nat} (hk : 1 ≤ k) {v : BitVec 8} (hv : v ≠ 0)
    (hl : d.clk.locked = false) :
    ((cpuStep^[k] (d.setIoMem (CPU_IO_ADDR + 0x04) 0x9D)).setIoMem (CLK_IO_ADDR + 0x02) v).clk.locked =
      true ↔ k ≤ 4 := by
  obtain ⟨j, rfl⟩ : ∃ j, k = j + 1 := ⟨k - 1, by omega⟩
  have hsig : d.setIoMem (CPU_IO_ADDR + 0x04) 0x9D =
      { d with cpu := { d.cpu with ccpBuffer := 0x9D } } := d.setIoMem_cpu (by decide) _
  rw [hsig, cpuStep_iterate, setIoMem_clk _ (by decide)]
  show (Clk.setIo d.clk _ 0x02 v).locked = true ↔ _
  rw [Clk.setIo_lock_iff hl hv, Cpu.ccpState_and_ioreg, (Cpu.step_iterate_of_ioreg rfl j).2]
  omega

/-- On a reset device, the signature then four steps leave the window open for a LOCK write. -/
theorem reset_locks_in_window :
    ((cpuStep^[4] ((create ⟨4, 2, 0, 0, 0x10, false⟩ .core false).reset.setIoMem (CPU_IO_ADDR + 0x04) 0x9D)).setIoMem
      (CLK_IO_ADDR + 0x02) 1).clk.locked = true :=
  (ccp_lock_window _ (by decide) (by decide) rfl).2 le_rfl

end Device

end Megumi
