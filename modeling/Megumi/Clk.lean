import Mathlib.Data.Nat.Defs
import Mathlib.Tactic.IntervalCases
import Mathlib.Tactic.NormNum

/-!
# The CLK block and `Device::getClockScale`

`src/block/clk.cpp`: the system clock selection, the PSCTRL prescalers and the lock.
`Device::getClockScale` (`src/device.cpp`) turns the prescalers into the number of SYS ticks
per tick of each clock domain. `device.cpp` reads them as `prescaler_a_`, `prescaler_b_`,
`prescaler_c_`; `clk.cpp` names them `prescalerA_div_`, `prescalerB_div_`, `prescalerC_div_`.

`clk.h` is not in the repository. Its register layouts are taken from the XMEGA manual:
PSCTRL is `psbcdiv` in bits 0-1 and `psadiv` in bits 2-6, RTCCTRL's source is `ULP = 0`,
`TOSC = 1`, `RCOSC = 2`, `TOSC32 = 5`, and the last valid SCLKSEL is `PLL = 4`.
-/

namespace Megumi

/-- Clock domains (`clock.h`, not in the repository; the spec's list). -/
inductive ClockType
  | sys | cpu | per | per2 | per4 | asy
  deriving DecidableEq, Repr, Inhabited

/-- The state of `block::CLK`. -/
structure Clk where
  sclk : BitVec 8
  psctrl : BitVec 8
  prescalerA : BitVec 32
  prescalerB : BitVec 32
  prescalerC : BitVec 32
  locked : Bool
  rtcsrc : BitVec 8
  rtcen : Bool
  deriving DecidableEq, Repr

namespace Clk

/-- `CCP_IOREG` in `Device::ccpState()`'s bitmask (`device.h`). -/
def CCP_IOREG : BitVec 8 := 0x1

/-- `CLK::reset`. -/
def reset : Clk :=
  { sclk := 0, psctrl := 0, prescalerA := 1, prescalerB := 1, prescalerC := 1, locked := false,
    rtcsrc := 0, rtcen := false }

/-- PSCTRL's `psadiv` field. -/
def psadiv (v : BitVec 8) : BitVec 8 := (v >>> 2) &&& 0x1F

/-- PSCTRL's `psbcdiv` field. -/
def psbcdiv (v : BitVec 8) : BitVec 8 := v &&& 0x3

/-- `CLK::getIo`. -/
def getIo (c : Clk) (addr : BitVec 16) : BitVec 8 :=
  if addr = 0x00 then c.sclk
  else if addr = 0x01 then c.psctrl
  else if addr = 0x02 then (if c.locked then 1 else 0)
  else if addr = 0x03 then (if c.rtcen then 1 else 0) ||| (c.rtcsrc <<< 1)
  else 0

/-- The prescalers `CLK::setIo` derives from a PSCTRL value ("keep prescalerX_div_ on sync"). -/
def withPsctrl (c : Clk) (data : BitVec 8) : Clk :=
  { c with
    psctrl := data
    prescalerA := 1#32 <<< (psadiv data).toNat
    prescalerB := if psbcdiv data &&& 2 ≠ 0 then 1#32 <<< (4 - psbcdiv data).toNat else 1
    prescalerC := 1#32 <<< (psbcdiv data &&& 1).toNat }

/-- `CLK::setIo`; `ccp` is `device_->ccpState()`. Rejected values only log an error. -/
def setIo (c : Clk) (ccp : BitVec 8) (addr : BitVec 16) (v : BitVec 8) : Clk :=
  if addr = 0x00 ∧ !c.locked then
    if v &&& 0x7 > 4 then c else { c with sclk := v &&& 0x7 }
  else if addr = 0x01 ∧ !c.locked then
    if psadiv (v &&& 0x7F) > 9 then c else c.withPsctrl (v &&& 0x7F)
  else if addr = 0x02 then
    if !c.locked ∧ v ≠ 0 then
      if ccp &&& CCP_IOREG ≠ 0 then { c with locked := true } else c
    else c
  else if addr = 0x03 then
    if (v >>> 1) &&& 7 ≤ 2 ∨ (v >>> 1) &&& 7 = 5 then
      { c with rtcen := v &&& 1 ≠ 0, rtcsrc := (v >>> 1) &&& 7 }
    else { c with rtcen := v &&& 1 ≠ 0 }
  else c

/-- The prescalers `CLK::reset` and `CLK::setIo` can produce: `A` divides 512, `B` divides 4
and `C` divides 2, so every scale is a power of two dividing 4096. -/
def Valid (c : Clk) : Prop :=
  c.prescalerA.toNat ∣ 512 ∧ c.prescalerB.toNat ∣ 4 ∧ c.prescalerC.toNat ∣ 2

theorem reset_valid : reset.Valid := by unfold Valid; decide

theorem withPsctrl_valid (c : Clk) {data : BitVec 8} (h : psadiv data ≤ 9) :
    (c.withPsctrl data).Valid := by
  have ha : (psadiv data).toNat ≤ 9 := h
  have h3 : (psbcdiv data).toNat ≤ 3 := by
    unfold psbcdiv; rw [BitVec.toNat_and]; exact Nat.and_le_right
  have hb : psbcdiv data = 0 ∨ psbcdiv data = 1 ∨ psbcdiv data = 2 ∨ psbcdiv data = 3 := by
    bv_omega
  refine ⟨?_, ?_, ?_⟩ <;> simp only [withPsctrl]
  · rw [BitVec.toNat_shiftLeft, BitVec.toNat_ofNat, Nat.one_shiftLeft,
      Nat.mod_eq_of_lt (Nat.pow_lt_pow_right (by norm_num) (by omega))]
    exact Nat.pow_dvd_pow 2 ha
  all_goals rcases hb with hb | hb | hb | hb <;> rw [hb] <;> decide

theorem setIo_valid {c : Clk} (h : c.Valid) (ccp : BitVec 8) (addr : BitVec 16) (v : BitVec 8) :
    (c.setIo ccp addr v).Valid := by
  unfold setIo
  split_ifs <;> first | exact h | (apply c.withPsctrl_valid; bv_omega)

/-- Without `CCP_IOREG` in the CCP state, a write leaves LOCK as it was. -/
theorem setIo_locked {c : Clk} {ccp : BitVec 8} (h : ccp &&& CCP_IOREG = 0) (addr : BitVec 16)
    (v : BitVec 8) : (c.setIo ccp addr v).locked = c.locked := by
  unfold setIo
  split_ifs <;> first | rfl | contradiction

end Clk

/-- `Device::getClockScale`. `ASY` is not supported: it logs a warning and counts as `SYS`. -/
def getClockScale (c : Clk) : ClockType → BitVec 32
  | .sys => 1
  | .cpu | .per => c.prescalerA * c.prescalerB * c.prescalerC
  | .per2 => c.prescalerA * c.prescalerB
  | .per4 => c.prescalerA
  | .asy => 1

/-- Every scale of a valid CLK is a power of two up to 4096: positive, and a divisor of
`2 ^ 32`, so that `unsigned int` arithmetic keeps ticks aligned on it. -/
theorem getClockScale_dvd {c : Clk} (h : c.Valid) (clock : ClockType) :
    (getClockScale c clock).toNat ∣ 4096 := by
  obtain ⟨ha, hb, hc⟩ := h
  have hab : c.prescalerA.toNat * c.prescalerB.toNat ≤ 512 * 4 :=
    Nat.mul_le_mul (Nat.le_of_dvd (by norm_num) ha) (Nat.le_of_dvd (by norm_num) hb)
  have habc : c.prescalerA.toNat * c.prescalerB.toNat * c.prescalerC.toNat ≤ 512 * 4 * 2 :=
    Nat.mul_le_mul hab (Nat.le_of_dvd (by norm_num) hc)
  cases clock <;> simp only [getClockScale, BitVec.toNat_mul]
  · decide
  all_goals try rw [Nat.mod_eq_of_lt (show c.prescalerA.toNat * c.prescalerB.toNat < 2 ^ 32 by omega)]
  · rw [Nat.mod_eq_of_lt (by omega)]
    exact Nat.mul_dvd_mul (Nat.mul_dvd_mul ha hb) hc
  · rw [Nat.mod_eq_of_lt (by omega)]
    exact Nat.mul_dvd_mul (Nat.mul_dvd_mul ha hb) hc
  · exact (Nat.mul_dvd_mul ha hb).trans (by norm_num)
  · exact ha.trans (by norm_num)
  · decide

theorem getClockScale_pos {c : Clk} (h : c.Valid) (clock : ClockType) :
    0 < (getClockScale c clock).toNat :=
  Nat.pos_of_dvd_of_pos (getClockScale_dvd h clock) (by norm_num)

end Megumi
