import Megumi.Cpu.State

/-!
# The constructor's checks and the layout they fix

`Device::Device` (`src/device.cpp`) computes the flash and data layout from a `ModelConf` in its
initializer list, then runs seven `DEVICE_CHECK(cond, msg)`s in order. Two conditions take `%`
by `flash_page_size_`, which is undefined for a zero page size. A false condition throws
`DeviceConfigurationError(*this, msg)`, whose constructor (`src/unnamed/part_001`) builds its
text from `dev.model_name()`, a pure virtual of `Device`, called on the device under
construction: undefined as well, before the message is ever read. `runChecks` follows the
sequence: `none` is an undefined step, `some ()` a device.

So the constructor never throws a `DeviceConfigurationError`: it is undefined exactly on the
configurations `ModelConf.Accepted` rejects, by the division for a zero page size and by the
pure virtual call otherwise, and on the accepted ones the layout is the one the initializer list
computed (`deviceChecks_undefined_iff`).
-/

namespace Megumi

namespace ModelConf

/-- The C++ `%` on unsigned operands: undefined (`none`) when the divisor is zero. -/
def umod (a b : Nat) : Option Nat := if b = 0 then none else some (a % b)

/-- `DEVICE_CHECK`s run in order, each its condition (`none` when evaluating it is undefined).
A false condition constructs `DeviceConfigurationError`, which calls the pure virtual
`model_name()`: undefined too. -/
def runChecks : List (Option Bool) → Option Unit
  | [] => some ()
  | c :: rest => c.bind fun b => if b then runChecks rest else none

/-- The conditions of the `DEVICE_CHECK`s of `Device::Device`, in its order. -/
def deviceChecks (m : ModelConf) : List (Option Bool) :=
  [some (m.flashPageSize % 2 == 0),
   (umod m.flashSize m.flashPageSize).map (· == 0),
   (umod m.flashBootSize m.flashPageSize).map (· == 0),
   some (decide (m.flashBootSize < m.flashSize)),
   some (decide (m.flashBootSize < m.flashAppSize)),
   some (decide (m.memEepromSize ≤ 0x1000)),
   some (decide (m.memSramSize < MEM_MAX_SIZE - MEM_SRAM_START))]

/-- `flash_app_table_start_`. -/
def flashAppTableStart (m : ModelConf) : Nat := m.flashAppSize - m.flashBootSize

/-! ## Running the checks -/

theorem runChecks_eq_some_iff : ∀ {cs : List (Option Bool)},
    runChecks cs = some () ↔ ∀ c ∈ cs, c = some true
  | [] => by simp [runChecks]
  | c :: rest => by
    rcases c with _ | _ | _ <;> simp [runChecks, runChecks_eq_some_iff]

/-! ## The layout of an accepted configuration -/

/-- The layout `Device::Device` leaves, in the terms of its initializer list: whole pages of an
even, non-zero size; the application and boot sections splitting the flash, the boot section
the smaller; the table start computed without wrap-around; the EEPROM window inside
`[0x1000, 0x2000)`; internal SRAM below external SRAM, which ends at `MEM_MAX_SIZE`. -/
structure Layout (m : ModelConf) : Prop where
  page_even : m.flashPageSize % 2 = 0
  page_pos : 0 < m.flashPageSize
  app_pages : m.flashAppSize % m.flashPageSize = 0
  boot_pages : m.flashBootSize % m.flashPageSize = 0
  app_add_boot : m.flashAppSize + m.flashBootSize = m.flashSize
  boot_lt_app : m.flashBootSize < m.flashAppSize
  table_start_add_boot : m.flashAppTableStart + m.flashBootSize = m.flashAppSize
  eeprom_window : MEM_EEPROM_START + m.memEepromSize ≤ 0x2000
  sram_le_exsram : MEM_SRAM_START + m.memSramSize ≤ m.memExsramStart
  sram_end : MEM_SRAM_START + m.memSramSize ≤ MEM_MAX_SIZE
  exsram_end : m.memExsramStart + m.memExsramSize ≤ MEM_MAX_SIZE

/-- The page size of an accepted configuration is not zero: with a zero divisor Lean's `%`
returns the dividend, and a zero flash cannot hold a smaller boot section. -/
theorem Accepted.page_pos {m : ModelConf} (h : m.Accepted) : 0 < m.flashPageSize := by
  obtain ⟨-, hs, hb, hlt, -⟩ := h
  refine Nat.pos_of_ne_zero fun h0 => ?_
  rw [h0, Nat.mod_zero] at hs hb
  omega

theorem Accepted.layout {m : ModelConf} (h : m.Accepted) : m.Layout := by
  have hp := h.page_pos
  obtain ⟨he, hs, hb, hlt, hba, hee, hsr⟩ := h
  have hexs : m.memExsramStart + m.memExsramSize ≤ MEM_MAX_SIZE := by
    unfold memExsramSize memExsramStart
    split <;> omega
  refine ⟨he, hp, ?_, hb, ?_, hba, ?_, ?_, le_rfl, ?_, hexs⟩
  · exact Nat.sub_mod_eq_zero_of_mod_eq (hs.trans hb.symm)
  all_goals simp only [flashAppTableStart, flashAppSize, MEM_EEPROM_START, memExsramStart,
    MEM_SRAM_START, MEM_MAX_SIZE] at *; omega

/-- The conditions are all defined exactly when the page size is not zero. -/
theorem deviceChecks_defined_iff (m : ModelConf) :
    (∀ c ∈ m.deviceChecks, c.isSome) ↔ m.flashPageSize ≠ 0 := by
  by_cases hp : m.flashPageSize = 0 <;> simp [deviceChecks, umod, hp]

/-- **The checks never throw.** `Device::Device` is undefined exactly on the configurations the
checks reject: with a zero page size the second check divides by zero (`0 % 2 == 0` passes the
first), and with every condition defined the first false one constructs
`DeviceConfigurationError`, which calls the pure virtual `model_name()`. On the accepted
configurations the layout is the one the initializer list computed. -/
theorem deviceChecks_undefined_iff (m : ModelConf) :
    (runChecks m.deviceChecks = none ↔ ¬ m.Accepted) ∧
      ((∀ c ∈ m.deviceChecks, c.isSome) ↔ m.flashPageSize ≠ 0) ∧ (m.Accepted → m.Layout) := by
  refine ⟨?_, deviceChecks_defined_iff m, Accepted.layout⟩
  have hpass : runChecks m.deviceChecks = some () ↔ m.Accepted := by
    rw [runChecks_eq_some_iff]
    by_cases hp : m.flashPageSize = 0
    · simp only [deviceChecks, umod, hp, if_true]
      refine iff_of_false (by simp) fun h => ?_
      exact absurd hp (Nat.pos_iff_ne_zero.1 h.page_pos)
    · simp [deviceChecks, umod, hp, Accepted]
  rw [← hpass]
  cases runChecks m.deviceChecks <;> simp

end ModelConf

end Megumi
