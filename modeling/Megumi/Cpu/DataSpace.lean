import Megumi.Cpu.Pointer
import Megumi.Cpu.Stack

/-!
# The data space above the I/O registers

`Device::getDataMem` and `Device::setDataMem` (`src/device.cpp`) split the data space into the
I/O registers below `MEM_IO_SIZE`, the memory-mapped EEPROM, internal SRAM, the emulator window
and external SRAM. Above the I/O registers only internal SRAM takes a write: EEPROM and external
SRAM accesses are logged as unsupported, the emulator window is read-only (its first four bytes
are `clk_sys_tick_`), and any other address is logged as invalid.

So above the I/O registers the data space is a store of SRAM cells over fixed values: a read
after a write returns the byte written where the write hit internal SRAM at that address, and
what it returned before everywhere else, whatever the written address (`dataSpace_store`).
This needs the EEPROM window to end below SRAM, as the constructor's checks ensure.

XCH, LAS and LAT are read-modify-write operations on that store: each loads the byte at Z into
`Rd` and stores `Rd`, `Rd | (Z)` or `Rd ^ (Z)` in its place. LAC differs from them twice: it
stores `Rd & ~(Z)` and writes no register (`exchange_family`).

PUSH and POP go through `stack()`, `&sram_data_[cpu_.sp_ - MEM_SRAM_START]`, not through
`setDataMem`; with SP in internal SRAM they still act on the cells the data space reads
(`stack_is_dataSpace`).

The emulator window at `0xFF00` is reached only where internal SRAM ends below it: there its
first four bytes are those of `clk_sys_tick_`, low byte first (`emulator_window_tick`).
-/

namespace Megumi

namespace Device

section Reads
variable {d e : Device} {b : Nat}

/-- Above the I/O registers a read looks at the configuration, `sram_data_` and
`clk_sys_tick_` only. -/
theorem getDataMem_congr_high (hc : e.conf = d.conf) (hs : e.sram = d.sram)
    (ht : e.sched = d.sched) (hb : MEM_IO_SIZE ≤ b) : e.getDataMem b = d.getDataMem b := by
  simp only [getDataMem, getEmulatorMem, hc, hs, ht, if_neg (Nat.not_lt.2 hb)]

/-- Above the I/O registers and outside internal SRAM, a read does not look at `sram_data_`. -/
theorem getDataMem_congr_not_sram (hc : e.conf = d.conf) (ht : e.sched = d.sched)
    (hb : MEM_IO_SIZE ≤ b)
    (hbS : ¬(MEM_SRAM_START ≤ b ∧ b < MEM_SRAM_START + d.conf.memSramSize)) :
    e.getDataMem b = d.getDataMem b := by
  simp only [getDataMem, getEmulatorMem, hc, ht, if_neg (Nat.not_lt.2 hb), if_neg hbS]

end Reads

/-- Above the I/O registers, a write outside internal SRAM is dropped. -/
theorem setDataMem_of_not_sram {d : Device} {a : Nat} (ha : MEM_IO_SIZE ≤ a)
    (hS : ¬(MEM_SRAM_START ≤ a ∧ a < MEM_SRAM_START + d.conf.memSramSize)) (v : BitVec 8) :
    d.setDataMem a v = d := by
  simp only [setDataMem, if_neg (Nat.not_lt.2 ha), if_neg hS, ite_self]

/-- **The data space as a store.** When the EEPROM window ends below SRAM, a read at any
address `b` above the I/O registers, after a write of `v` at any address `a`, returns `v` if
`a = b` lies in internal SRAM and what it returned before otherwise. -/
theorem dataSpace_store (d : Device) (hE : d.conf.memEepromSize ≤ 0x1000) (a : Nat) {b : Nat}
    (hb : MEM_IO_SIZE ≤ b) (v : BitVec 8) :
    (d.setDataMem a v).getDataMem b =
      if a = b ∧ MEM_SRAM_START ≤ a ∧ a < MEM_SRAM_START + d.conf.memSramSize then v
      else d.getDataMem b := by
  by_cases hS : MEM_SRAM_START ≤ a ∧ a < MEM_SRAM_START + d.conf.memSramSize
  · rw [setDataMem_of_sram hE hS.1 hS.2]
    by_cases hbS : MEM_SRAM_START ≤ b ∧ b < MEM_SRAM_START + d.conf.memSramSize
    · -- both in SRAM: the cells differ exactly when the addresses do
      rw [getDataMem_of_sram (d := d.setSram _ v) hE hbS.1 hbS.2, getDataMem_of_sram hE hbS.1 hbS.2,
        setSram_getD _ (by rw [d.sram_length]; omega)]
      by_cases hab : a = b
      · rw [if_pos (by omega), if_pos ⟨hab, hS⟩]
      · rw [if_neg (by omega), if_neg fun h => hab h.1]
    · rw [getDataMem_congr_not_sram (d := d) (e := d.setSram _ v) rfl rfl hb hbS,
        if_neg fun (h : a = b ∧ _) => hbS (h.1 ▸ h.2)]
  · rw [if_neg fun h => hS h.2]
    by_cases ha : a < MEM_IO_SIZE
    · -- a write to the I/O registers stays in the blocks
      rw [setDataMem, if_pos ha, getDataMem_congr_high (setIoMem_conf ..) (setIoMem_sram ..)
        (setIoMem_sched ..) hb]
    · rw [setDataMem_of_not_sram (Nat.not_lt.1 ha) hS]

/-- A write at `0x2003` on a reset device with 16 bytes of SRAM reads back there. -/
theorem reset_store_reads_back :
    (create ⟨0x400, 0x40, 0x40, 0, 0x10, false⟩ .core false).reset.conf.memEepromSize ≤ 0x1000 ∧
      MEM_IO_SIZE ≤ 0x2003 ∧
      ((create ⟨0x400, 0x40, 0x40, 0, 0x10, false⟩ .core false).reset.setDataMem 0x2003 0x5A).getDataMem 0x2003 =
        if 0x2003 = 0x2003 ∧ MEM_SRAM_START ≤ 0x2003 ∧
            0x2003 < MEM_SRAM_START + (create ⟨0x400, 0x40, 0x40, 0, 0x10, false⟩ .core false).reset.conf.memSramSize
        then 0x5A else (create ⟨0x400, 0x40, 0x40, 0, 0x10, false⟩ .core false).reset.getDataMem 0x2003 :=
  ⟨by decide, by decide, dataSpace_store _ (by decide) 0x2003 (by decide) 0x5A⟩

/-! ## XCH, LAS, LAT and LAC -/

section Exchange
variable {d : Device} (hE : d.conf.memEepromSize ≤ 0x1000)
  (hZ : MEM_SRAM_START ≤ d.regz.toNat ∧ d.regz.toNat < MEM_SRAM_START + d.conf.memSramSize)
include hE hZ

/-- What XCH, LAS and LAT leave: `x` at Z, and the old byte at Z in `Rd`. -/
theorem exchange_result (rd : Fin 32) (x : BitVec 8) :
    (((d.setDataMem d.regz.toNat x).setReg rd (d.getDataMem d.regz.toNat)).advance 1).getDataMem
        d.regz.toNat = x ∧
      (((d.setDataMem d.regz.toNat x).setReg rd (d.getDataMem d.regz.toNat)).advance 1).regfile rd =
        d.getDataMem d.regz.toNat := by
  have hb : MEM_IO_SIZE ≤ d.regz.toNat := by unfold MEM_SRAM_START MEM_IO_SIZE at *; omega
  refine ⟨?_, by simp only [advance_regfile, setReg_regfile, Function.update_same]⟩
  rw [getDataMem_congr_high (e := ((d.setDataMem _ x).setReg rd _).advance 1)
    (d := d.setDataMem _ x) rfl rfl rfl hb]
  exact getDataMem_setDataMem_of_sram hE hZ.1 hZ.2 x

/-- **XCH, LAS, LAT and LAC.** For every state whose Z points into internal SRAM, past an EEPROM
window ending at or below `0x1000`: XCH, LAS and LAT load the byte at Z into `Rd` and store `Rd`,
`Rd | (Z)` and `Rd ^ (Z)` there. LAC stores `Rd & ~(Z)`, which shares no bit with the old byte,
and leaves the register file as it was. Each takes one cycle. -/
theorem exchange_family (rd : Fin 32) :
    (∃ d', d.execute (.xch rd) = some (d', 1) ∧ d'.getDataMem d.regz.toNat = d.regfile rd ∧
      d'.regfile rd = d.getDataMem d.regz.toNat) ∧
    (∃ d', d.execute (.las rd) = some (d', 1) ∧
      d'.getDataMem d.regz.toNat = (d.regfile rd ||| d.getDataMem d.regz.toNat) ∧
      d'.regfile rd = d.getDataMem d.regz.toNat) ∧
    (∃ d', d.execute (.lat rd) = some (d', 1) ∧
      d'.getDataMem d.regz.toNat = (d.regfile rd ^^^ d.getDataMem d.regz.toNat) ∧
      d'.regfile rd = d.getDataMem d.regz.toNat) ∧
    (∃ d', d.execute (.lac rd) = some (d', 1) ∧
      d'.getDataMem d.regz.toNat = (d.regfile rd &&& ~~~d.getDataMem d.regz.toNat) ∧
      d'.getDataMem d.regz.toNat &&& d.getDataMem d.regz.toNat = 0 ∧ d'.regfile = d.regfile) := by
  have hlac : ((d.setDataMem d.regz.toNat (d.regfile rd &&& ~~~d.getDataMem d.regz.toNat)).advance
      1).getDataMem d.regz.toNat = d.regfile rd &&& ~~~d.getDataMem d.regz.toNat := by
    have hb : MEM_IO_SIZE ≤ d.regz.toNat := by unfold MEM_SRAM_START MEM_IO_SIZE at *; omega
    rw [getDataMem_congr_high (e := (d.setDataMem _ _).advance 1) (d := d.setDataMem _ _) rfl rfl
      rfl hb]
    exact getDataMem_setDataMem_of_sram hE hZ.1 hZ.2 _
  refine ⟨⟨_, rfl, exchange_result hE hZ rd _⟩, ⟨_, rfl, exchange_result hE hZ rd _⟩,
    ⟨_, rfl, exchange_result hE hZ rd _⟩, ⟨_, rfl, hlac, ?_, ?_⟩⟩
  · rw [hlac]
    ext i
    simp only [BitVec.getLsbD_and, BitVec.getLsbD_not, BitVec.getLsbD_zero]
    cases (d.getDataMem d.regz.toNat).getLsbD i <;> simp
  · rw [advance_regfile, setDataMem_regfile]

end Exchange

/-! ## The stack in the data space -/

/-- **The stack is the data space at SP.** When the EEPROM window ends at or below `0x1000`:
with SP in internal SRAM, PUSH moves SP down by one and leaves every read above the I/O
registers as a store of `Rr` at SP through `setDataMem` would; with `SP + 1` in internal SRAM,
POP moves SP up by one and loads what `getDataMem` reads at `SP + 1`. -/
theorem stack_is_dataSpace {d : Device} (hE : d.conf.memEepromSize ≤ 0x1000) (rr rd : Fin 32) :
    (MEM_SRAM_START ≤ d.cpu.sp.toNat → d.cpu.sp.toNat < MEM_SRAM_START + d.conf.memSramSize →
      ∃ d', d.execute (.push rr) = some (d', 1) ∧ d'.cpu.sp.toNat = d.cpu.sp.toNat - 1 ∧
        ∀ b, MEM_IO_SIZE ≤ b →
          d'.getDataMem b = (d.setDataMem d.cpu.sp.toNat (d.regfile rr)).getDataMem b) ∧
    (MEM_SRAM_START ≤ d.cpu.sp.toNat + 1 →
      d.cpu.sp.toNat + 1 < MEM_SRAM_START + d.conf.memSramSize → d.cpu.sp.toNat + 1 < 2 ^ 16 →
      ∃ d', d.execute (.pop rd) = some (d', 1) ∧ d'.cpu.sp.toNat = d.cpu.sp.toNat + 1 ∧
        d'.regfile rd = d.getDataMem (d.cpu.sp.toNat + 1)) := by
  refine ⟨fun h0 h1 => ?_, fun h0 h1 hw => ?_⟩
  · have hroom : d.StackRoom 1 := fun k hk => by rw [d.sram_length]; omega
    refine ⟨((d.setSram (d.cpu.sp.toNat - MEM_SRAM_START) (d.regfile rr)).setSp (d.cpu.sp - 1)).advance 1,
      show (d.stackByte 0).map _ = _ by rw [stackByte_of_room hroom Nat.one_pos, Nat.sub_zero]; rfl,
      toNat_sp_sub_one (by unfold MEM_SRAM_START at h0; omega), fun b hb => ?_⟩
    rw [setDataMem_of_sram hE h0 h1]
    exact getDataMem_congr_high (e := ((d.setSram _ _).setSp _).advance 1) (d := d.setSram _ _)
      rfl rfl rfl hb
  · obtain ⟨d1, hx, hsp, hr, -, -⟩ := pop_spec rd h0 (by rw [d.sram_length]; exact h1) hw
    refine ⟨d1, hx, hsp, ?_⟩
    rw [hr, Function.update_same, getDataMem_of_sram hE h0 h1]

/-! ## The emulator window -/

theorem toNat_tickByte (t : BitVec 32) (k : Nat) :
    ((t >>> (k * 8)).truncate 8).toNat = t.toNat / 2 ^ (k * 8) % 256 := by
  rw [BitVec.truncate_eq_setWidth, BitVec.toNat_setWidth, BitVec.toNat_ushiftRight,
    Nat.shiftRight_eq_div_pow]

/-- Below internal SRAM's end and the EEPROM window's, a read in the emulator window is
`getEmulatorMem`'s. -/
theorem getDataMem_emulator {d : Device} (hE : d.conf.memEepromSize ≤ 0x1000)
    (hS : MEM_SRAM_START + d.conf.memSramSize ≤ MEM_EMULATOR_START) {k : Nat}
    (hk : k < MEM_EMULATOR_SIZE) :
    d.getDataMem (MEM_EMULATOR_START + k) =
      if k < 4 then (d.sched.clkSysTick >>> (k * 8)).truncate 8 else 0 := by
  unfold MEM_EMULATOR_SIZE at hk
  have h1 : ¬MEM_EMULATOR_START + k < MEM_IO_SIZE := by
    unfold MEM_EMULATOR_START MEM_IO_SIZE; omega
  have h2 : ¬(MEM_EEPROM_START ≤ MEM_EMULATOR_START + k ∧
      MEM_EMULATOR_START + k < MEM_EEPROM_START + d.conf.memEepromSize) := by
    unfold MEM_EMULATOR_START MEM_EEPROM_START; omega
  have h3 : ¬(MEM_SRAM_START ≤ MEM_EMULATOR_START + k ∧
      MEM_EMULATOR_START + k < MEM_SRAM_START + d.conf.memSramSize) := by omega
  have h4 : MEM_EMULATOR_START ≤ MEM_EMULATOR_START + k ∧
      MEM_EMULATOR_START + k < MEM_EMULATOR_START + MEM_EMULATOR_SIZE :=
    ⟨Nat.le_add_right _ _, by unfold MEM_EMULATOR_SIZE; omega⟩
  rw [getDataMem, if_neg h1, if_neg h2, if_neg h3, if_pos h4, getEmulatorMem]
  simp only [Nat.add_sub_cancel_left, Nat.mod_eq_of_lt (show k < 2 ^ 16 by omega)]

/-- **The emulator window.** When the EEPROM window ends at or below `0x1000` and internal SRAM
at or below `0xFF00`, the four bytes at `0xFF00`, read little-endian, are `clk_sys_tick_`, and
every other byte of the window reads 0. -/
theorem emulator_window_tick (d : Device) (hE : d.conf.memEepromSize ≤ 0x1000)
    (hS : MEM_SRAM_START + d.conf.memSramSize ≤ MEM_EMULATOR_START) :
    (d.getDataMem MEM_EMULATOR_START).toNat + (d.getDataMem (MEM_EMULATOR_START + 1)).toNat * 2 ^ 8 +
        (d.getDataMem (MEM_EMULATOR_START + 2)).toNat * 2 ^ 16 +
        (d.getDataMem (MEM_EMULATOR_START + 3)).toNat * 2 ^ 24 = d.sched.clkSysTick.toNat ∧
      ∀ k, 4 ≤ k → k < MEM_EMULATOR_SIZE → d.getDataMem (MEM_EMULATOR_START + k) = 0 := by
  refine ⟨?_, fun k h4 hk => by rw [getDataMem_emulator hE hS hk, if_neg (by omega)]⟩
  have e0 := getDataMem_emulator hE hS (k := 0) (by decide)
  rw [Nat.add_zero] at e0
  simp only [e0, getDataMem_emulator hE hS (k := 1) (by decide),
    getDataMem_emulator hE hS (k := 2) (by decide), getDataMem_emulator hE hS (k := 3) (by decide),
    Nat.reduceLT, if_true, toNat_tickByte]
  have := d.sched.clkSysTick.isLt
  omega

end Device

end Megumi
