import Megumi.Scheduler
import Megumi.Wiring

/-!
# The device state and its data memory

The fields of `Device` that `executeNextInstruction`, `processPendingInterrupts` and `stepCPU`
read and write (`src/unnamed/part_001`), the CPU block's registers (`src/unnamed/part_000`), and
the data memory router `getDataMem` / `setDataMem` (`src/device.cpp`).

`flash_data_` and `sram_data_` are `std::vector`s: an index past their end is undefined
behaviour, so every access through `operator[]` without a range check returns an `Option`.
The blocks whose code is not in the repository (OSC, PMIC, GPIOR) are one byte store `io`;
the CPU block and the CLK block answer their own I/O addresses. PMIC STATUS and CTRL are
fields, as `processPendingInterrupts` reads them.

Modelled from the spec, since `common.h`, `block/cpu.h` and `block/pmic.h` are not in the
repository: assigning a nonzero value to a one-bit field of SREG sets it; `ccpState()` has
`CCP_IOREG` while `ccp_ioreg_cycles_` is nonzero and `CCP_SPM` while `ccp_spm_cycles_` is;
`stack_set<N>(p, v)` stores the `N / 8` bytes of `v` at `p[0]`, `p[-1]`, `p[-2]`, low byte
first, and `stack_get<N>` reads them back; PMIC STATUS has `lolvlex`, `medlvlex`, `hilvlex`
and `nmiex` in bits 0 to 3, the bits `1 << (lvl-1)` of `currentIntLvl`; `PMIC::reset` clears
STATUS and CTRL.
-/

namespace Megumi

/-- `MEM_EEPROM_START`. -/
def MEM_EEPROM_START : Nat := 0x1000
/-- `MEM_SRAM_START`. -/
def MEM_SRAM_START : Nat := 0x2000
/-- `MEM_EMULATOR_START`. -/
def MEM_EMULATOR_START : Nat := 0xFF00
/-- `MEM_EMULATOR_SIZE`. -/
def MEM_EMULATOR_SIZE : Nat := 0x100
/-- `MEM_MAX_SIZE`. -/
def MEM_MAX_SIZE : Nat := 0x1000000

/-- `Device::ModelConf`. -/
structure ModelConf where
  flashSize : Nat
  flashPageSize : Nat
  flashBootSize : Nat
  memEepromSize : Nat
  memSramSize : Nat
  hasExsram : Bool
  deriving DecidableEq, Repr

namespace ModelConf

/-- `flash_app_size_`. -/
def flashAppSize (m : ModelConf) : Nat := m.flashSize - m.flashBootSize
/-- `flash_boot_start_`. -/
def flashBootStart (m : ModelConf) : Nat := m.flashSize - m.flashBootSize
/-- `mem_exsram_start_`. -/
def memExsramStart (m : ModelConf) : Nat := MEM_SRAM_START + m.memSramSize
/-- `mem_exsram_size_`. -/
def memExsramSize (m : ModelConf) : Nat := if m.hasExsram then MEM_MAX_SIZE - m.memExsramStart else 0

/-- The checks of the `Device` constructor, in its order. -/
def Accepted (m : ModelConf) : Prop :=
  m.flashPageSize % 2 = 0 ∧ m.flashSize % m.flashPageSize = 0 ∧
    m.flashBootSize % m.flashPageSize = 0 ∧ m.flashBootSize < m.flashSize ∧
    m.flashBootSize < m.flashAppSize ∧ m.memEepromSize ≤ 0x1000 ∧
    m.memSramSize < MEM_MAX_SIZE - MEM_SRAM_START

instance (m : ModelConf) : Decidable m.Accepted := by unfold Accepted; infer_instance

/-- `flash_size_ <= 0x20000`: return addresses take two bytes on the stack, else three. -/
def smallFlash (m : ModelConf) : Bool := m.flashSize ≤ 0x20000

/-- The bytes of a return address on the stack. -/
def retBytes (m : ModelConf) : Nat := if m.smallFlash then 2 else 3

end ModelConf

/-! SREG's bits, in the order of `BSET s` / `BCLR s` (`SEC` is `BSET 0`). -/

namespace Sreg
def C : Nat := 0
def Z : Nat := 1
def N : Nat := 2
def V : Nat := 3
def S : Nat := 4
def H : Nat := 5
def T : Nat := 6
def I : Nat := 7
end Sreg

/-- A bit of a byte. -/
def flag (x : BitVec 8) (i : Nat) : Bool := x.getLsbD i

/-- `sreg_.X = b`, for a one-bit field. -/
def setFlag (x : BitVec 8) (i : Nat) (b : Bool) : BitVec 8 :=
  if b then x ||| (1#8 <<< i) else x &&& ~~~(1#8 <<< i)

/-- A bit as the `0` or `1` it reads as in arithmetic. -/
def bit (b : Bool) : BitVec 8 := if b then 1 else 0

theorem flag_setFlag_same (x : BitVec 8) {i : Nat} (hi : i < 8) (b : Bool) :
    flag (setFlag x i b) i = b := by
  unfold flag setFlag
  cases b <;> simp [BitVec.getLsbD_shiftLeft, hi]

theorem getLsbD_one_shiftLeft_ne {i j : Nat} (h : i ≠ j) : (1#8 <<< i).getLsbD j = false := by
  simp only [BitVec.getLsbD_shiftLeft, BitVec.getLsbD_one]
  by_cases hj : j < i <;> simp [hj]
  omega

theorem flag_setFlag_ne (x : BitVec 8) {i j : Nat} (h : i ≠ j) (b : Bool) :
    flag (setFlag x i b) j = flag x j := by
  have hb := getLsbD_one_shiftLeft_ne h
  cases b
  · show (x &&& ~~~(1#8 <<< i)).getLsbD j = x.getLsbD j
    rw [BitVec.getLsbD_and, BitVec.getLsbD_not, hb, Bool.not_false, Bool.and_true]
    exact Bool.and_iff_left_iff_imp.2 fun hx => decide_eq_true (BitVec.lt_of_getLsbD hx)
  · show (x ||| (1#8 <<< i)).getLsbD j = x.getLsbD j
    rw [BitVec.getLsbD_or, hb, Bool.or_false]

/-! PMIC STATUS's bits, modelled from the spec and from `currentIntLvl`'s `1 << (lvl-1)`. -/

namespace PmicStatus
def lolvlex : Nat := 0
def medlvlex : Nat := 1
def hilvlex : Nat := 2
def nmiex : Nat := 3
end PmicStatus

/-- The registers of `block::CPU`. -/
structure Cpu where
  sreg : BitVec 8
  sp : BitVec 16
  pc : BitVec 32
  rampd : BitVec 8
  rampx : BitVec 8
  rampy : BitVec 8
  rampz : BitVec 8
  eind : BitVec 8
  ccpBuffer : BitVec 8
  ccpIoregCycles : Nat
  ccpSpmCycles : Nat
  deriving DecidableEq, Repr

namespace Cpu

/-- `Device::CCP_IOREG`. -/
def CCP_IOREG : BitVec 8 := 0x1
/-- `Device::CCP_SPM`. -/
def CCP_SPM : BitVec 8 := 0x2

/-- `CPU::ccpState()`. -/
def ccpState (c : Cpu) : BitVec 8 :=
  (if c.ccpIoregCycles ≠ 0 then CCP_IOREG else 0) ||| (if c.ccpSpmCycles ≠ 0 then CCP_SPM else 0)

/-- `CPU::reset`: the stack pointer at the last byte of internal SRAM, the rest cleared. -/
def reset (m : ModelConf) : Cpu :=
  { sreg := 0, sp := BitVec.ofNat 16 (m.memExsramStart - 1), pc := 0, rampd := 0, rampx := 0,
    rampy := 0, rampz := 0, eind := 0, ccpBuffer := 0, ccpIoregCycles := 0, ccpSpmCycles := 0 }

end Cpu

/-- A `Device`: its configuration, memories, register file, blocks, interrupt and stepping
state, and scheduler. The lengths of `flash_data_` and `sram_data_` are those the constructor
allocates. -/
structure Device where
  conf : ModelConf
  flash : List (BitVec 16)
  sram : List (BitVec 8)
  flash_length : flash.length = conf.flashSize / 2
  sram_length : sram.length = conf.memSramSize
  regfile : Fin 32 → BitVec 8
  cpu : Cpu
  clk : Clk
  pmicStatus : BitVec 8
  pmicCtrl : BitVec 8
  io : Nat → BitVec 8
  ivPending : IvPending
  blocks : DeviceBlocks
  ivCalls : List (Block × Nat)
  instructionCycles : BitVec 32
  interruptWaitInstruction : Bool
  breaked : Bool
  sched : Sched

namespace Device

/-- `Device::Device` for a configuration: `flash_data_` erased to `0xFFFF`, `sram_data_`
zeroed, and the blocks `bs`. `breaked_` is not in the initializer list: it starts as `breaked`,
any value. The other fields are those `reset` sets, and `iv_pending_` starts empty. -/
def create (m : ModelConf) (bs : DeviceBlocks) (breaked : Bool) : Device where
  conf := m
  flash := List.replicate (m.flashSize / 2) 0xFFFF
  sram := List.replicate m.memSramSize 0
  flash_length := List.length_replicate ..
  sram_length := List.length_replicate ..
  regfile := fun _ => 0
  cpu := Cpu.reset m
  clk := Clk.reset
  pmicStatus := 0
  pmicCtrl := 0
  io := bs.ioReset
  ivPending := .empty
  blocks := bs
  ivCalls := []
  instructionCycles := 0
  interruptWaitInstruction := true
  breaked := breaked
  sched := .empty

/-- `Device::reset`: the stepping state, the clock queue with only `stepCPU`, then the blocks
of `blocks_` (CPU, CLK, PMIC's STATUS and CTRL, and the bytes of the other blocks), and the
register file. SRAM, `breaked_` and the pending vectors are kept. -/
def reset (d : Device) : Device :=
  { d with
    instructionCycles := 0, interruptWaitInstruction := true, clk := Clk.reset,
    sched := d.sched.reset (getClockScale Clk.reset .cpu), cpu := Cpu.reset d.conf,
    pmicStatus := 0, pmicCtrl := 0, io := d.blocks.ioReset, regfile := fun _ => 0 }

@[simp] theorem reset_flash (d : Device) : d.reset.flash = d.flash := rfl
@[simp] theorem reset_conf (d : Device) : d.reset.conf = d.conf := rfl

/-! ## The register file and its 16-bit views -/

/-- The little-endian 16-bit view at `regfile_[i]`, `regfile_[i+1]` (`reg01_`, `regx_`,
`regy_`, `regz_`). -/
def getPair (d : Device) (i : Fin 32) : BitVec 16 := d.regfile (i + 1) ++ d.regfile i

/-- Write a 16-bit view. -/
def setPair (d : Device) (i : Fin 32) (v : BitVec 16) : Device :=
  let lo := Function.update d.regfile i (v.truncate 8)
  { d with regfile := Function.update lo (i + 1) ((v >>> 8).truncate 8) }

/-- `regx_`, `regy_`, `regz_`. -/
def regx (d : Device) : BitVec 16 := d.getPair 26
def regy (d : Device) : BitVec 16 := d.getPair 28
def regz (d : Device) : BitVec 16 := d.getPair 30

/-- Write `regfile_[i]`. -/
def setReg (d : Device) (i : Fin 32) (v : BitVec 8) : Device :=
  { d with regfile := Function.update d.regfile i v }

/-- The SREG of the CPU block, changed by `f`. -/
def modifySreg (d : Device) (f : BitVec 8 → BitVec 8) : Device :=
  { d with cpu := { d.cpu with sreg := f d.cpu.sreg } }

/-- `cpu_.pc_ = pc`. -/
def setPc (d : Device) (pc : BitVec 32) : Device := { d with cpu := { d.cpu with pc } }

/-- `cpu_.sp_ = sp`. -/
def setSp (d : Device) (sp : BitVec 16) : Device := { d with cpu := { d.cpu with sp } }

@[simp] theorem setReg_regfile (d : Device) (i : Fin 32) (v : BitVec 8) :
    (d.setReg i v).regfile = Function.update d.regfile i v := rfl
@[simp] theorem setReg_cpu (d : Device) (i : Fin 32) (v : BitVec 8) :
    (d.setReg i v).cpu = d.cpu := rfl
@[simp] theorem modifySreg_regfile (d : Device) (f : BitVec 8 → BitVec 8) :
    (d.modifySreg f).regfile = d.regfile := rfl
@[simp] theorem modifySreg_sreg (d : Device) (f : BitVec 8 → BitVec 8) :
    (d.modifySreg f).cpu.sreg = f d.cpu.sreg := rfl
@[simp] theorem setPc_regfile (d : Device) (pc : BitVec 32) : (d.setPc pc).regfile = d.regfile :=
  rfl
@[simp] theorem setPc_sreg (d : Device) (pc : BitVec 32) : (d.setPc pc).cpu.sreg = d.cpu.sreg :=
  rfl
@[simp] theorem setPc_pc (d : Device) (pc : BitVec 32) : (d.setPc pc).cpu.pc = pc := rfl

/-- Writing a 16-bit view and reading it back gives the value written. -/
@[simp] theorem getPair_setPair (d : Device) (i : Fin 32) (v : BitVec 16) :
    (d.setPair i v).getPair i = v := by
  have hne : i ≠ i + 1 := by omega
  simp only [getPair, setPair, Function.update_same, Function.update_noteq hne]
  apply BitVec.eq_of_toNat_eq
  have := v.isLt
  simp only [BitVec.toNat_append, BitVec.toNat_setWidth, BitVec.toNat_ushiftRight,
    Nat.shiftRight_eq_div_pow, Nat.shiftLeft_eq]
  rw [Nat.mul_comm, ← Nat.mul_add_lt_is_or (Nat.mod_lt _ (by decide))]
  omega

theorem getPair_setReg {d : Device} {i j : Fin 32} (h0 : j ≠ i) (h1 : j ≠ i + 1) (v : BitVec 8) :
    (d.setReg j v).getPair i = d.getPair i := by
  simp only [getPair, setReg, Function.update_noteq (Ne.symm h0), Function.update_noteq (Ne.symm h1)]

theorem setPair_regfile_of_ne {d : Device} {i j : Fin 32} (h0 : j ≠ i) (h1 : j ≠ i + 1)
    (v : BitVec 16) : (d.setPair i v).regfile j = d.regfile j := by
  simp only [setPair, Function.update_noteq h0, Function.update_noteq h1]

@[simp] theorem setPair_cpu (d : Device) (i : Fin 32) (v : BitVec 16) :
    (d.setPair i v).cpu = d.cpu := rfl

/-! ## Memories -/

/-- `flash_data_[i]`, or `none` past its end. -/
def flashAt (d : Device) (i : Nat) : Option (BitVec 16) := d.flash[i]?

/-- `sram_data_[i] = v`. -/
def setSram (d : Device) (i : Nat) (v : BitVec 8) : Device :=
  { d with sram := d.sram.set i v, sram_length := by rw [List.length_set, d.sram_length] }

/-- The index `stack()` takes, `cpu_.sp_ - MEM_SRAM_START` in 32-bit arithmetic, when it is
inside `sram_data_`. -/
def stackIndex (d : Device) : Option Nat :=
  if (d.cpu.sp.toNat + 2 ^ 32 - MEM_SRAM_START) % 2 ^ 32 < d.sram.length then
    some ((d.cpu.sp.toNat + 2 ^ 32 - MEM_SRAM_START) % 2 ^ 32)
  else none

/-- `stack()[-k]`, the byte `k` below the stack pointer, when it is in `sram_data_`. -/
def stackByte (d : Device) (k : Nat) : Option Nat :=
  d.stackIndex.bind fun i => if k ≤ i then some (i - k) else none

/-- The byte of `v` that `stack_set` stores `k` below the stack pointer. -/
def byteOf (v : BitVec 32) (k : Nat) : BitVec 8 := (v >>> (8 * k)).truncate 8

/-- `stack_set<8 * n>(stack(), v)`: the `n` low bytes of `v`, low byte first, at the stack
pointer and below. -/
def stackSet (d : Device) : Nat → BitVec 32 → Option Device
  | 0, _ => some d
  | n + 1, v => (d.stackByte n).bind fun i => (d.setSram i (byteOf v n)).stackSet n v

/-- `stack_get<8 * n>(stack())`. -/
def stackGet (d : Device) : Nat → Option (BitVec 32)
  | 0 => some 0
  | n + 1 => (d.stackByte n).bind fun i => (d.stackGet n).map fun v =>
      v + ((d.sram.getD i 0).zeroExtend 32 <<< (8 * n))

theorem stackByte_congr {d e : Device} (hsp : d.cpu.sp = e.cpu.sp)
    (hl : d.sram.length = e.sram.length) (k : Nat) : d.stackByte k = e.stackByte k := by
  simp only [stackByte, stackIndex, hsp, hl]

theorem stackIndex_lt {d : Device} {I : Nat} (h : d.stackIndex = some I) : I < d.sram.length := by
  unfold stackIndex at h
  by_cases hi : (d.cpu.sp.toNat + 2 ^ 32 - MEM_SRAM_START) % 2 ^ 32 < d.sram.length
  · rw [if_pos hi, Option.some.injEq] at h; exact h ▸ hi
  · rw [if_neg hi] at h; cases h

theorem stackByte_spec {d : Device} {k i : Nat} (h : d.stackByte k = some i) :
    ∃ I, d.stackIndex = some I ∧ k ≤ I ∧ i = I - k := by
  unfold stackByte at h
  obtain ⟨I, hI, h⟩ := Option.bind_eq_some.1 h
  split at h
  · cases h; exact ⟨I, hI, ‹_›, rfl⟩
  · cases h

theorem stackByte_of {d : Device} {I k : Nat} (hI : d.stackIndex = some I) (hk : k ≤ I) :
    d.stackByte k = some (I - k) := by
  rw [stackByte, hI, Option.some_bind, if_pos hk]

@[simp] theorem setSram_length (d : Device) (i : Nat) (v : BitVec 8) :
    (d.setSram i v).sram.length = d.sram.length := List.length_set ..

@[simp] theorem setSram_cpu (d : Device) (i : Nat) (v : BitVec 8) : (d.setSram i v).cpu = d.cpu :=
  rfl

theorem setSram_getD (d : Device) {i : Nat} (hi : i < d.sram.length) (v : BitVec 8) (j : Nat) :
    (d.setSram i v).sram.getD j 0 = if i = j then v else d.sram.getD j 0 := by
  simp only [setSram, List.getD_eq_getElem?_getD, List.getElem?_set]
  split_ifs <;> simp_all

/-- What `stack_set` leaves: the other fields, and the byte `k` of `v` at `k` below the stack
pointer, for each `k < n`; every other byte of `sram_data_` is kept. -/
theorem stackSet_spec {d d' : Device} {n : Nat} {v : BitVec 32} (h : d.stackSet n v = some d') :
    (∃ sram hs, d' = { d with sram, sram_length := hs }) ∧
      (∀ k < n, ∃ i, d.stackByte k = some i ∧ d'.sram.getD i 0 = byteOf v k) ∧
      ∀ j, (∀ k < n, d.stackByte k ≠ some j) → d'.sram.getD j 0 = d.sram.getD j 0 := by
  induction n generalizing d with
  | zero => cases h; exact ⟨⟨_, _, rfl⟩, nofun, fun _ _ => rfl⟩
  | succ n ih =>
    obtain ⟨i, hi, h⟩ := Option.bind_eq_some.1 h
    obtain ⟨I, hI, hnI, rfl⟩ := stackByte_spec hi
    have hIl := stackIndex_lt hI
    have hc : ∀ k, (d.setSram (I - n) (byteOf v n)).stackByte k = d.stackByte k :=
      stackByte_congr rfl (setSram_length ..)
    obtain ⟨⟨sram, hs, rfl⟩, hset, hkeep⟩ := ih h
    refine ⟨⟨sram, hs, rfl⟩, fun k hk => ?_, fun j hj => ?_⟩
    · rcases Nat.lt_succ_iff_lt_or_eq.1 hk with hk | rfl
      · obtain ⟨i', hi', hv⟩ := hset k hk
        exact ⟨i', hc k ▸ hi', hv⟩
      · refine ⟨_, hi, ?_⟩
        rw [hkeep _ fun k' hk' e => ?_, setSram_getD _ (by omega), if_pos rfl]
        rw [hc, stackByte_of hI (by omega), Option.some.injEq] at e
        omega
    · rw [hkeep j fun k hk => hc k ▸ hj k (by omega), setSram_getD _ (by omega),
        if_neg fun e => hj n (by omega) (by rw [← e]; exact hi)]

/-- `stack_get` reads back the low bytes `stack_set` stored. -/
theorem stackGet_of_bytes {d : Device} {n : Nat} {v : BitVec 32} (hn : n ≤ 4)
    (h : ∀ k < n, ∃ i, d.stackByte k = some i ∧ d.sram.getD i 0 = byteOf v k) :
    ∃ w, d.stackGet n = some w ∧ w.toNat = v.toNat % 2 ^ (8 * n) := by
  induction n with
  | zero => exact ⟨0, rfl, (Nat.mod_one _).symm⟩
  | succ n ih =>
    obtain ⟨w, hw, hwv⟩ := ih (by omega) fun k hk => h k (by omega)
    obtain ⟨i, hi, hb⟩ := h n (by omega)
    refine ⟨_, by rw [stackGet, hi, Option.some_bind, hw, Option.map_some'], ?_⟩
    rw [hb, byteOf, BitVec.toNat_add, BitVec.toNat_shiftLeft, BitVec.toNat_setWidth,
      BitVec.toNat_setWidth, BitVec.toNat_ushiftRight, Nat.shiftRight_eq_div_pow, hwv,
      Nat.shiftLeft_eq, show 8 * (n + 1) = 8 * n + 8 by omega, Nat.pow_add, Nat.mod_mul]
    generalize hP : 2 ^ (8 * n) = P
    generalize hB : v.toNat / P % 2 ^ 8 = B
    have hPpos : 0 < P := hP ▸ Nat.two_pow_pos _
    have hP32 : P * 2 ^ 8 ≤ 2 ^ 32 := by
      rw [← hP, ← Nat.pow_add]; exact Nat.pow_le_pow_right (by decide) (by omega)
    have hlow : v.toNat % P < P := Nat.mod_lt _ hPpos
    have hPB : B * P ≤ 255 * P := Nat.mul_le_mul_right _ (by omega)
    rw [Nat.mod_eq_of_lt (by omega : B < 2 ^ 32), Nat.mod_eq_of_lt (by omega : B * P < 2 ^ 32),
      Nat.mod_eq_of_lt (by omega), Nat.mul_comm]

/-! ## I/O and data memory -/

/-- `CPU::getIo`. -/
def cpuGetIo (d : Device) (addr : Nat) : BitVec 8 :=
  if addr = 0x04 then d.cpu.ccpState
  else if addr = 0x08 then d.cpu.rampd
  else if addr = 0x09 then d.cpu.rampx
  else if addr = 0x0A then d.cpu.rampy
  else if addr = 0x0B then d.cpu.rampz
  else if addr = 0x0C then d.cpu.eind
  else if addr = 0x0D then d.cpu.sp.truncate 8
  else if addr = 0x0E then (d.cpu.sp >>> 8).truncate 8
  else if addr = 0x0F then d.cpu.sreg
  else 0

/-- `ramp_mask_`. -/
def rampMask (d : Device) : BitVec 8 :=
  BitVec.ofNat 8 ((d.conf.memExsramStart + d.conf.memExsramSize) >>> 8)

/-- `eind_mask_`. -/
def eindMask (d : Device) : BitVec 8 := BitVec.ofNat 8 (d.conf.flashSize >>> 9)

/-- `CPU::setIo`. -/
def cpuSetIo (d : Device) (addr : Nat) (v : BitVec 8) : Device :=
  if addr = 0x04 then { d with cpu := { d.cpu with ccpBuffer := v } }
  else if addr = 0x08 then { d with cpu := { d.cpu with rampd := v &&& d.rampMask } }
  else if addr = 0x09 then { d with cpu := { d.cpu with rampx := v &&& d.rampMask } }
  else if addr = 0x0A then { d with cpu := { d.cpu with rampy := v &&& d.rampMask } }
  else if addr = 0x0B then { d with cpu := { d.cpu with rampz := v &&& d.rampMask } }
  else if addr = 0x0C then { d with cpu := { d.cpu with eind := v &&& d.eindMask } }
  else if addr = 0x0D then d.setSp ((d.cpu.sp &&& 0xFF00) ||| v.zeroExtend 16)
  else if addr = 0x0E then d.setSp ((d.cpu.sp &&& 0x00FF) ||| (v.zeroExtend 16 <<< 8))
  else if addr = 0x0F then d.modifySreg fun _ => v
  else d

theorem exists_cpu_ite {d a b : Device} {p : Prop} [Decidable p] (ha : ∃ c, a = { d with cpu := c })
    (hb : ∃ c, b = { d with cpu := c }) : ∃ c, (if p then a else b) = { d with cpu := c } := by
  split <;> assumption

/-- `CPU::setIo` writes the CPU block only. -/
theorem cpuSetIo_eq (d : Device) (i : Nat) (v : BitVec 8) :
    ∃ c, d.cpuSetIo i v = { d with cpu := c } := by
  unfold cpuSetIo
  repeat refine exists_cpu_ite ⟨_, rfl⟩ ?_
  exact ⟨_, rfl⟩

@[simp] theorem cpuSetIo_flash (d : Device) (addr : Nat) (v : BitVec 8) :
    (d.cpuSetIo addr v).flash = d.flash := by
  obtain ⟨c, h⟩ := d.cpuSetIo_eq addr v; rw [h]

/-- `PMIC::getIo` (`pmic.cpp` is not in the repository): STATUS at 0x00 and CTRL at 0x02 are
the bytes `processPendingInterrupts` and RETI use, the other registers bytes of the store. -/
def pmicGetIo (d : Device) (addr : Nat) : BitVec 8 :=
  if addr = 0x00 then d.pmicStatus
  else if addr = 0x02 then d.pmicCtrl
  else d.io (d.blocks.pmic.ioAddr + addr)

/-- `PMIC::setIo`: STATUS is read-only, CTRL takes the byte, the other registers are bytes of
the store. -/
def pmicSetIo (d : Device) (addr : Nat) (v : BitVec 8) : Device :=
  if addr = 0x00 then d
  else if addr = 0x02 then { d with pmicCtrl := v }
  else { d with io := Function.update d.io (d.blocks.pmic.ioAddr + addr) v }

/-- `block->getIo(addr)` for a connected block: `CPU::getIo`, `CLK::getIo`, `PMIC::getIo`, and
for the blocks whose code is not in the repository the byte of the store. -/
def blockGetIo (d : Device) (b : Block) (addr : Nat) : BitVec 8 :=
  if b = Wiring.cpuBlock then d.cpuGetIo addr
  else if b = Wiring.clkBlock then d.clk.getIo (BitVec.ofNat 16 addr)
  else if b = d.blocks.pmic then d.pmicGetIo addr
  else d.io (b.ioAddr + addr)

/-- `block->setIo(addr, v)` for a connected block. -/
def blockSetIo (d : Device) (b : Block) (addr : Nat) (v : BitVec 8) : Device :=
  if b = Wiring.cpuBlock then d.cpuSetIo addr v
  else if b = Wiring.clkBlock then
    { d with clk := d.clk.setIo d.cpu.ccpState (BitVec.ofNat 16 addr) v }
  else if b = d.blocks.pmic then d.pmicSetIo addr v
  else { d with io := Function.update d.io (b.ioAddr + addr) v }

/-- `Device::getIoMem`: the block of `io_blocks_[addr]` at `addr - block->io_addr()`; 0 (and an
error log) where no block holds `addr`. -/
def getIoMem (d : Device) (addr : Nat) : BitVec 8 :=
  match d.blocks.wiring.ioCall addr with
  | some (b, l) => d.blockGetIo b l
  | none => 0

/-- `Device::setIoMem`: the write is dropped (and logged) where no block holds `addr`. -/
def setIoMem (d : Device) (addr : Nat) (v : BitVec 8) : Device :=
  match d.blocks.wiring.ioCall addr with
  | some (b, l) => d.blockSetIo b l v
  | none => d

/-! ### The blocks `io_blocks_` leads to -/

/-- `io_blocks_` leads an address of a connected block's range to that block. -/
theorem ioCall_of_lt (d : Device) {b : Block} {k : Nat} (hb : b ∈ d.blocks.wiring.blocks)
    (hk : k < b.ioSize) : d.blocks.wiring.ioCall (b.ioAddr + k) = some (b, k) := by
  rw [Wiring.ioCall, (d.blocks.connected.owns.io _ b).2 ⟨hb, Nat.le_add_right _ _,
    Nat.add_lt_add_left hk _⟩, Option.map_some', Nat.add_sub_cancel_left]

theorem getIoMem_of_ioCall (d : Device) {addr l : Nat} {b : Block}
    (h : d.blocks.wiring.ioCall addr = some (b, l)) : d.getIoMem addr = d.blockGetIo b l := by
  rw [getIoMem, h]

theorem setIoMem_of_ioCall (d : Device) {addr l : Nat} {b : Block}
    (h : d.blocks.wiring.ioCall addr = some (b, l)) (v : BitVec 8) :
    d.setIoMem addr v = d.blockSetIo b l v := by
  rw [setIoMem, h]

theorem ioCall_cpu (d : Device) {k : Nat} (hk : k < CPU_IO_SIZE) :
    d.blocks.wiring.ioCall (CPU_IO_ADDR + k) = some (Wiring.cpuBlock, k) :=
  d.ioCall_of_lt d.blocks.has_core.1 hk

theorem ioCall_clk (d : Device) {k : Nat} (hk : k < CLK_IO_SIZE) :
    d.blocks.wiring.ioCall (CLK_IO_ADDR + k) = some (Wiring.clkBlock, k) :=
  d.ioCall_of_lt d.blocks.has_core.2.1 hk

theorem getIoMem_cpu (d : Device) {k : Nat} (hk : k < CPU_IO_SIZE) :
    d.getIoMem (CPU_IO_ADDR + k) = d.cpuGetIo k := by
  rw [d.getIoMem_of_ioCall (d.ioCall_cpu hk), blockGetIo, if_pos rfl]

theorem setIoMem_cpu (d : Device) {k : Nat} (hk : k < CPU_IO_SIZE) (v : BitVec 8) :
    d.setIoMem (CPU_IO_ADDR + k) v = d.cpuSetIo k v := by
  rw [d.setIoMem_of_ioCall (d.ioCall_cpu hk), blockSetIo, if_pos rfl]

theorem getIoMem_clk (d : Device) {k : Nat} (hk : k < CLK_IO_SIZE) :
    d.getIoMem (CLK_IO_ADDR + k) = d.clk.getIo (BitVec.ofNat 16 k) := by
  rw [d.getIoMem_of_ioCall (d.ioCall_clk hk), blockGetIo, if_neg (by decide), if_pos rfl]

theorem setIoMem_clk (d : Device) {k : Nat} (hk : k < CLK_IO_SIZE) (v : BitVec 8) :
    d.setIoMem (CLK_IO_ADDR + k) v =
      { d with clk := d.clk.setIo d.cpu.ccpState (BitVec.ofNat 16 k) v } := by
  rw [d.setIoMem_of_ioCall (d.ioCall_clk hk), blockSetIo, if_neg (by decide), if_pos rfl]

/-- **What an I/O write can do**: nothing, a `CPU::setIo` write of the CPU register at the
address, a `CLK::setIo` write of the CLK register at the address with the CCP state, a write of
PMIC's CTRL, or the byte of the store at the address. -/
theorem setIoMem_cases (d : Device) (a : Nat) (v : BitVec 8) :
    d.setIoMem a v = d ∨
      (∃ k < CPU_IO_SIZE, a = CPU_IO_ADDR + k ∧ d.setIoMem a v = d.cpuSetIo k v) ∨
      (∃ k < CLK_IO_SIZE, a = CLK_IO_ADDR + k ∧
        d.setIoMem a v = { d with clk := d.clk.setIo d.cpu.ccpState (BitVec.ofNat 16 k) v }) ∨
      d.setIoMem a v = { d with pmicCtrl := v } ∨
      d.setIoMem a v = { d with io := Function.update d.io a v } := by
  cases ha : d.blocks.wiring.ioCall a with
  | none => exact .inl (by rw [setIoMem, ha])
  | some p =>
    obtain ⟨b, l⟩ := p
    obtain ⟨-, hba, hl, -⟩ := d.blocks.connected.owns.ioCall_lt ha
    rw [d.setIoMem_of_ioCall ha]
    unfold blockSetIo pmicSetIo
    split_ifs with h1 h2 h3
    · subst h1; exact .inr (.inl ⟨l, hl, hba.symm, rfl⟩)
    · subst h2; exact .inr (.inr (.inl ⟨l, hl, hba.symm, rfl⟩))
    · exact .inl rfl
    · exact .inr (.inr (.inr (.inl rfl)))
    · subst h3; rw [hba]; exact .inr (.inr (.inr (.inr rfl)))
    · rw [hba]; exact .inr (.inr (.inr (.inr rfl)))

/-- An I/O write changes the CPU block, CLK, PMIC's CTRL and the store, and nothing else. -/
theorem setIoMem_eq (d : Device) (a : Nat) (v : BitVec 8) :
    ∃ cpu clk ctrl io, d.setIoMem a v = { d with cpu, clk, pmicCtrl := ctrl, io } := by
  rcases d.setIoMem_cases a v with h | ⟨k, -, -, h⟩ | ⟨k, -, -, h⟩ | h | h
  · exact ⟨_, _, _, _, h⟩
  · obtain ⟨c, hc⟩ := d.cpuSetIo_eq k v
    exact ⟨c, _, _, _, h.trans hc⟩
  all_goals exact ⟨_, _, _, _, h⟩

section
variable (d : Device) (a : Nat) (v : BitVec 8)

@[simp] theorem setIoMem_conf : (d.setIoMem a v).conf = d.conf := by
  obtain ⟨_, _, _, _, h⟩ := d.setIoMem_eq a v; rw [h]
@[simp] theorem setIoMem_flash : (d.setIoMem a v).flash = d.flash := by
  obtain ⟨_, _, _, _, h⟩ := d.setIoMem_eq a v; rw [h]
@[simp] theorem setIoMem_sram : (d.setIoMem a v).sram = d.sram := by
  obtain ⟨_, _, _, _, h⟩ := d.setIoMem_eq a v; rw [h]
@[simp] theorem setIoMem_regfile : (d.setIoMem a v).regfile = d.regfile := by
  obtain ⟨_, _, _, _, h⟩ := d.setIoMem_eq a v; rw [h]
@[simp] theorem setIoMem_sched : (d.setIoMem a v).sched = d.sched := by
  obtain ⟨_, _, _, _, h⟩ := d.setIoMem_eq a v; rw [h]
@[simp] theorem setIoMem_blocks : (d.setIoMem a v).blocks = d.blocks := by
  obtain ⟨_, _, _, _, h⟩ := d.setIoMem_eq a v; rw [h]

end

/-- `Device::getEmulatorMem`: the bytes of `clk_sys_tick_`, then reserved zeros. -/
def getEmulatorMem (d : Device) (addr : Nat) : BitVec 8 :=
  let offset := (addr - MEM_EMULATOR_START) % 2 ^ 16
  if offset < 4 then (d.sched.clkSysTick >>> (offset * 8)).truncate 8 else 0

/-- `Device::getDataMem`. -/
def getDataMem (d : Device) (addr : Nat) : BitVec 8 :=
  if addr < MEM_IO_SIZE then d.getIoMem addr
  else if MEM_EEPROM_START ≤ addr ∧ addr < MEM_EEPROM_START + d.conf.memEepromSize then 0
  else if MEM_SRAM_START ≤ addr ∧ addr < MEM_SRAM_START + d.conf.memSramSize then
    d.sram.getD (addr - MEM_SRAM_START) 0
  else if MEM_EMULATOR_START ≤ addr ∧ addr < MEM_EMULATOR_START + MEM_EMULATOR_SIZE then
    d.getEmulatorMem addr
  else 0

/-- `Device::setDataMem`; writes to the EEPROM, the emulator window and external SRAM are
only logged. -/
def setDataMem (d : Device) (addr : Nat) (v : BitVec 8) : Device :=
  if addr < MEM_IO_SIZE then d.setIoMem addr v
  else if MEM_EEPROM_START ≤ addr ∧ addr < MEM_EEPROM_START + d.conf.memEepromSize then d
  else if MEM_SRAM_START ≤ addr ∧ addr < MEM_SRAM_START + d.conf.memSramSize then
    d.setSram (addr - MEM_SRAM_START) v
  else d

end Device

end Megumi
