import Megumi.Cpu.Execute

/-!
# Post-increment and pre-decrement through X, Y and Z

`LD Rd,P+` and `ST P+,Rr` (`src/device.cpp`) access `regP_ | (cpu_.rampP_ << 16)`, then
increment `regP_` and, when it overflows to 0, carry into `cpu_.rampP_` and mask it with
`ramp_mask_`; `LD Rd,-P` and `ST -P,Rr` first decrement `regP_` and, when it underflows to
`0xFFFF`, borrow from `cpu_.rampP_` and mask it again. `ramp_mask_` is
`(mem_exsram_start_ + mem_exsram_size_) >> 8` cut to 8 bits (`CPU::CPU`).

The borrow undoes the carry when the mask is all ones below some bit (`ramp_borrow_carry`), as
in every configuration with external SRAM, whose mask is 0 (`rampMask_of_hasExsram`). Then
`ST P+` followed by `LD -P` reads the address the store wrote and leaves `RAMPP:P` as it was,
unless the store writes `RAMPP` itself through the CPU block's I/O (`stInc_ldDec_restores`).
Without external SRAM the mask is
`(0x2000 + mem_sram_size_) >> 8`, `0x40` for 8 KiB of SRAM: the carry out of `P = 0xFFFF` is
masked away and the borrow is not, so `RAMPP` ends at the mask (`stInc_ldDec_loses_carry`).
-/

namespace Megumi

/-- The offset of `rampP_` among the CPU block's I/O registers (`CPU::getIo`, `CPU::setIo`). -/
def Ptr.rampIo : Ptr → Nat
  | .x => 0x09
  | .y => 0x0A
  | .z => 0x0B

namespace Device

/-! ## What the steps read and write -/

@[simp] theorem getPair_setRamp (d : Device) (p : Ptr) (v : BitVec 8) (i : Fin 32) :
    (d.setRamp p v).getPair i = d.getPair i := by
  cases p <;> rfl
@[simp] theorem ramp_setRamp (d : Device) (p : Ptr) (v : BitVec 8) :
    (d.setRamp p v).ramp p = v := by
  cases p <;> rfl
@[simp] theorem setRamp_conf (d : Device) (p : Ptr) (v : BitVec 8) :
    (d.setRamp p v).conf = d.conf := by
  cases p <;> rfl
@[simp] theorem setRamp_sram (d : Device) (p : Ptr) (v : BitVec 8) :
    (d.setRamp p v).sram = d.sram := by
  cases p <;> rfl
@[simp] theorem ramp_setPair (d : Device) (i : Fin 32) (v : BitVec 16) (p : Ptr) :
    (d.setPair i v).ramp p = d.ramp p := by
  cases p <;> rfl
@[simp] theorem setPair_conf (d : Device) (i : Fin 32) (v : BitVec 16) :
    (d.setPair i v).conf = d.conf := rfl
@[simp] theorem setPair_sram (d : Device) (i : Fin 32) (v : BitVec 16) :
    (d.setPair i v).sram = d.sram := rfl
@[simp] theorem ramp_setReg (d : Device) (i : Fin 32) (v : BitVec 8) (p : Ptr) :
    (d.setReg i v).ramp p = d.ramp p := by
  cases p <;> rfl
@[simp] theorem ramp_advance (d : Device) (n : BitVec 32) (p : Ptr) :
    (d.advance n).ramp p = d.ramp p := by
  cases p <;> rfl
@[simp] theorem advance_regfile (d : Device) (n : BitVec 32) : (d.advance n).regfile = d.regfile :=
  rfl
@[simp] theorem advance_conf (d : Device) (n : BitVec 32) : (d.advance n).conf = d.conf := rfl
@[simp] theorem advance_sram (d : Device) (n : BitVec 32) : (d.advance n).sram = d.sram := rfl

theorem getPair_advance (d : Device) (n : BitVec 32) (i : Fin 32) :
    (d.advance n).getPair i = d.getPair i := rfl

theorem rampMask_congr {d e : Device} (h : d.conf = e.conf) : d.rampMask = e.rampMask := by
  rw [rampMask, rampMask, h]

@[simp] theorem rampMask_advance (d : Device) (n : BitVec 32) :
    (d.advance n).rampMask = d.rampMask := rfl
@[simp] theorem rampMask_setReg (d : Device) (i : Fin 32) (v : BitVec 8) :
    (d.setReg i v).rampMask = d.rampMask := rfl

/-! ## One pointer step -/

theorem getPair_incPtr (d : Device) (p : Ptr) :
    (d.incPtr p).getPair p.reg = d.getPair p.reg + 1 := by
  dsimp only [incPtr]; split <;> simp

theorem ramp_incPtr (d : Device) (p : Ptr) : (d.incPtr p).ramp p =
    if d.getPair p.reg + 1 = 0 then (d.ramp p + 1) &&& d.rampMask else d.ramp p := by
  dsimp only [incPtr]; simp only [getPair_setPair]
  split <;> rename_i h <;> simp [h]

@[simp] theorem incPtr_conf (d : Device) (p : Ptr) : (d.incPtr p).conf = d.conf := by
  dsimp only [incPtr]; split <;> simp

@[simp] theorem incPtr_sram (d : Device) (p : Ptr) : (d.incPtr p).sram = d.sram := by
  dsimp only [incPtr]; split <;> simp

@[simp] theorem rampMask_incPtr (d : Device) (p : Ptr) : (d.incPtr p).rampMask = d.rampMask :=
  rampMask_congr (incPtr_conf d p)

theorem getPair_decPtr (d : Device) (p : Ptr) :
    (d.decPtr p).getPair p.reg = d.getPair p.reg - 1 := by
  dsimp only [decPtr]; split <;> simp

theorem ramp_decPtr (d : Device) (p : Ptr) : (d.decPtr p).ramp p =
    if d.getPair p.reg - 1 = 0xFFFF then (d.ramp p - 1) &&& d.rampMask else d.ramp p := by
  dsimp only [decPtr]; simp only [getPair_setPair]
  split <;> rename_i h <;> simp [h]

@[simp] theorem decPtr_conf (d : Device) (p : Ptr) : (d.decPtr p).conf = d.conf := by
  dsimp only [decPtr]; split <;> simp

@[simp] theorem decPtr_sram (d : Device) (p : Ptr) : (d.decPtr p).sram = d.sram := by
  dsimp only [decPtr]; split <;> simp

@[simp] theorem rampMask_decPtr (d : Device) (p : Ptr) : (d.decPtr p).rampMask = d.rampMask :=
  rampMask_congr (decPtr_conf d p)

/-! ## The data memory under a store -/

theorem setDataMem_regfile (d : Device) (a : Nat) (v : BitVec 8) :
    (d.setDataMem a v).regfile = d.regfile := by
  unfold setDataMem
  split_ifs <;> first | rfl | exact setIoMem_regfile ..

@[simp] theorem setDataMem_conf (d : Device) (a : Nat) (v : BitVec 8) :
    (d.setDataMem a v).conf = d.conf := by
  unfold setDataMem
  split_ifs <;> first | rfl | exact setIoMem_conf ..

theorem getPair_setDataMem (d : Device) (a : Nat) (v : BitVec 8) (i : Fin 32) :
    (d.setDataMem a v).getPair i = d.getPair i := by
  simp only [getPair, setDataMem_regfile]

@[simp] theorem rampMask_setDataMem (d : Device) (a : Nat) (v : BitVec 8) :
    (d.setDataMem a v).rampMask = d.rampMask :=
  rampMask_congr (setDataMem_conf d a v)

theorem ramp_cpuSetIo {d : Device} {p : Ptr} {o : Nat} (h : o ≠ p.rampIo) (v : BitVec 8) :
    (d.cpuSetIo o v).ramp p = d.ramp p := by
  unfold cpuSetIo
  cases p <;> simp only [Ptr.rampIo] at h <;>
    simp only [ramp, apply_ite Device.cpu, apply_ite Cpu.rampx, apply_ite Cpu.rampy,
      apply_ite Cpu.rampz, setSp, modifySreg, if_neg h, ite_self]

/-- A store leaves `RAMPP` unless it writes `RAMPP` itself. -/
theorem ramp_setDataMem {d : Device} {p : Ptr} {a : Nat} (h : a ≠ CPU_IO_ADDR + p.rampIo)
    (v : BitVec 8) : (d.setDataMem a v).ramp p = d.ramp p := by
  unfold setDataMem
  split_ifs
  · rcases d.setIoMem_cases a v with e | ⟨k, -, rfl, e⟩ | ⟨_, -, -, e⟩ | e | e <;> rw [e]
    · exact ramp_cpuSetIo (fun e' => h (by omega)) v
    all_goals cases p <;> rfl
  all_goals cases p <;> rfl

section Sram

variable {d : Device} {a : Nat} (hE : d.conf.memEepromSize ≤ 0x1000) (h1 : MEM_SRAM_START ≤ a)
  (h2 : a < MEM_SRAM_START + d.conf.memSramSize)
include hE h1 h2

/-- Inside internal SRAM, past the EEPROM window of an accepted configuration, a load reads
`sram_data_`. -/
theorem getDataMem_of_sram : d.getDataMem a = d.sram.getD (a - MEM_SRAM_START) 0 := by
  simp only [MEM_SRAM_START] at h1 h2
  rw [getDataMem, if_neg (by unfold MEM_IO_SIZE; omega), if_neg (by unfold MEM_EEPROM_START; omega),
    if_pos ⟨h1, h2⟩]

/-- Inside internal SRAM a store writes `sram_data_`. -/
theorem setDataMem_of_sram (v : BitVec 8) :
    d.setDataMem a v = d.setSram (a - MEM_SRAM_START) v := by
  simp only [MEM_SRAM_START] at h1 h2
  rw [setDataMem, if_neg (by unfold MEM_IO_SIZE; omega), if_neg (by unfold MEM_EEPROM_START; omega),
    if_pos ⟨h1, h2⟩]

theorem getDataMem_setDataMem_of_sram (v : BitVec 8) : (d.setDataMem a v).getDataMem a = v := by
  rw [setDataMem_of_sram hE h1 h2, getDataMem_of_sram (d := d.setSram _ v) hE h1 h2,
    setSram_getD _ (by rw [d.sram_length]; omega), if_pos rfl]

/-- A load from internal SRAM reads only the configuration and `sram_data_`. -/
theorem getDataMem_sram_congr {e : Device} (hc : e.conf = d.conf) (hs : e.sram = d.sram) :
    e.getDataMem a = d.getDataMem a := by
  rw [getDataMem_of_sram (d := e) (hc ▸ hE) h1 (hc ▸ h2), getDataMem_of_sram hE h1 h2, hs]

end Sram

/-- With external SRAM, `mem_exsram_start_ + mem_exsram_size_` is `MEM_MAX_SIZE`, so `ramp_mask_`
is `0x10000` cut to 8 bits: 0. -/
theorem rampMask_of_hasExsram {d : Device} (hA : d.conf.Accepted) (h : d.conf.hasExsram) :
    d.rampMask = 0 := by
  have hs := hA.2.2.2.2.2.2
  rw [rampMask, ModelConf.memExsramSize, if_pos h, ModelConf.memExsramStart,
    show MEM_SRAM_START + d.conf.memSramSize +
      (MEM_MAX_SIZE - (MEM_SRAM_START + d.conf.memSramSize)) = MEM_MAX_SIZE by omega]
  decide

/-! ## The carry and the borrow -/

/-- With `ramp_mask_` all ones below bit `k`, the borrow of a pre-decrement undoes the carry of a
post-increment on any `RAMPP` inside the mask. -/
theorem ramp_borrow_carry {R M : BitVec 8} {k : Nat} (hk : k ≤ 8) (hM : M.toNat = 2 ^ k - 1)
    (hR : R &&& M = R) : (((R + 1) &&& M) - 1) &&& M = R := by
  have hR' := congrArg BitVec.toNat hR
  apply BitVec.eq_of_toNat_eq
  simp only [BitVec.toNat_and, BitVec.toNat_sub, BitVec.toNat_add, hM, BitVec.toNat_ofNat,
    Nat.and_pow_two_sub_one_eq_mod] at hR' ⊢
  -- below bit `k`, which divides `2 ^ 8`, the carry then the borrow add `2 ^ 8`
  obtain ⟨c, hc⟩ := Nat.pow_dvd_pow 2 hk
  rw [Nat.mod_mod_of_dvd _ ⟨c, hc⟩, Nat.mod_mod_of_dvd _ ⟨c, hc⟩, Nat.add_mod_mod,
    show (1 : BitVec 8).toNat = 1 from rfl,
    show 2 ^ 8 - 1 + (R.toNat + 1) = R.toNat + 2 ^ 8 by omega, hc, Nat.add_mul_mod_self_left, hR']

/-- `RAMPP` after a post-increment and then a pre-decrement of the pair `P`: as it was, when `P`
does not wrap or the mask is all ones below some bit. -/
theorem ramp_inc_dec {P : BitVec 16} {R M : BitVec 8} (hR : R &&& M = R)
    (hw : P ≠ 0xFFFF ∨ ∃ k ≤ 8, M.toNat = 2 ^ k - 1) :
    (if P + 1 - 1 = 0xFFFF then ((if P + 1 = 0 then (R + 1) &&& M else R) - 1) &&& M
      else if P + 1 = 0 then (R + 1) &&& M else R) = R := by
  rw [BitVec.add_sub_cancel]
  by_cases hP : P = 0xFFFF
  · obtain ⟨k, hk, hM⟩ := hw.resolve_left (not_not.2 hP)
    rw [if_pos hP, hP, if_pos (by decide)]
    exact ramp_borrow_carry hk hM hR
  · have h1 : P + 1 ≠ 0 := fun e => hP (by rw [← BitVec.add_sub_cancel P 1, e]; rfl)
    rw [if_neg hP, if_neg h1]

/-! ## ST P+ then LD -P -/

/-- **ST P+,Rr then LD Rd,-P.** When the pair does not wrap or `ramp_mask_` is all ones below
some bit, `RAMPP` is inside the mask and the store does not write `RAMPP` itself: the load
reads the address the store wrote, `RAMPP:P` is as it was, and at an internal-SRAM address the
load gives back the stored register. -/
theorem stInc_ldDec_restores (d : Device) (p : Ptr) (rr rd : Fin 32)
    (hd0 : rd ≠ p.reg) (hd1 : rd ≠ p.reg + 1) (hR : d.ramp p &&& d.rampMask = d.ramp p)
    (hw : d.getPair p.reg ≠ 0xFFFF ∨ ∃ k ≤ 8, d.rampMask.toNat = 2 ^ k - 1)
    (hio : d.ptrAddr p ≠ CPU_IO_ADDR + p.rampIo) :
    ∃ d1 c1 d2 c2, d.execute (.stInc p rr) = some (d1, c1) ∧
      d1.execute (.ldDec p rd) = some (d2, c2) ∧
      (d1.decPtr p).ptrAddr p = d.ptrAddr p ∧ d2.getPair p.reg = d.getPair p.reg ∧
      d2.ramp p = d.ramp p ∧
      (d.conf.memEepromSize ≤ 0x1000 → MEM_SRAM_START ≤ d.ptrAddr p →
        d.ptrAddr p < MEM_SRAM_START + d.conf.memSramSize → d2.regfile rd = d.regfile rr) := by
  let d1 := ((d.setDataMem (d.ptrAddr p) (d.regfile rr)).incPtr p).advance 1
  have hP : (d1.decPtr p).getPair p.reg = d.getPair p.reg := by
    simp only [d1, getPair_decPtr, getPair_advance, getPair_incPtr, getPair_setDataMem,
      BitVec.add_sub_cancel]
  have hRp : (d1.decPtr p).ramp p = d.ramp p := by
    simp only [d1, ramp_decPtr, getPair_advance, getPair_incPtr, getPair_setDataMem, ramp_advance,
      ramp_incPtr, ramp_setDataMem hio, rampMask_advance, rampMask_incPtr, rampMask_setDataMem]
    exact ramp_inc_dec hR hw
  have hA : (d1.decPtr p).ptrAddr p = d.ptrAddr p := by rw [ptrAddr, ptrAddr, hP, hRp]
  refine ⟨d1, 1, _, _, rfl, rfl, hA, ?_, ?_, fun hE h1 h2 => ?_⟩
  · rw [getPair_advance, getPair_setReg hd0 hd1, hP]
  · rw [ramp_advance, ramp_setReg, hRp]
  · rw [advance_regfile, setReg_regfile, Function.update_same, hA,
      getDataMem_sram_congr (d := d.setDataMem (d.ptrAddr p) (d.regfile rr)) (by simpa using hE) h1
        (by simpa using h2) (by simp [d1]) (by simp [d1]),
      getDataMem_setDataMem_of_sram hE h1 h2]

/-- The configuration of `carryDemo` with external SRAM, whose mask is 0: X at `0xFFFF` wraps. -/
def exsramDemo : Device :=
  ((create ⟨0x400, 0x40, 0x40, 0, 0x10000, true⟩ .core false).reset.setPair 26 0xFFFF).setReg 0 0x5A

theorem exsramDemo_restores : exsramDemo.regx = 0xFFFF ∧ exsramDemo.rampMask = 0 ∧
    ∃ d1 c1 d2 c2, exsramDemo.execute (.stInc .x 0) = some (d1, c1) ∧
      d1.execute (.ldDec .x 1) = some (d2, c2) ∧
      (d1.decPtr .x).ptrAddr .x = exsramDemo.ptrAddr .x ∧ d2.getPair Ptr.x.reg = exsramDemo.regx ∧
      d2.ramp .x = exsramDemo.ramp .x ∧
      (exsramDemo.conf.memEepromSize ≤ 0x1000 → MEM_SRAM_START ≤ exsramDemo.ptrAddr .x →
        exsramDemo.ptrAddr .x < MEM_SRAM_START + exsramDemo.conf.memSramSize →
        d2.regfile 1 = exsramDemo.regfile 0) :=
  ⟨by decide, rampMask_of_hasExsram (by decide) rfl, stInc_ldDec_restores exsramDemo .x 0 1
    (by decide) (by decide)
    (by decide) (.inr ⟨0, by decide, by decide⟩) (by decide)⟩

/-! ## A mask that is not all ones -/

/-- 64 KiB of internal SRAM and no external SRAM: `ramp_mask_` is `(0x2000 + 0x10000) >> 8` cut to
8 bits, `0x20`. X is `0xFFFF`, RAMPX is 0 and r0 is `0x5A`. -/
def carryDemo : Device :=
  ((create ⟨0x400, 0x40, 0x40, 0, 0x10000, false⟩ .core false).reset.setPair 26 0xFFFF).setReg 0 0x5A

/-- **The borrow does not undo the carry.** On `carryDemo`, `ST X+,r0` stores `0x5A` at `0x00FFFF`,
in internal SRAM, and carries `(0 + 1) & 0x20 = 0` into RAMPX; `LD r1,-X` then borrows
`(0 - 1) & 0x20 = 0x20`, so RAMPX:X ends at `0x20FFFF` instead of `0x00FFFF`, and the load reads
that address, which nothing maps: r1 is 0. -/
theorem stInc_ldDec_loses_carry :
    carryDemo.conf.Accepted ∧ carryDemo.rampMask = 0x20 ∧ carryDemo.ramp .x = 0 ∧
      carryDemo.ptrAddr .x = 0xFFFF ∧ carryDemo.regfile 0 = 0x5A ∧
      ∃ d1 c1 d2 c2, carryDemo.execute (.stInc .x 0) = some (d1, c1) ∧
        d1.execute (.ldDec .x 1) = some (d2, c2) ∧
        (d1.decPtr .x).ptrAddr .x = 0x20FFFF ∧ d2.regx = 0xFFFF ∧ d2.ramp .x = 0x20 ∧
        d2.regfile 1 = 0 := by
  let d1 :=
    ((carryDemo.setDataMem (carryDemo.ptrAddr .x) (carryDemo.regfile 0)).incPtr .x).advance 1
  have hP : (d1.decPtr .x).getPair Ptr.x.reg = 0xFFFF := by
    simp only [d1, getPair_decPtr, getPair_advance, getPair_incPtr, getPair_setDataMem,
      BitVec.add_sub_cancel]
    decide
  have hRp : (d1.decPtr .x).ramp .x = 0x20 := by
    simp only [d1, ramp_decPtr, getPair_advance, getPair_incPtr, getPair_setDataMem, ramp_advance,
      ramp_incPtr, rampMask_advance, rampMask_incPtr, rampMask_setDataMem,
      ramp_setDataMem (show carryDemo.ptrAddr .x ≠ CPU_IO_ADDR + Ptr.x.rampIo by decide)]
    decide
  have hA : (d1.decPtr .x).ptrAddr .x = 0x20FFFF := by rw [ptrAddr, hP, hRp]; rfl
  refine ⟨by decide, by decide, by decide, by decide, by decide, d1, 1, _, _, rfl, rfl, hA, ?_, ?_,
    ?_⟩
  · rw [regx, getPair_advance, getPair_setReg (by decide) (by decide)]; exact hP
  · rw [ramp_advance, ramp_setReg, hRp]
  · rw [advance_regfile, setReg_regfile, Function.update_same, hA, getDataMem]
    simp only [decPtr_conf, advance_conf, incPtr_conf, setDataMem_conf]
    decide

end Device

end Megumi
