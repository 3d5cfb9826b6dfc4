import Megumi.Cpu.State

/-!
# The I/O space as a store

`Device::getIoMem` and `Device::setIoMem` (`src/device.cpp`) hand an I/O access to the block
`io_blocks_` holds for the address, at its offset in the block: `CPU::getIo` / `CPU::setIo`
(`src/unnamed/part_000`) for the CPU block, `CLK::getIo` / `CLK::setIo` (`src/block/clk.cpp`)
for CLK, PMIC's STATUS and CTRL for the PMIC block, and the byte store for the blocks whose code
is not in the repository. Where no block holds the address, a read gives 0 and a write is
dropped. Each register of the CPU, CLK and PMIC blocks is read from its own field, and each
write touches only the field of its address: SPL and SPH write one byte of `sp_` each and keep
the other.

So the I/O space is a store of independent cells: a write at one address changes no read at
another (`ioSpace_store`). What a read returns at the written address depends on the register:
the cells of the store, PMIC's CTRL, SPL, SPH and SREG return the byte written, RAMPD, RAMPX,
RAMPY, RAMPZ and EIND return it masked, a write to PMIC's STATUS is dropped, and CCP returns
`ccpState()`, so a write to CCP is invisible to every read.
-/

namespace Megumi

/-! ## The bytes of SP -/

theorem spl_keeps_high (sp : BitVec 16) (v : BitVec 8) :
    (((sp &&& 0xFF00) ||| v.zeroExtend 16) >>> 8).truncate 8 = (sp >>> 8).truncate 8 := by
  have h : ∀ i : Fin 8, (0xFF00#16).getLsbD (8 + ↑i) = true := by decide
  ext i
  simp only [BitVec.ofNat_eq_ofNat, Nat.cast_ofNat, BitVec.truncate_eq_setWidth, BitVec.getLsbD_setWidth, Fin.is_lt, decide_True,
    BitVec.getLsbD_ushiftRight, BitVec.getLsbD_or, BitVec.getLsbD_and, h, Bool.and_true,
    le_add_iff_nonneg_right, zero_le, BitVec.getLsbD_ge, Bool.and_false, Bool.or_false, Bool.true_and]

theorem sph_keeps_low (sp : BitVec 16) (v : BitVec 8) :
    ((sp &&& 0x00FF) ||| (v.zeroExtend 16 <<< 8)).truncate 8 = sp.truncate 8 := by
  have h : ∀ i : Fin 8, (0x00FF#16).getLsbD ↑i = true := by decide
  ext i
  simp only [BitVec.ofNat_eq_ofNat, Nat.cast_ofNat, BitVec.truncate_eq_setWidth, BitVec.getLsbD_setWidth, BitVec.getLsbD_or,
    BitVec.getLsbD_and, BitVec.getLsbD_shiftLeft, Fin.is_lt, decide_True, Bool.true_and, h,
    Bool.and_true, Bool.not_true, Bool.and_false, Bool.false_and, Bool.or_false]

namespace Clk

section Fields
variable (c : Clk) (ccp : BitVec 8) {a : BitVec 16} (v : BitVec 8)

theorem setIo_sclk (h : a ≠ 0x00) : (c.setIo ccp a v).sclk = c.sclk := by
  unfold setIo withPsctrl
  simp only [h, false_and, if_false, apply_ite Clk.sclk, ite_self]

theorem setIo_psctrl (h : a ≠ 0x01) : (c.setIo ccp a v).psctrl = c.psctrl := by
  unfold setIo
  simp only [h, false_and, if_false, apply_ite Clk.psctrl, ite_self]

theorem setIo_locked_of_ne (h : a ≠ 0x02) : (c.setIo ccp a v).locked = c.locked := by
  unfold setIo withPsctrl
  simp only [h, if_false, apply_ite Clk.locked, ite_self]

theorem setIo_rtc (h : a ≠ 0x03) :
    (c.setIo ccp a v).rtcen = c.rtcen ∧ (c.setIo ccp a v).rtcsrc = c.rtcsrc := by
  unfold setIo withPsctrl
  simp only [h, if_false, apply_ite Clk.rtcen, apply_ite Clk.rtcsrc, ite_self, and_self]

end Fields

/-- A CLK write changes no read at another address. -/
theorem getIo_setIo (c : Clk) (ccp : BitVec 8) {a b : BitVec 16} (h : a ≠ b) (v : BitVec 8) :
    (c.setIo ccp a v).getIo b = c.getIo b := by
  unfold getIo
  rcases em (b = 0x00) with rfl | h0
  · rw [if_pos rfl, if_pos rfl, setIo_sclk _ _ _ h]
  rw [if_neg h0, if_neg h0]
  rcases em (b = 0x01) with rfl | h1
  · rw [if_pos rfl, if_pos rfl, setIo_psctrl _ _ _ h]
  rw [if_neg h1, if_neg h1]
  rcases em (b = 0x02) with rfl | h2
  · rw [if_pos rfl, if_pos rfl, setIo_locked_of_ne _ _ _ h]
  rw [if_neg h2, if_neg h2]
  rcases em (b = 0x03) with rfl | h3
  · rw [if_pos rfl, if_pos rfl, (setIo_rtc _ _ _ h).1, (setIo_rtc _ _ _ h).2]
  rw [if_neg h3, if_neg h3]

end Clk

namespace Device

/-! ## The CPU block: each register is its own field -/

section
variable (d : Device) (i : Nat) (v : BitVec 8)

@[simp] theorem cpuSetIo_clk : (d.cpuSetIo i v).clk = d.clk := by
  obtain ⟨c, h⟩ := d.cpuSetIo_eq i v; rw [h]
@[simp] theorem cpuSetIo_io : (d.cpuSetIo i v).io = d.io := by
  obtain ⟨c, h⟩ := d.cpuSetIo_eq i v; rw [h]
@[simp] theorem cpuSetIo_blocks : (d.cpuSetIo i v).blocks = d.blocks := by
  obtain ⟨c, h⟩ := d.cpuSetIo_eq i v; rw [h]
@[simp] theorem cpuSetIo_pmicStatus : (d.cpuSetIo i v).pmicStatus = d.pmicStatus := by
  obtain ⟨c, h⟩ := d.cpuSetIo_eq i v; rw [h]
@[simp] theorem cpuSetIo_pmicCtrl : (d.cpuSetIo i v).pmicCtrl = d.pmicCtrl := by
  obtain ⟨c, h⟩ := d.cpuSetIo_eq i v; rw [h]

/-! ## The PMIC block: STATUS, CTRL and bytes of the store -/

@[simp] theorem pmicSetIo_cpu : (d.pmicSetIo i v).cpu = d.cpu := by
  unfold pmicSetIo; split_ifs <;> rfl
@[simp] theorem pmicSetIo_clk : (d.pmicSetIo i v).clk = d.clk := by
  unfold pmicSetIo; split_ifs <;> rfl
@[simp] theorem pmicSetIo_blocks : (d.pmicSetIo i v).blocks = d.blocks := by
  unfold pmicSetIo; split_ifs <;> rfl
@[simp] theorem pmicSetIo_pmicStatus : (d.pmicSetIo i v).pmicStatus = d.pmicStatus := by
  unfold pmicSetIo; split_ifs <;> rfl

end

/-- A PMIC write changes no read at another address of the PMIC block. -/
theorem pmicGetIo_pmicSetIo (d : Device) {i j : Nat} (h : i ≠ j) (v : BitVec 8) :
    (d.pmicSetIo i v).pmicGetIo j = d.pmicGetIo j := by
  unfold pmicSetIo pmicGetIo
  split_ifs <;> dsimp only <;> first | rfl | omega | exact Function.update_noteq (by omega) _ _

/-- A CPU register write changes no read at another address. -/
theorem cpuGetIo_cpuSetIo (d : Device) {i j : Nat} (h : i ≠ j) (v : BitVec 8) :
    (d.cpuSetIo i v).cpuGetIo j = d.cpuGetIo j := by
  generalize he : d.cpuSetIo i v = e
  simp only [cpuSetIo, ite_eq_iff] at he
  rcases he with ⟨rfl, rfl⟩ | ⟨-, ⟨rfl, rfl⟩ | ⟨-, ⟨rfl, rfl⟩ | ⟨-, ⟨rfl, rfl⟩ | ⟨-, ⟨rfl, rfl⟩ |
    ⟨-, ⟨rfl, rfl⟩ | ⟨-, ⟨rfl, rfl⟩ | ⟨-, ⟨rfl, rfl⟩ | ⟨-, ⟨rfl, rfl⟩ | ⟨-, rfl⟩⟩⟩⟩⟩⟩⟩⟩⟩ <;>
    simp only [cpuGetIo, Cpu.ccpState, setSp, modifySreg, Ne.symm h, if_false, spl_keeps_high,
      sph_keeps_low]

/-! ## The I/O space -/

theorem ofNat_ne_of_lt {x y : Nat} (hx : x < CLK_IO_SIZE) (hy : y < CLK_IO_SIZE) (h : x ≠ y) :
    BitVec.ofNat 16 x ≠ BitVec.ofNat 16 y := fun he => h (by
  have := congrArg BitVec.toNat he
  rwa [BitVec.toNat_ofNat, BitVec.toNat_ofNat, Nat.mod_eq_of_lt (by unfold CLK_IO_SIZE at hx; omega),
    Nat.mod_eq_of_lt (by unfold CLK_IO_SIZE at hy; omega)] at this)

theorem cpuGetIo_congr {d e : Device} (h : e.cpu = d.cpu) (i : Nat) :
    e.cpuGetIo i = d.cpuGetIo i := by
  simp only [cpuGetIo, h]

/-- A block write changes no read at another I/O address: of another block, or another
register of its own. -/
theorem blockGetIo_blockSetIo (d : Device) {b c : Block} {l l' : Nat} (hl : l < b.ioSize)
    (hl' : l' < c.ioSize) (hne : b.ioAddr + l ≠ c.ioAddr + l') (v : BitVec 8) :
    (d.blockSetIo b l v).blockGetIo c l' = d.blockGetIo c l' := by
  unfold blockSetIo
  split_ifs with hb hb' hp
  · -- a CPU register
    subst hb
    unfold blockGetIo
    simp only [cpuSetIo_clk, cpuSetIo_blocks]
    split_ifs with hc
    · subst hc; exact d.cpuGetIo_cpuSetIo (by omega) v
    · rfl
    · simp only [pmicGetIo, cpuSetIo_pmicStatus, cpuSetIo_pmicCtrl, cpuSetIo_io, cpuSetIo_blocks]
    · rw [cpuSetIo_io]
  · -- a CLK register
    subst hb'
    unfold blockGetIo
    split_ifs with hc hc'
    · rfl
    · subst hc'; exact Clk.getIo_setIo _ _ (ofNat_ne_of_lt hl hl' (by omega)) v
    all_goals rfl
  · -- a PMIC register
    subst hp
    unfold blockGetIo
    simp only [pmicSetIo_clk, pmicSetIo_blocks]
    split_ifs with hc hc' hcp
    · exact cpuGetIo_congr (pmicSetIo_cpu ..) l'
    · rfl
    · subst hcp; exact d.pmicGetIo_pmicSetIo (by omega) v
    · unfold pmicSetIo
      split_ifs <;> dsimp only
      exact Function.update_noteq (Ne.symm hne) _ _
  · -- a byte of the store
    unfold blockGetIo
    split_ifs with hc hc' hcp
    · rfl
    · rfl
    · subst hcp
      unfold pmicGetIo
      split_ifs <;> dsimp only
      exact Function.update_noteq (Ne.symm hne) _ _
    · exact Function.update_noteq (Ne.symm hne) _ _

/-- A write at one I/O address changes no read at another. -/
theorem getIoMem_setIoMem (d : Device) {a b : Nat} (h : a ≠ b) (v : BitVec 8) :
    (d.setIoMem a v).getIoMem b = d.getIoMem b := by
  have ho := d.blocks.connected.owns
  cases hb : d.blocks.wiring.ioCall b with
  | none => rw [getIoMem, setIoMem_blocks, hb, getIoMem, hb]
  | some p =>
    obtain ⟨c, l'⟩ := p
    rw [getIoMem_of_ioCall _ ((setIoMem_blocks d a v).symm ▸ hb), d.getIoMem_of_ioCall hb]
    cases ha : d.blocks.wiring.ioCall a with
    | none => rw [setIoMem, ha]
    | some q =>
      obtain ⟨b0, l⟩ := q
      obtain ⟨-, hb0, hl, -⟩ := ho.ioCall_lt ha
      obtain ⟨-, hc0, hl', -⟩ := ho.ioCall_lt hb
      rw [d.setIoMem_of_ioCall ha]
      exact d.blockGetIo_blockSetIo hl hl' (by omega) v

end Device

end Megumi
