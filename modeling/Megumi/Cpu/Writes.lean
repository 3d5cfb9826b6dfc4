import Megumi.Cpu.Pointer
import Megumi.Cpu.Updates
import Megumi.Cpu.IoSpace

/-!
# The registers an instruction writes

Each branch of `executeNextInstruction` (`src/device.cpp`) writes `regfile_` only through its
destination: `Rd`, the pair `Rd+1:Rd` of MOVW, ADIW and SBIW, `r1:r0` of the multiplications
(`reg01_`) and `r0` of LPM and ELPM without operands, and the pointer pair that a
post-increment or pre-decrement moves. The data space of an XMEGA does not map the register
file: `setDataMem` below `0x1000` goes to the I/O blocks, so ST, STD, STS, XCH's store and the
I/O writes leave every register alone. `Instr.writes` lists those registers, and no branch
writes any other (`execute_writes`).

SREG's I bit gates `processPendingInterrupts`. On an XMEGA the PMIC levels order the handlers,
so neither an interrupt entry nor RETI touches SREG (the source notes that the instruction set
manual wrongly has RETI set I). Besides BSET 7 (SEI) and BCLR 7 (CLI), only a store to the
SREG I/O register, at `0x3F`, writes I; a store anywhere else leaves SREG alone
(`interrupt_enable_frame`).
-/

namespace Megumi

namespace Device

/-- `d'` has the registers of `d` outside `W`. -/
def RegsKept (W : List (Fin 32)) (d d' : Device) : Prop := ∀ r ∉ W, d'.regfile r = d.regfile r

section
variable {W : List (Fin 32)} {d d' d'' : Device}

theorem RegsKept.refl (W : List (Fin 32)) (d : Device) : RegsKept W d d := fun _ _ => rfl

theorem regsKept_congr {e : Device} (he : e.regfile = d'.regfile) :
    RegsKept W d e ↔ RegsKept W d d' := by
  unfold RegsKept; rw [he]

theorem regsKept_setIoMem (a : Nat) (v : BitVec 8) :
    RegsKept W d (d'.setIoMem a v) ↔ RegsKept W d d' := regsKept_congr (setIoMem_regfile d' a v)
theorem regsKept_setDataMem (a : Nat) (v : BitVec 8) :
    RegsKept W d (d'.setDataMem a v) ↔ RegsKept W d d' := regsKept_congr (setDataMem_regfile d' a v)

/-- A write to a register of `W`. -/
theorem regsKept_setReg {i : Fin 32} (hi : i ∈ W) (v : BitVec 8) :
    RegsKept W d (d'.setReg i v) ↔ RegsKept W d d' :=
  forall₂_congr fun r hr => by
    rw [setReg_regfile, Function.update_noteq (fun (e : r = i) => hr (e ▸ hi))]

theorem regsKept_setPair {i : Fin 32} (hi : i ∈ W) (hi1 : i + 1 ∈ W) (v : BitVec 16) :
    RegsKept W d (d'.setPair i v) ↔ RegsKept W d d' :=
  forall₂_congr fun r hr => by
    rw [setPair_regfile_of_ne (fun (e : r = i) => hr (e ▸ hi)) (fun (e : r = i + 1) => hr (e ▸ hi1))]

theorem regsKept_incPtr {p : Ptr} (hp : p.reg ∈ W) (hp1 : p.reg + 1 ∈ W) :
    RegsKept W d (d'.incPtr p) ↔ RegsKept W d d' :=
  (regsKept_congr (incPtr_regfile d' p)).trans (regsKept_setPair hp hp1 _)

theorem regsKept_decPtr {p : Ptr} (hp : p.reg ∈ W) (hp1 : p.reg + 1 ∈ W) :
    RegsKept W d (d'.decPtr p) ↔ RegsKept W d d' :=
  (regsKept_congr (decPtr_regfile d' p)).trans (regsKept_setPair hp hp1 _)

/-- An operation that leaves the register file alone. -/
theorem RegsKept.keep {e : Device} (h : RegsKept W d d') (he : e.regfile = d'.regfile) :
    RegsKept W d e :=
  (regsKept_congr he).2 h

theorem RegsKept.stackSet (h : RegsKept W d d') {n : Nat} {v : BitVec 32}
    (hs : d'.stackSet n v = some d'') : RegsKept W d d'' := by
  obtain ⟨⟨sram, hl, rfl⟩, -⟩ := stackSet_spec hs
  exact h.keep rfl

/-- Every update of the branch of `i` keeps the registers outside `i.writes`. -/
theorem RegsKept.update {i : Instr} (h : RegsKept i.writes d d') (hu : Update i d' d'') :
    RegsKept i.writes d d'' := by
  cases hu
  case setReg hr v => exact (regsKept_setReg hr v).2 h
  case setPair hr hr1 v => exact (regsKept_setPair hr hr1 v).2 h
  case incPtr hp hp1 => exact (regsKept_incPtr hp hp1).2 h
  case decPtr hp hp1 => exact (regsKept_decPtr hp hp1).2 h
  case setIoMem => exact (regsKept_setIoMem _ _).2 h
  case setDataMem => exact (regsKept_setDataMem _ _).2 h
  case stackSet hs => exact h.stackSet hs
  all_goals exact h.keep rfl

end

/-- **What an instruction writes.** Every branch of `executeNextInstruction` leaves every
register outside `Instr.writes` as it was: stores to the data space, I/O writes, jumps, calls,
returns and skips write no register, an ALU instruction writes only its destination, and a
post-increment or pre-decrement only its destination and its pointer. -/
theorem execute_writes {d d' : Device} {i : Instr} {c : Nat} (h : d.execute i = some (d', c))
    (r : Fin 32) (hr : r ∉ i.writes) : d'.regfile r = d.regfile r := by
  exact (execute_updates h).lift (R := RegsKept i.writes d) RegsKept.update (.refl _ d) r hr

/-- On a reset device, `X = 0` points at I/O address 0: ST X,r16 stores there and leaves `r0`,
which an AVR without the XMEGA data-space layout would map at address 0. -/
theorem reset_st_keeps_r0 :
    ∃ d' c, (create ⟨4, 2, 0, 0, 0x10, false⟩ .core false).reset.execute (.stX 16) = some (d', c) ∧
      0 ∉ (Instr.stX 16).writes ∧ d'.regfile 0 = (create ⟨4, 2, 0, 0, 0x10, false⟩ .core false).reset.regfile 0 := by
  obtain ⟨d', c, h⟩ : ∃ d' c,
      (create ⟨4, 2, 0, 0, 0x10, false⟩ .core false).reset.execute (.stX 16) = some (d', c) := ⟨_, _, rfl⟩
  exact ⟨d', c, h, by decide, execute_writes h 0 (by decide)⟩

/-! ## The I bit of SREG -/

/-- `d'` has the I bit of `d`. -/
def IKept (d d' : Device) : Prop := flag d'.cpu.sreg Sreg.I = flag d.cpu.sreg Sreg.I

section
variable {d d' : Device}

theorem iKept_incPtr (p : Ptr) : IKept d (d'.incPtr p) ↔ IKept d d' := by
  dsimp only [incPtr]; split <;> cases p <;> rfl

theorem iKept_decPtr (p : Ptr) : IKept d (d'.decPtr p) ↔ IKept d d' := by
  dsimp only [decPtr]; split <;> cases p <;> rfl

theorem IKept.stackSet (h : IKept d d') {d'' : Device} {n : Nat} {v : BitVec 32}
    (hs : d'.stackSet n v = some d'') : IKept d d'' := by
  obtain ⟨⟨sram, hl, rfl⟩, -⟩ := stackSet_spec hs
  exact h

/-- Every update of a branch that stores nothing, other than SEI's and CLI's, keeps I. -/
theorem IKept.update {i : Instr} (hs : i.stores = false) (hset : i ≠ .bset Sreg.I)
    (hclr : i ≠ .bclr Sreg.I) {d'' : Device} (h : IKept d d') (hu : Update i d' d'') :
    IKept d d'' := by
  cases hu
  case modifySreg hf => exact (hf hset hclr _).trans h
  case setIoMem hs' _ _ => exact absurd (hs.symm.trans hs') Bool.false_ne_true
  case setDataMem hs' _ _ => exact absurd (hs.symm.trans hs') Bool.false_ne_true
  case incPtr => exact (iKept_incPtr _).2 h
  case decPtr => exact (iKept_decPtr _).2 h
  case stackSet hs' => exact h.stackSet hs'
  all_goals exact h

end

theorem getIoMem_sreg (d : Device) : d.getIoMem (CPU_IO_ADDR + 0x0F) = d.cpu.sreg :=
  d.getIoMem_cpu (by decide)

/-- A store anywhere but at SREG's I/O address leaves SREG. -/
theorem setDataMem_sreg (d : Device) {a : Nat} (ha : a ≠ CPU_IO_ADDR + 0x0F) (v : BitVec 8) :
    (d.setDataMem a v).cpu.sreg = d.cpu.sreg := by
  have hio := getIoMem_setIoMem (d := d) ha v
  rw [getIoMem_sreg, getIoMem_sreg] at hio
  unfold setDataMem
  split_ifs
  · exact hio
  all_goals rfl

/-- **SREG and the interrupts.** An interrupt entry and RETI leave SREG as it was; a store to the
data space or the I/O space leaves SREG unless its address is SREG's, `0x3F`; and every branch
of `executeNextInstruction` other than BSET 7 (SEI), BCLR 7 (CLI) and the stores leaves the I
bit as it was. -/
theorem interrupt_enable_frame :
    (∀ (d d1 : Device) (b : Bool), d.processPendingInterrupts = some (d1, b) →
      d1.cpu.sreg = d.cpu.sreg) ∧
    (∀ (d d1 : Device) (c : Nat), d.execute .reti = some (d1, c) → d1.cpu.sreg = d.cpu.sreg) ∧
    (∀ (d : Device) (a : Nat) (v : BitVec 8), a ≠ CPU_IO_ADDR + 0x0F →
      (d.setDataMem a v).cpu.sreg = d.cpu.sreg) ∧
    ∀ (d d' : Device) (i : Instr) (c : Nat), d.execute i = some (d', c) → i.stores = false →
      i ≠ .bset Sreg.I → i ≠ .bclr Sreg.I → flag d'.cpu.sreg Sreg.I = flag d.cpu.sreg Sreg.I := by
  refine ⟨fun d d1 b h => ?_, fun d d1 c h => ?_, fun d a v ha => setDataMem_sreg d ha v,
    fun d d' i c h hs hset hclr => ?_⟩
  · simp only [processPendingInterrupts] at h
    split at h
    · obtain ⟨_, -, h⟩ := Option.bind_eq_some.1 h
      obtain ⟨_, hp, he⟩ := Option.map_eq_some'.1 h
      cases he
      obtain ⟨⟨sram, hl, rfl⟩, -⟩ := pushRet_spec hp
      rfl
    · cases h; rfl
  · dsimp only [execute] at h
    rw [popPc_eq] at h
    obtain ⟨_, -, he⟩ := Option.map_eq_some'.1 h
    cases he
    rfl
  · exact (execute_updates h).lift (IKept.update hs hset hclr) (rfl : IKept d d)

end Device

end Megumi
