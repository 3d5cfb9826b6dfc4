import Megumi.Cpu.State
import Megumi.Cpu.Decode

/-!
# `executeNextInstruction`

`Device::executeNextInstruction` (`src/device.cpp`): fetch `flash_data_[cpu_.pc_]`, take the
branch `decode` picks, and return the branch's `opcode_cycles`. `execute` is one case per
branch, in the words of its body. A fetch past the end of `flash_data_` (the opcode, the second
word of LDS, STS, JMP, CALL and of a skipped 2-word instruction, LPM and ELPM) and a `stack()`
outside `sram_data_` are undefined behaviour: `execute` is `none` there.
-/

namespace Megumi

open Sreg

/-- The pair register of a pointer. -/
def Ptr.reg : Ptr → Fin 32
  | .x => 26
  | .y => 28
  | .z => 30

/-! ## Flags -/

/-- The flags of the subtract branches (SUB, SBC, CP, CPC, SUBI, SBCI, CPI) for
`R = Rd - Rr - c`; each branch passes its own `Z`. -/
def subFlags (s Rd Rr R : BitVec 8) (z : Bool) : BitVec 8 :=
  let c := flag ((~~~Rd &&& Rr) ||| (Rr &&& R) ||| (R &&& ~~~Rd)) 7
  let n := flag R 7
  let v := flag ((Rd &&& ~~~Rr &&& ~~~R) ||| (~~~Rd &&& Rr &&& R)) 7
  let h := flag ((~~~Rd &&& Rr) ||| (Rr &&& R) ||| (R &&& ~~~Rd)) 3
  setFlag (setFlag (setFlag (setFlag (setFlag (setFlag s C c) Z z) N n) V v) S (n ^^ v)) H h

/-- The flags of ADD and ADC for `R = Rd + Rr + c`. -/
def addFlags (s Rd Rr R : BitVec 8) : BitVec 8 :=
  let c := flag ((Rd &&& Rr) ||| (Rr &&& ~~~R) ||| (~~~R &&& Rd)) 7
  let n := flag R 7
  let v := flag ((Rd &&& Rr &&& ~~~R) ||| (~~~Rd &&& ~~~Rr &&& R)) 7
  let h := flag ((Rd &&& Rr) ||| (Rr &&& ~~~R) ||| (~~~R &&& Rd)) 3
  setFlag (setFlag (setFlag (setFlag (setFlag (setFlag s C c) Z (R == 0)) N n) V v) S (n ^^ v)) H h

/-- The flags of AND, EOR, OR, ANDI and ORI. -/
def logicFlags (s R : BitVec 8) : BitVec 8 :=
  setFlag (setFlag (setFlag (setFlag s Z (R == 0)) N (flag R 7)) V false) S (flag R 7 ^^ false)

/-- `Z = R == 0; N = R & 0x80; V = v; S = N ^ V`. -/
def znvs (s R : BitVec 8) (v : Bool) : BitVec 8 :=
  setFlag (setFlag (setFlag (setFlag s Z (R == 0)) N (flag R 7)) V v) S (flag R 7 ^^ v)

/-- The shift branches ASR, LSR and ROR: `C` is the bit shifted out, `V = N ^ C`. -/
def shiftFlags (s Rd R : BitVec 8) (n : Bool) : BitVec 8 :=
  let c := flag Rd 0
  setFlag (setFlag (setFlag (setFlag (setFlag s C c) Z (R == 0)) N n) V (n ^^ c)) S (n ^^ (n ^^ c))

/-- The flags of the multiplications: `C` is bit 15 of `c16`, `Z` is `R == 0`. -/
def mulFlags (s : BitVec 8) (c16 R : BitVec 16) : BitVec 8 :=
  setFlag (setFlag s C (c16.getLsbD 15)) Z (R == 0)

/-- The flags of ADIW and SBIW. -/
def wordFlags (s : BitVec 8) (c v : Bool) (R : BitVec 16) : BitVec 8 :=
  setFlag (setFlag (setFlag (setFlag (setFlag s C c) Z (R == 0)) N (R.getLsbD 15)) V v) S
    (R.getLsbD 15 ^^ v)

/-- `u8_to_s16`: a byte as a signed 16-bit value. -/
def s16 (x : BitVec 8) : BitVec 16 := x.signExtend 16

/-- `(z & 1) ? (v >> 8) & 0xFF : (v & 0xFF)`: the byte of a flash word LPM and ELPM read. -/
def lpmByte (z v : BitVec 16) : BitVec 8 :=
  if z.getLsbD 0 then ((v >>> 8) &&& 0xFF).truncate 8 else (v &&& 0xFF).truncate 8

/-- RETI's chain on PMIC STATUS: the highest of `nmiex`, `hilvlex`, `medlvlex`, `lolvlex` that is
set is cleared. -/
def retiStatus (s : BitVec 8) : BitVec 8 :=
  if flag s PmicStatus.nmiex then setFlag s PmicStatus.nmiex false
  else if flag s PmicStatus.hilvlex then setFlag s PmicStatus.hilvlex false
  else if flag s PmicStatus.medlvlex then setFlag s PmicStatus.medlvlex false
  else if flag s PmicStatus.lolvlex then setFlag s PmicStatus.lolvlex false
  else s

namespace Device

/-! ## Pointer registers -/

/-- `cpu_.rampx_`, `cpu_.rampy_`, `cpu_.rampz_`. -/
def ramp (d : Device) : Ptr → BitVec 8
  | .x => d.cpu.rampx
  | .y => d.cpu.rampy
  | .z => d.cpu.rampz

/-- Write a RAMP register. -/
def setRamp (d : Device) (p : Ptr) (v : BitVec 8) : Device :=
  match p with
  | .x => { d with cpu := { d.cpu with rampx := v } }
  | .y => { d with cpu := { d.cpu with rampy := v } }
  | .z => { d with cpu := { d.cpu with rampz := v } }

/-- `regP_ | (cpu_.rampP_ << 16)`. -/
def ptrAddr (d : Device) (p : Ptr) : Nat := (d.getPair p.reg).toNat ||| (d.ramp p).toNat <<< 16

/-- `++regP_`, and on overflow `cpu_.rampP_++; cpu_.rampP_ &= cpu_.ramp_mask_`. -/
def incPtr (d : Device) (p : Ptr) : Device :=
  let d' := d.setPair p.reg (d.getPair p.reg + 1)
  if d'.getPair p.reg = 0 then d'.setRamp p ((d.ramp p + 1) &&& d.rampMask) else d'

/-- `--regP_`, and on underflow `cpu_.rampP_--; cpu_.rampP_ &= cpu_.ramp_mask_`. -/
def decPtr (d : Device) (p : Ptr) : Device :=
  let d' := d.setPair p.reg (d.getPair p.reg - 1)
  if d'.getPair p.reg = 0xFFFF then d'.setRamp p ((d.ramp p - 1) &&& d.rampMask) else d'

@[simp] theorem setRamp_regfile (d : Device) (p : Ptr) (v : BitVec 8) :
    (d.setRamp p v).regfile = d.regfile := by cases p <;> rfl
@[simp] theorem setRamp_flash (d : Device) (p : Ptr) (v : BitVec 8) :
    (d.setRamp p v).flash = d.flash := by cases p <;> rfl

/-- The pointer moves forward in the register file; RAMPP is outside it. -/
theorem incPtr_regfile (d : Device) (p : Ptr) :
    (d.incPtr p).regfile = (d.setPair p.reg (d.getPair p.reg + 1)).regfile := by
  dsimp only [incPtr]; split <;> simp

theorem decPtr_regfile (d : Device) (p : Ptr) :
    (d.decPtr p).regfile = (d.setPair p.reg (d.getPair p.reg - 1)).regfile := by
  dsimp only [decPtr]; split <;> simp

@[simp] theorem incPtr_flash (d : Device) (p : Ptr) : (d.incPtr p).flash = d.flash := by
  dsimp only [incPtr]; split <;> simp [setPair]

/-- `opcode_cycles++` of the loads, "assume the same for internal and external SRAM". -/
def sramCycle (addr : Nat) : Nat := if MEM_SRAM_START ≤ addr then 1 else 0

/-- `cpu_.pc_ += n`. -/
def advance (d : Device) (n : BitVec 32) : Device := d.setPc (d.cpu.pc + n)

/-- The end of a skip branch: `opcode2 = flash_data_[cpu_.pc_+1]`, then 3 words and
`long` cycles past a 2-word instruction, else 2 words and `short` cycles. -/
def skip (d : Device) (long short : Nat) : Option (Device × Nat) :=
  (d.flashAt (d.cpu.pc + 1).toNat).map fun op2 =>
    if opcodeIs32b op2 then (d.advance 3, long) else (d.advance 2, short)

/-- Push a return address: `stack_set<16>(stack(), ret)` and `cpu_.sp_ -= 2` for a small
flash, else `stack_set<24>` and `cpu_.sp_ -= 3`. -/
def pushRet (d : Device) (ret : BitVec 32) : Option Device :=
  if d.conf.smallFlash then (d.stackSet 2 ret).map fun d' => d'.setSp (d'.cpu.sp - 2)
  else (d.stackSet 3 ret).map fun d' => d'.setSp (d'.cpu.sp - 3)

/-- The call branches' push, with `small` cycles for a small flash and `large` otherwise. -/
def pushPc (d : Device) (ret : BitVec 32) (small large : Nat) : Option (Device × Nat) :=
  (d.pushRet ret).map fun d' => (d', if d.conf.smallFlash then small else large)

/-- RET's and RETI's return: `sp += 2` then `stack_get<16>` for a small flash, else `sp += 3`
then `stack_get<24>`. -/
def popPc (d : Device) : Option (Device × Nat) :=
  if d.conf.smallFlash then
    let d' := d.setSp (d.cpu.sp + 2)
    (d'.stackGet 2).map fun pc => (d'.setPc pc, 2)
  else
    let d' := d.setSp (d.cpu.sp + 3)
    (d'.stackGet 3).map fun pc => (d'.setPc pc, 3)

/-- `pushRet` with the frame's size read from `retBytes`. -/
theorem pushRet_eq (d : Device) (ret : BitVec 32) : d.pushRet ret =
    (d.stackSet d.conf.retBytes ret).map fun d' =>
      d'.setSp (d'.cpu.sp - BitVec.ofNat 16 d.conf.retBytes) := by
  unfold pushRet ModelConf.retBytes; split <;> rfl

/-- `popPc` with the frame's size read from `retBytes`. -/
theorem popPc_eq (d : Device) : d.popPc =
    ((d.setSp (d.cpu.sp + BitVec.ofNat 16 d.conf.retBytes)).stackGet d.conf.retBytes).map fun pc =>
      ((d.setSp (d.cpu.sp + BitVec.ofNat 16 d.conf.retBytes)).setPc pc, d.conf.retBytes) := by
  unfold popPc ModelConf.retBytes; split <;> rfl

/-! ## The branches -/

/-- The branch of `executeNextInstruction` for `i`: the new state and `opcode_cycles`. -/
def execute (d : Device) : Instr → Option (Device × Nat)
  | .nop => some (d.advance 1, 1)
  | .bset s => some ((d.modifySreg (· ||| (1#8 <<< s))).advance 1, 1)
  | .bclr s => some ((d.modifySreg (· &&& ~~~(1#8 <<< s))).advance 1, 1)
  | .sbi a b => some ((d.setIoMem a (d.getIoMem a ||| (1#8 <<< b))).advance 1, 1)
  | .cbi a b => some ((d.setIoMem a (d.getIoMem a &&& ~~~(1#8 <<< b))).advance 1, 1)
  | .com r =>
    let R := 0xFF - d.regfile r
    some (((d.setReg r R).modifySreg fun s => znvs (setFlag s C true) R false).advance 1, 1)
  | .neg r =>
    let Rd := d.regfile r
    let R := (0x100 - Rd) &&& 0xFF
    some (((d.setReg r R).modifySreg fun s =>
      setFlag (znvs (setFlag s C (R != 0)) R (R == 0x80)) H (flag (R &&& Rd) 3)).advance 1, 1)
  | .swap r =>
    let Rd := d.regfile r
    some ((d.setReg r (((Rd &&& 0x0F) <<< 4) ||| ((Rd &&& 0xF0) >>> 4))).advance 1, 1)
  | .inc r =>
    let R := d.regfile r + 1
    some (((d.setReg r R).modifySreg fun s => znvs s R (R == 0x80)).advance 1, 1)
  | .asr r =>
    let Rd := d.regfile r
    let R := (Rd >>> 1) ||| (Rd &&& 0x80)
    some (((d.setReg r R).modifySreg fun s => shiftFlags s Rd R (flag R 7)).advance 1, 1)
  | .lsr r =>
    let Rd := d.regfile r
    let R := Rd >>> 1
    some (((d.setReg r R).modifySreg fun s => shiftFlags s Rd R false).advance 1, 1)
  | .ror r =>
    let Rd := d.regfile r
    let R := (Rd >>> 1) ||| (bit (flag d.cpu.sreg C) <<< 7)
    some (((d.setReg r R).modifySreg fun s => shiftFlags s Rd R (flag R 7)).advance 1, 1)
  | .dec r =>
    let R := d.regfile r - 1
    some (((d.setReg r R).modifySreg fun s => znvs s R (R == 0x80)).advance 1, 1)
  | .cp rd rr =>
    let Rd := d.regfile rd
    let Rr := d.regfile rr
    let R := Rd - Rr
    some ((d.modifySreg fun s => subFlags s Rd Rr R (R == 0)).advance 1, 1)
  | .cpc rd rr =>
    let Rd := d.regfile rd
    let Rr := d.regfile rr
    let R := Rd - Rr - bit (flag d.cpu.sreg C)
    some ((d.modifySreg fun s => subFlags s Rd Rr R (R == 0 && flag s Z)).advance 1, 1)
  | .add rd rr =>
    let Rd := d.regfile rd
    let Rr := d.regfile rr
    let R := Rd + Rr
    some (((d.setReg rd R).modifySreg fun s => addFlags s Rd Rr R).advance 1, 1)
  | .adc rd rr =>
    let Rd := d.regfile rd
    let Rr := d.regfile rr
    let R := Rd + Rr + bit (flag d.cpu.sreg C)
    some (((d.setReg rd R).modifySreg fun s => addFlags s Rd Rr R).advance 1, 1)
  | .sub rd rr =>
    let Rd := d.regfile rd
    let Rr := d.regfile rr
    let R := Rd - Rr
    some (((d.setReg rd R).modifySreg fun s => subFlags s Rd Rr R (R == 0)).advance 1, 1)
  | .sbc rd rr =>
    let Rd := d.regfile rd
    let Rr := d.regfile rr
    let R := Rd - Rr - bit (flag d.cpu.sreg C)
    some (((d.setReg rd R).modifySreg fun s => subFlags s Rd Rr R (R == 0)).advance 1, 1)
  | .mul rd rr =>
    let R := (d.regfile rd).zeroExtend 16 * (d.regfile rr).zeroExtend 16
    some (((d.setPair 0 R).modifySreg fun s => mulFlags s R R).advance 1, 2)
  | .muls rd rr =>
    let R := s16 (d.regfile rd) * s16 (d.regfile rr)
    some (((d.setPair 0 R).modifySreg fun s => mulFlags s R R).advance 1, 2)
  | .mulsu rd rr =>
    let R := s16 (d.regfile rd) * (d.regfile rr).zeroExtend 16
    some (((d.setPair 0 R).modifySreg fun s => mulFlags s R R).advance 1, 2)
  | .fmul rd rr =>
    let R := (d.regfile rd).zeroExtend 16 * (d.regfile rr).zeroExtend 16
    some (((d.setPair 0 (R <<< 1)).modifySreg fun s => mulFlags s R (R <<< 1)).advance 1, 2)
  | .fmuls rd rr =>
    let R := s16 (d.regfile rd) * s16 (d.regfile rr)
    some (((d.setPair 0 (R <<< 1)).modifySreg fun s => mulFlags s R (R <<< 1)).advance 1, 2)
  | .fmulsu rd rr =>
    let R := s16 (d.regfile rd) * (d.regfile rr).zeroExtend 16
    some (((d.setPair 0 (R <<< 1)).modifySreg fun s => mulFlags s R (R <<< 1)).advance 1, 2)
  | .and rd rr =>
    let R := d.regfile rd &&& d.regfile rr
    some (((d.setReg rd R).modifySreg fun s => logicFlags s R).advance 1, 1)
  | .eor rd rr =>
    let R := d.regfile rd ^^^ d.regfile rr
    some (((d.setReg rd R).modifySreg fun s => logicFlags s R).advance 1, 1)
  | .or rd rr =>
    let R := d.regfile rd ||| d.regfile rr
    some (((d.setReg rd R).modifySreg fun s => logicFlags s R).advance 1, 1)
  | .mov rd rr => some ((d.setReg rd (d.regfile rr)).advance 1, 1)
  | .cpi rd K =>
    let Rd := d.regfile rd
    let R := Rd - K
    some ((d.modifySreg fun s => subFlags s Rd K R (R == 0)).advance 1, 1)
  | .subi rd K =>
    let Rd := d.regfile rd
    let R := Rd - K
    some (((d.setReg rd R).modifySreg fun s => subFlags s Rd K R (R == 0)).advance 1, 1)
  | .sbci rd K =>
    let Rd := d.regfile rd
    let R := Rd - K - bit (flag d.cpu.sreg C)
    some (((d.setReg rd R).modifySreg fun s => subFlags s Rd K R (R == 0)).advance 1, 1)
  | .andi rd K =>
    let R := d.regfile rd &&& K
    some (((d.setReg rd R).modifySreg fun s => logicFlags s R).advance 1, 1)
  | .ori rd K =>
    let R := d.regfile rd ||| K
    some (((d.setReg rd R).modifySreg fun s => logicFlags s R).advance 1, 1)
  | .movw rd rr => some ((d.setPair rd (d.getPair rr)).advance 1, 1)
  | .adiw rd K =>
    let Rd := d.getPair rd
    let R := Rd + K
    some (((d.setPair rd R).modifySreg fun s =>
      wordFlags s ((~~~R &&& Rd).getLsbD 15) ((R &&& ~~~Rd).getLsbD 15) R).advance 1, 1)
  | .sbiw rd K =>
    let Rd := d.getPair rd
    let R := Rd - K
    some (((d.setPair rd R).modifySreg fun s =>
      wordFlags s ((R &&& ~~~Rd).getLsbD 15) ((R &&& ~~~Rd).getLsbD 15) R).advance 1, 1)
  | .bld rd b =>
    some ((d.setReg rd ((d.regfile rd &&& ~~~(1#8 <<< b)) ||| (bit (flag d.cpu.sreg T) <<< b))).advance 1,
      1)
  | .bst rd b => some ((d.modifySreg fun s => setFlag s T (flag (d.regfile rd) b)).advance 1, 1)
  | .ldi rd K => some ((d.setReg rd K).advance 1, 1)
  | .lds rd => (d.flashAt (d.cpu.pc + 1).toNat).map fun k =>
      let addr := k.toNat ||| d.cpu.rampd.toNat <<< 16
      ((d.setReg rd (d.getDataMem addr)).advance 2, 2 + sramCycle addr)
  | .ldX rd =>
    let addr := d.ptrAddr .x
    some ((d.setReg rd (d.getDataMem addr)).advance 1, 1 + sramCycle addr)
  | .ldInc p rd =>
    let addr := d.ptrAddr p
    some (((d.setReg rd (d.getDataMem addr)).incPtr p).advance 1, 1 + sramCycle addr)
  | .ldDec p rd =>
    let d' := d.decPtr p
    let addr := d'.ptrAddr p
    some ((d'.setReg rd (d'.getDataMem addr)).advance 1, 2 + sramCycle addr)
  | .ldd p rd q =>
    let addr := d.ptrAddr p + q.toNat
    some ((d.setReg rd (d.getDataMem addr)).advance 1,
      (if q ≠ 0 then 2 else 1) + sramCycle addr)
  | .sts rd => (d.flashAt (d.cpu.pc + 1).toNat).map fun k =>
      ((d.setDataMem (k.toNat ||| d.cpu.rampd.toNat <<< 16) (d.regfile rd)).advance 2, 2)
  | .stX rd => some ((d.setDataMem (d.ptrAddr .x) (d.regfile rd)).advance 1, 1)
  | .stInc p rd => some (((d.setDataMem (d.ptrAddr p) (d.regfile rd)).incPtr p).advance 1, 1)
  | .stDec p rd =>
    let d' := d.decPtr p
    some ((d'.setDataMem (d'.ptrAddr p) (d'.regfile rd)).advance 1, 2)
  | .std p rd q =>
    some ((d.setDataMem (d.ptrAddr p + q.toNat) (d.regfile rd)).advance 1, if q ≠ 0 then 2 else 1)
  | .lpm0 => (d.flashAt (d.regz >>> 1).toNat).map fun v =>
      ((d.setReg 0 (lpmByte d.regz v)).advance 1, 3)
  | .lpm rd inc => (d.flashAt (d.regz >>> 1).toNat).map fun v =>
      let d' := d.setReg rd (lpmByte d.regz v)
      ((if inc then d'.setPair 30 (d'.regz + 1) else d').advance 1, 3)
  | .elpm0 => (d.flashAt ((d.regz >>> 1).toNat ||| d.cpu.rampz.toNat <<< 7)).map fun v =>
      ((d.setReg 0 (lpmByte d.regz v)).advance 1, 3)
  | .elpm rd inc =>
    (d.flashAt ((d.regz >>> 1).toNat ||| d.cpu.rampz.toNat <<< 7)).map fun v =>
      let d' := d.setReg rd (lpmByte d.regz v)
      ((if inc then d'.incPtr .z else d').advance 1, 3)
  | .spm => some (d.advance 1, 1)
  | .xch rd =>
    let z := d.getDataMem d.regz.toNat
    some (((d.setDataMem d.regz.toNat (d.regfile rd)).setReg rd z).advance 1, 1)
  | .lac rd =>
    let z := d.getDataMem d.regz.toNat
    some ((d.setDataMem d.regz.toNat (d.regfile rd &&& ~~~z)).advance 1, 1)
  | .las rd =>
    let z := d.getDataMem d.regz.toNat
    some (((d.setDataMem d.regz.toNat (d.regfile rd ||| z)).setReg rd z).advance 1, 1)
  | .lat rd =>
    let z := d.getDataMem d.regz.toNat
    some (((d.setDataMem d.regz.toNat (d.regfile rd ^^^ z)).setReg rd z).advance 1, 1)
  | .jmp hi => (d.flashAt (d.cpu.pc + 1).toNat).map fun op2 =>
      (d.setPc ((hi.zeroExtend 32 <<< 16) ||| op2.zeroExtend 32), 3)
  | .rjmp k => some (d.advance (k.signExtend 32 + 1), 2)
  | .ijmp => some (d.setPc (d.regz.zeroExtend 32), 2)
  | .eijmp =>
    if d.conf.smallFlash then some (d.advance 1, 1)
    else some (d.setPc (d.regz.zeroExtend 32 ||| (d.cpu.eind.zeroExtend 32 <<< 16)), 2)
  | .brb s k clr =>
    if flag d.cpu.sreg s ^^ clr then some (d.advance (k.signExtend 32 + 1), 2)
    else some (d.advance 1, 1)
  | .sbr r b set => if flag (d.regfile r) b == set then d.skip 3 3 else some (d.advance 1, 1)
  | .sbis a b set => if flag (d.getIoMem a) b == set then d.skip 3 2 else some (d.advance 1, 1)
  | .cpse rd rr => if d.regfile rd = d.regfile rr then d.skip 3 2 else some (d.advance 1, 1)
  | .call hi => (d.flashAt (d.cpu.pc + 1).toNat).bind fun op2 =>
      (d.pushPc (d.cpu.pc + 2) 3 4).map fun (d', c) =>
        (d'.setPc ((hi.zeroExtend 32 <<< 16) ||| op2.zeroExtend 32), c)
  | .rcall k => (d.pushPc (d.cpu.pc + 1) 2 3).map fun (d', c) =>
      (d'.setPc (d'.cpu.pc + (k.signExtend 32 + 1)), c)
  | .icall => (d.pushPc (d.cpu.pc + 1) 2 3).map fun (d', c) => (d'.setPc (d.regz.zeroExtend 32), c)
  | .eicall =>
    if d.conf.smallFlash then some (d.advance 1, 1)
    else (d.stackSet 3 (d.cpu.pc + 1)).map fun d' =>
      ((d'.setSp (d'.cpu.sp - 3)).setPc (d.regz.zeroExtend 32 ||| (d.cpu.eind.zeroExtend 32 <<< 16)),
        3)
  | .ret => d.popPc
  | .reti => { d with pmicStatus := retiStatus d.pmicStatus }.popPc
  | .pop rd =>
    let d' := d.setSp (d.cpu.sp + 1)
    d'.stackByte 0 |>.map fun i => ((d'.setReg rd (d'.sram.getD i 0)).advance 1, 1)
  | .push rr => d.stackByte 0 |>.map fun i =>
      (((d.setSram i (d.regfile rr)).setSp (d.cpu.sp - 1)).advance 1, 1)
  | .ioIn rd a => some ((d.setReg rd (d.getIoMem a)).advance 1, 1)
  | .ioOut rr a => some ((d.setIoMem a (d.regfile rr)).advance 1, 1)
  | .wdr => some (d.advance 1, 1)
  | .sleep => some (d.advance 1, 1)
  | .brk => some ({ d with breaked := true }.advance 1, 1)
  | .des => some (d.advance 1, 1)
  | .unknown => some (d.advance 1, 1)

theorem skip_cycles {d d' : Device} {long short c : Nat} (h : d.skip long short = some (d', c)) :
    c = long ∨ c = short := by
  unfold skip at h
  obtain ⟨op2, -, h⟩ := Option.map_eq_some'.1 h
  split at h <;> cases h <;> simp

theorem pushPc_cycles {d d' : Device} {ret : BitVec 32} {small large c : Nat}
    (h : d.pushPc ret small large = some (d', c)) : c = small ∨ c = large := by
  obtain ⟨_, -, h⟩ := Option.map_eq_some'.1 h
  cases h
  split <;> simp

theorem popPc_cycles {d d' : Device} {c : Nat} (h : d.popPc = some (d', c)) : c = 2 ∨ c = 3 := by
  unfold popPc at h
  split at h <;> obtain ⟨_, -, h⟩ := Option.map_eq_some'.1 h <;> cases h <;> simp

/-- Every branch of `executeNextInstruction` takes one to four cycles. -/
theorem execute_cycles_bounds {d d' : Device} {i : Instr} {c : Nat}
    (h : d.execute i = some (d', c)) : 1 ≤ c ∧ c ≤ 4 := by
  cases i <;> dsimp only [execute] at h <;> try simp only [Option.map_eq_some',
    Option.bind_eq_some, Option.some.injEq, Prod.mk.injEq] at h
  all_goals first
    | omega
    | (have hc := popPc_cycles h; omega)
    | (obtain ⟨-, rfl⟩ := h; split <;> omega)
    | (obtain ⟨-, rfl⟩ := h; unfold sramCycle; split <;> omega)
    | (obtain ⟨_, -, -, rfl⟩ := h; unfold sramCycle; split <;> omega)
    | (obtain ⟨_, hp, -, rfl⟩ := h; have hc := pushPc_cycles hp; omega)
    | (obtain ⟨_, -, _, hp, -, rfl⟩ := h; have hc := pushPc_cycles hp; omega)
    | (split at h <;> first
        | (have hc := skip_cycles h; omega)
        | (obtain ⟨-, rfl⟩ := h; unfold sramCycle; split <;> omega)
        | (simp only [Option.map_eq_some', Option.some.injEq, Prod.mk.injEq] at h; omega))

/-- `Device::executeNextInstruction`. -/
def executeNextInstruction (d : Device) : Option (Device × Nat) :=
  (d.flashAt d.cpu.pc.toNat).bind fun op => d.execute (decode op)

theorem executeNextInstruction_cycles_bounds {d d' : Device} {c : Nat}
    (h : d.executeNextInstruction = some (d', c)) : 1 ≤ c ∧ c ≤ 4 := by
  obtain ⟨_, -, h⟩ := Option.bind_eq_some.1 h
  exact execute_cycles_bounds h

end Device

end Megumi
