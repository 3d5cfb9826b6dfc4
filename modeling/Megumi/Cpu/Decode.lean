import Mathlib.Data.BitVec

/-!
# Decoding `executeNextInstruction`'s opcodes

`Device::executeNextInstruction` (`src/device.cpp`) is one chain of `if (opcode & mask) == value`
tests. `decode` is that chain, test for test and in its order, and yields the branch taken with
the operands the branch computes from the opcode; `Megumi.Device.execute` runs the branch.

The LD, LDD, ST and STD branches for X, Y and Z repeat one body with another pointer register;
they are one constructor each with the pointer as a parameter. `FMULSU` tests the same mask and
value as `FMULS`, so its branch is dead code; `decode` keeps the test where the source has it.

`u16_to_s16<12>` and `u8_to_s8<7>` are declared in `common.h`, which is not in the repository:
modelled from the spec, they sign-extend a 12-bit and a 7-bit field.
-/

namespace Megumi

/-- The pointer registers `regx_`, `regy_`, `regz_`. -/
inductive Ptr
  | x | y | z
  deriving DecidableEq, Repr

/-- The branches of `executeNextInstruction`, with the operands each computes. -/
inductive Instr
  | nop
  | bset (s : Nat)
  | bclr (s : Nat)
  | sbi (a b : Nat)
  | cbi (a b : Nat)
  | com (d : Fin 32)
  | neg (d : Fin 32)
  | swap (d : Fin 32)
  | inc (d : Fin 32)
  | asr (d : Fin 32)
  | lsr (d : Fin 32)
  | ror (d : Fin 32)
  | dec (d : Fin 32)
  | cp (d r : Fin 32)
  | cpc (d r : Fin 32)
  | add (d r : Fin 32)
  | adc (d r : Fin 32)
  | sub (d r : Fin 32)
  | sbc (d r : Fin 32)
  | mul (d r : Fin 32)
  | muls (d r : Fin 32)
  | mulsu (d r : Fin 32)
  | fmul (d r : Fin 32)
  | fmuls (d r : Fin 32)
  | fmulsu (d r : Fin 32)
  | and (d r : Fin 32)
  | eor (d r : Fin 32)
  | or (d r : Fin 32)
  | mov (d r : Fin 32)
  | cpi (d : Fin 32) (K : BitVec 8)
  | subi (d : Fin 32) (K : BitVec 8)
  | sbci (d : Fin 32) (K : BitVec 8)
  | andi (d : Fin 32) (K : BitVec 8)
  | ori (d : Fin 32) (K : BitVec 8)
  | movw (d r : Fin 32)
  | adiw (d : Fin 32) (K : BitVec 16)
  | sbiw (d : Fin 32) (K : BitVec 16)
  | bld (d : Fin 32) (b : Nat)
  | bst (d : Fin 32) (b : Nat)
  | ldi (d : Fin 32) (K : BitVec 8)
  | lds (d : Fin 32)
  /-- `LD Rd,X`. -/
  | ldX (d : Fin 32)
  /-- `LD Rd,P+`. -/
  | ldInc (p : Ptr) (d : Fin 32)
  /-- `LD Rd,-P`. -/
  | ldDec (p : Ptr) (d : Fin 32)
  /-- `LDD Rd,P+q`, for `Y` and `Z` (`LD Rd,P` when `q = 0`). -/
  | ldd (p : Ptr) (d : Fin 32) (q : BitVec 8)
  | sts (d : Fin 32)
  | stX (d : Fin 32)
  | stInc (p : Ptr) (d : Fin 32)
  | stDec (p : Ptr) (d : Fin 32)
  | std (p : Ptr) (d : Fin 32) (q : BitVec 8)
  | lpm0
  | lpm (d : Fin 32) (inc : Bool)
  | elpm0
  | elpm (d : Fin 32) (inc : Bool)
  | spm
  | xch (d : Fin 32)
  | lac (d : Fin 32)
  | las (d : Fin 32)
  | lat (d : Fin 32)
  | jmp (hi : BitVec 16)
  | rjmp (k : BitVec 16)
  | ijmp
  | eijmp
  /-- `BRBS s,k` when `clr` is false, `BRBC s,k` when it is true. -/
  | brb (s : Nat) (k : BitVec 8) (clr : Bool)
  /-- `SBRC r,b` when `set` is false, `SBRS r,b` when it is true. -/
  | sbr (r : Fin 32) (b : Nat) (set : Bool)
  /-- `SBIC a,b` when `set` is false, `SBIS a,b` when it is true. -/
  | sbis (a b : Nat) (set : Bool)
  | cpse (d r : Fin 32)
  | call (hi : BitVec 16)
  | rcall (k : BitVec 16)
  | icall
  | eicall
  | ret
  | reti
  | pop (d : Fin 32)
  | push (r : Fin 32)
  | ioIn (d : Fin 32) (a : Nat)
  | ioOut (r : Fin 32) (a : Nat)
  | wdr
  | sleep
  | brk
  | des
  | unknown
  deriving Repr

namespace Decode

/-- A register index computed from the opcode; the masks keep it below 32. -/
def reg (v : BitVec 16) : Fin 32 := ⟨v.toNat % 32, Nat.mod_lt _ (by decide)⟩

/-- `(opcode >> 4) & 0x1F`. -/
def d5 (op : BitVec 16) : Fin 32 := reg ((op >>> 4) &&& 0x1F)
/-- `(opcode & 0xF) | ((opcode >> 5) & 0x10)`. -/
def r5 (op : BitVec 16) : Fin 32 := reg ((op &&& 0xF) ||| ((op >>> 5) &&& 0x10))
/-- `((opcode >> 4) & 0xF) | 0x10`, `16 <= d <= 31`. -/
def d4 (op : BitVec 16) : Fin 32 := reg (((op >>> 4) &&& 0xF) ||| 0x10)
/-- `(opcode & 0xF) | 0x10`. -/
def r4 (op : BitVec 16) : Fin 32 := reg ((op &&& 0xF) ||| 0x10)
/-- `((opcode >> 4) & 0x7) | 0x10`, `16 <= d <= 23`. -/
def d3 (op : BitVec 16) : Fin 32 := reg (((op >>> 4) &&& 0x7) ||| 0x10)
/-- `(opcode & 0x7) | 0x10`. -/
def r3 (op : BitVec 16) : Fin 32 := reg ((op &&& 0x7) ||| 0x10)
/-- `(opcode & 0xF) | ((opcode >> 4) & 0xF0)`. -/
def K8 (op : BitVec 16) : BitVec 8 := ((op &&& 0xF) ||| ((op >>> 4) &&& 0xF0)).truncate 8
/-- `(opcode & 0x7) | ((opcode >> 7) & 0x18) | ((opcode >> 8) & 0x20)`. -/
def q6 (op : BitVec 16) : BitVec 8 :=
  ((op &&& 0x7) ||| ((op >>> 7) &&& 0x18) ||| ((op >>> 8) &&& 0x20)).truncate 8
/-- `opcode & 7`. -/
def b3 (op : BitVec 16) : Nat := (op &&& 7).toNat
/-- `(opcode >> 3) & 0x1F`. -/
def a5 (op : BitVec 16) : Nat := ((op >>> 3) &&& 0x1F).toNat
/-- `(opcode & 0xF) | ((opcode >> 5) & 0x30)`. -/
def a6 (op : BitVec 16) : Nat := ((op &&& 0xF) ||| ((op >>> 5) &&& 0x30)).toNat
/-- `((opcode >> 3) & 0x3E) | (opcode & 1)`: the high bits of a JMP or CALL target. -/
def k22 (op : BitVec 16) : BitVec 16 := ((op >>> 3) &&& 0x3E) ||| (op &&& 1)
/-- `u16_to_s16<12>(opcode & 0xFFF)`. -/
def k12 (op : BitVec 16) : BitVec 16 := ((op &&& 0xFFF).truncate 12).signExtend 16
/-- `u8_to_s8<7>((opcode >> 3) & 0x7F)`. -/
def k7 (op : BitVec 16) : BitVec 8 := (((op >>> 3) &&& 0x7F).truncate 7).signExtend 8
/-- Bit `i` of the opcode, `(opcode >> i) & 1`. -/
def bitOf (op : BitVec 16) (i : Nat) : Bool := op.getLsbD i

end Decode

open Decode

/-- The branch `executeNextInstruction` takes on `opcode`, with its operands. -/
def decode (op : BitVec 16) : Instr :=
  if op = 0 then .nop
  else if op &&& 0xFF8F = 0x9408 then .bset ((op >>> 4) &&& 7).toNat
  else if op &&& 0xFF8F = 0x9488 then .bclr ((op >>> 4) &&& 7).toNat
  else if op &&& 0xFF00 = 0x9A00 then .sbi (a5 op) (b3 op)
  else if op &&& 0xFF00 = 0x9800 then .cbi (a5 op) (b3 op)
  else if op &&& 0xFE0F = 0x9400 then .com (d5 op)
  else if op &&& 0xFE0F = 0x9401 then .neg (d5 op)
  else if op &&& 0xFE0F = 0x9402 then .swap (d5 op)
  else if op &&& 0xFE0F = 0x9403 then .inc (d5 op)
  else if op &&& 0xFE0F = 0x9405 then .asr (d5 op)
  else if op &&& 0xFE0F = 0x9406 then .lsr (d5 op)
  else if op &&& 0xFE0F = 0x9407 then .ror (d5 op)
  else if op &&& 0xFE0F = 0x940A then .dec (d5 op)
  else if op &&& 0xFC00 = 0x1400 then .cp (d5 op) (r5 op)
  else if op &&& 0xFC00 = 0x0400 then .cpc (d5 op) (r5 op)
  else if op &&& 0xFC00 = 0x0C00 then .add (d5 op) (r5 op)
  else if op &&& 0xFC00 = 0x1C00 then .adc (d5 op) (r5 op)
  else if op &&& 0xFC00 = 0x1800 then .sub (d5 op) (r5 op)
  else if op &&& 0xFC00 = 0x0800 then .sbc (d5 op) (r5 op)
  else if op &&& 0xFC00 = 0x9C00 then .mul (d5 op) (r5 op)
  else if op &&& 0xFF00 = 0x0200 then .muls (d4 op) (r4 op)
  else if op &&& 0xFF88 = 0x0300 then .mulsu (d3 op) (r3 op)
  else if op &&& 0xFF88 = 0x0308 then .fmul (d3 op) (r3 op)
  else if op &&& 0xFF88 = 0x0380 then .fmuls (d3 op) (r3 op)
  else if op &&& 0xFF88 = 0x0380 then .fmulsu (d3 op) (r3 op)
  else if op &&& 0xFC00 = 0x2000 then .and (d5 op) (r5 op)
  else if op &&& 0xFC00 = 0x2400 then .eor (d5 op) (r5 op)
  else if op &&& 0xFC00 = 0x2800 then .or (d5 op) (r5 op)
  else if op &&& 0xFC00 = 0x2C00 then .mov (d5 op) (r5 op)
  else if op &&& 0xF000 = 0x3000 then .cpi (d4 op) (K8 op)
  else if op &&& 0xF000 = 0x5000 then .subi (d4 op) (K8 op)
  else if op &&& 0xF000 = 0x4000 then .sbci (d4 op) (K8 op)
  else if op &&& 0xF000 = 0x7000 then .andi (d4 op) (K8 op)
  else if op &&& 0xF000 = 0x6000 then .ori (d4 op) (K8 op)
  else if op &&& 0xFF00 = 0x0100 then .movw (reg ((op >>> 3) &&& 0x1E)) (reg ((op &&& 0xF) <<< 1))
  else if op &&& 0xFF00 = 0x9600 then
    .adiw (reg (((op >>> 3) &&& 0x6) + 24)) ((op &&& 0xF) ||| ((op >>> 2) &&& 0x30))
  else if op &&& 0xFF00 = 0x9700 then
    .sbiw (reg (((op >>> 3) &&& 0x6) + 24)) ((op &&& 0xF) ||| ((op >>> 2) &&& 0x30))
  else if op &&& 0xFE08 = 0xF800 then .bld (d5 op) (b3 op)
  else if op &&& 0xFE08 = 0xFA00 then .bst (d5 op) (b3 op)
  else if op &&& 0xF000 = 0xE000 then .ldi (d4 op) (K8 op)
  else if op &&& 0xFE0F = 0x9000 then .lds (d5 op)
  else if op &&& 0xFE0F = 0x900C then .ldX (d5 op)
  else if op &&& 0xFE0F = 0x900D then .ldInc .x (d5 op)
  else if op &&& 0xFE0F = 0x900E then .ldDec .x (d5 op)
  else if op &&& 0xD208 = 0x8008 then .ldd .y (d5 op) (q6 op)
  else if op &&& 0xFE0F = 0x9009 then .ldInc .y (d5 op)
  else if op &&& 0xFE0F = 0x900A then .ldDec .y (d5 op)
  else if op &&& 0xD208 = 0x8000 then .ldd .z (d5 op) (q6 op)
  else if op &&& 0xFE0F = 0x9001 then .ldInc .z (d5 op)
  else if op &&& 0xFE0F = 0x9002 then .ldDec .z (d5 op)
  else if op &&& 0xFE0F = 0x9200 then .sts (d5 op)
  else if op &&& 0xFE0F = 0x920C then .stX (d5 op)
  else if op &&& 0xFE0F = 0x920D then .stInc .x (d5 op)
  else if op &&& 0xFE0F = 0x920E then .stDec .x (d5 op)
  else if op &&& 0xD208 = 0x8208 then .std .y (d5 op) (q6 op)
  else if op &&& 0xFE0F = 0x9209 then .stInc .y (d5 op)
  else if op &&& 0xFE0F = 0x920A then .stDec .y (d5 op)
  else if op &&& 0xD208 = 0x8200 then .std .z (d5 op) (q6 op)
  else if op &&& 0xFE0F = 0x9201 then .stInc .z (d5 op)
  else if op &&& 0xFE0F = 0x9202 then .stDec .z (d5 op)
  else if op = 0x95C8 then .lpm0
  else if op &&& 0xFE0E = 0x9004 then .lpm (d5 op) (bitOf op 0)
  else if op = 0x95D8 then .elpm0
  else if op &&& 0xFE0E = 0x9006 then .elpm (d5 op) (bitOf op 0)
  else if op = 0x95E8 ∨ op = 0x95F8 then .spm
  else if op &&& 0xFE0F = 0x9204 then .xch (d5 op)
  else if op &&& 0xFE0F = 0x9206 then .lac (d5 op)
  else if op &&& 0xFE0F = 0x9205 then .las (d5 op)
  else if op &&& 0xFE0F = 0x9207 then .lat (d5 op)
  else if op &&& 0xFE0E = 0x940C then .jmp (k22 op)
  else if op &&& 0xF000 = 0xC000 then .rjmp (k12 op)
  else if op = 0x9409 then .ijmp
  else if op = 0x9419 then .eijmp
  else if op &&& 0xF800 = 0xF000 then .brb (b3 op) (k7 op) (bitOf op 10)
  else if op &&& 0xFC00 = 0xFC00 then .sbr (d5 op) (b3 op) (bitOf op 9)
  else if op &&& 0xFD00 = 0x9900 then .sbis (a5 op) (b3 op) (bitOf op 9)
  else if op &&& 0xFC00 = 0x1000 then .cpse (d5 op) (r5 op)
  else if op &&& 0xFE0E = 0x940E then .call (k22 op)
  else if op &&& 0xF000 = 0xD000 then .rcall (k12 op)
  else if op = 0x9509 then .icall
  else if op = 0x9519 then .eicall
  else if op = 0x9508 then .ret
  else if op = 0x9518 then .reti
  else if op &&& 0xFE0F = 0x900F then .pop (d5 op)
  else if op &&& 0xFE0F = 0x920F then .push (d5 op)
  else if op &&& 0xF800 = 0xB000 then .ioIn (d5 op) (a6 op)
  else if op &&& 0xF800 = 0xB800 then .ioOut (d5 op) (a6 op)
  else if op = 0x95A8 then .wdr
  else if op = 0x9588 then .sleep
  else if op = 0x9598 then .brk
  else if op &&& 0xFF0F = 0x940B then .des
  else .unknown

/-- `opcode_is_32b`: JMP, CALL, LDS and STS take a second word. -/
def opcodeIs32b (op : BitVec 16) : Bool := op &&& 0xFE0C = 0x940C || op &&& 0xFC0F = 0x9000

end Megumi
