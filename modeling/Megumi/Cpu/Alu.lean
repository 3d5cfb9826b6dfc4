import Megumi.Cpu.Execute

/-!
# The ALU's flags, one byte at a time

The subtract branches (SUB, SBC, SUBI, SBCI, CP, CPC, CPI) and the add branches (ADD, ADC) of
`Device::executeNextInstruction` (`src/device.cpp`) compute `C`, `V` and `H` with the bit
formulas of the AVR manual, on bit 7 and bit 3 of `Rd`, `Rr` and `R`. Read through `toNat`
and `toInt`, `C` is the borrow (or carry) out of the byte, `V` says the signed result left
`[-128, 128)`, and `S = N ^ V` is the sign of the exact signed result. `H`, the same formula
on bit 3, is the carry or borrow out of the low nibble; NEG computes its `H` as
`(R & Rd) & 0x08` instead, set only for a low nibble of 8 (`half_carry`).

`uval` and `sval` read a list of bytes, low byte first, as the unsigned and the
two's-complement number a multi-byte chain works on.
-/

namespace Megumi

open Sreg

/-! ## Bytes as numbers -/

theorem getLsbD_seven (x : BitVec 8) : x.getLsbD 7 = decide (128 ≤ x.toNat) := by
  rw [BitVec.getLsbD, Nat.testBit_to_div_mod]
  simp only [decide_eq_decide]; omega

theorem toInt_byte (x : BitVec 8) :
    x.toInt = if x.toNat < 128 then (x.toNat : Int) else x.toNat - 256 := by
  rw [BitVec.toInt_eq_toNat_cond]
  split_ifs <;> first | rfl | omega

theorem toNat_bit (c : Bool) : (bit c).toNat = c.toNat := by cases c <;> rfl

theorem toNat_sub_borrow (a b : BitVec 8) (c : Bool) :
    (a - b - bit c).toNat = (a.toNat + 512 - b.toNat - c.toNat) % 256 := by
  have := a.isLt; have := b.isLt; have := c.toNat_le
  simp only [BitVec.toNat_sub, toNat_bit]
  omega

theorem toNat_add_carry (a b : BitVec 8) (c : Bool) :
    (a + b + bit c).toNat = (a.toNat + b.toNat + c.toNat) % 256 := by
  simp only [BitVec.toNat_add, toNat_bit]
  omega

theorem xor_decide (p q : Prop) [Decidable p] [Decidable q] :
    (decide p ^^ decide q) = decide (¬(p ↔ q)) := by
  by_cases p <;> by_cases q <;> simp [*]

/-! ## The subtract formulas, for `R = a - b - c` -/

section Sub

variable (a b : BitVec 8) (c : Bool)

theorem sub_carry :
    flag ((~~~a &&& b) ||| (b &&& (a - b - bit c)) ||| ((a - b - bit c) &&& ~~~a)) 7 =
      decide (a.toNat < b.toNat + c.toNat) := by
  have := a.isLt; have := b.isLt; have := c.toNat_le
  simp only [flag, BitVec.getLsbD_or, BitVec.getLsbD_and, BitVec.getLsbD_not,
    show decide (7 < 8) = true from rfl, Bool.true_and]
  rw [getLsbD_seven, getLsbD_seven, getLsbD_seven, toNat_sub_borrow, Bool.eq_iff_iff]
  simp only [Bool.or_eq_true, Bool.and_eq_true, Bool.not_eq_eq_eq_not, Bool.not_true,
    decide_eq_true_eq, decide_eq_false_iff_not]
  omega

theorem sub_overflow :
    flag ((a &&& ~~~b &&& ~~~(a - b - bit c)) ||| (~~~a &&& b &&& (a - b - bit c))) 7 =
      decide ¬(-128 ≤ a.toInt - b.toInt - c.toNat ∧ a.toInt - b.toInt - c.toNat < 128) := by
  have := a.isLt; have := b.isLt; have := c.toNat_le
  simp only [flag, BitVec.getLsbD_or, BitVec.getLsbD_and, BitVec.getLsbD_not,
    show decide (7 < 8) = true from rfl, Bool.true_and]
  rw [getLsbD_seven, getLsbD_seven, getLsbD_seven, toNat_sub_borrow, Bool.eq_iff_iff, toInt_byte,
    toInt_byte]
  simp only [Bool.or_eq_true, Bool.and_eq_true, Bool.not_eq_eq_eq_not, Bool.not_true,
    decide_eq_true_eq, decide_eq_false_iff_not]
  split_ifs <;> omega

/-- `S = N ^ V` is the sign of the exact signed difference. -/
theorem sub_sign :
    (flag (a - b - bit c) 7 ^^
        flag ((a &&& ~~~b &&& ~~~(a - b - bit c)) ||| (~~~a &&& b &&& (a - b - bit c))) 7) =
      decide (a.toInt - b.toInt - c.toNat < 0) := by
  have := a.isLt; have := b.isLt; have := c.toNat_le
  rw [sub_overflow, flag, getLsbD_seven, toNat_sub_borrow, toInt_byte, toInt_byte, Bool.eq_iff_iff]
  simp only [xor_decide, decide_eq_true_eq]
  split_ifs <;> omega

end Sub

/-! ## The add formulas, for `R = a + b + c` -/

section Add

variable (a b : BitVec 8) (c : Bool)

theorem add_carry :
    flag ((a &&& b) ||| (b &&& ~~~(a + b + bit c)) ||| (~~~(a + b + bit c) &&& a)) 7 =
      decide (256 ≤ a.toNat + b.toNat + c.toNat) := by
  have := a.isLt; have := b.isLt; have := c.toNat_le
  simp only [flag, BitVec.getLsbD_or, BitVec.getLsbD_and, BitVec.getLsbD_not,
    show decide (7 < 8) = true from rfl, Bool.true_and]
  rw [getLsbD_seven, getLsbD_seven, getLsbD_seven, toNat_add_carry, Bool.eq_iff_iff]
  simp only [Bool.or_eq_true, Bool.and_eq_true, Bool.not_eq_eq_eq_not, Bool.not_true,
    decide_eq_true_eq, decide_eq_false_iff_not]
  omega

theorem add_overflow :
    flag ((a &&& b &&& ~~~(a + b + bit c)) ||| (~~~a &&& ~~~b &&& (a + b + bit c))) 7 =
      decide ¬(-128 ≤ a.toInt + b.toInt + c.toNat ∧ a.toInt + b.toInt + c.toNat < 128) := by
  have := a.isLt; have := b.isLt; have := c.toNat_le
  simp only [flag, BitVec.getLsbD_or, BitVec.getLsbD_and, BitVec.getLsbD_not,
    show decide (7 < 8) = true from rfl, Bool.true_and]
  rw [getLsbD_seven, getLsbD_seven, getLsbD_seven, toNat_add_carry, Bool.eq_iff_iff, toInt_byte,
    toInt_byte]
  simp only [Bool.or_eq_true, Bool.and_eq_true, Bool.not_eq_eq_eq_not, Bool.not_true,
    decide_eq_true_eq, decide_eq_false_iff_not]
  split_ifs <;> omega

theorem add_sign :
    (flag (a + b + bit c) 7 ^^
        flag ((a &&& b &&& ~~~(a + b + bit c)) ||| (~~~a &&& ~~~b &&& (a + b + bit c))) 7) =
      decide (a.toInt + b.toInt + c.toNat < 0) := by
  have := a.isLt; have := b.isLt; have := c.toNat_le
  rw [add_overflow, flag, getLsbD_seven, toNat_add_carry, toInt_byte, toInt_byte, Bool.eq_iff_iff]
  simp only [xor_decide, decide_eq_true_eq]
  split_ifs <;> omega

end Add

/-! ## The flags the subtract and add branches write -/

theorem subFlags_flags (s Rd Rr R : BitVec 8) (z : Bool) :
    flag (subFlags s Rd Rr R z) C = flag ((~~~Rd &&& Rr) ||| (Rr &&& R) ||| (R &&& ~~~Rd)) 7 ∧
      flag (subFlags s Rd Rr R z) Z = z ∧ flag (subFlags s Rd Rr R z) N = flag R 7 ∧
      flag (subFlags s Rd Rr R z) V = flag ((Rd &&& ~~~Rr &&& ~~~R) ||| (~~~Rd &&& Rr &&& R)) 7 ∧
      flag (subFlags s Rd Rr R z) S =
        (flag R 7 ^^ flag ((Rd &&& ~~~Rr &&& ~~~R) ||| (~~~Rd &&& Rr &&& R)) 7) := by
  simp [subFlags, flag_setFlag_same, flag_setFlag_ne, C, Z, N, V, S, H]

theorem addFlags_flags (s Rd Rr R : BitVec 8) :
    flag (addFlags s Rd Rr R) C = flag ((Rd &&& Rr) ||| (Rr &&& ~~~R) ||| (~~~R &&& Rd)) 7 ∧
      flag (addFlags s Rd Rr R) N = flag R 7 ∧
      flag (addFlags s Rd Rr R) V = flag ((Rd &&& Rr &&& ~~~R) ||| (~~~Rd &&& ~~~Rr &&& R)) 7 ∧
      flag (addFlags s Rd Rr R) S =
        (flag R 7 ^^ flag ((Rd &&& Rr &&& ~~~R) ||| (~~~Rd &&& ~~~Rr &&& R)) 7) := by
  simp [addFlags, flag_setFlag_same, flag_setFlag_ne, C, Z, N, V, S, H]

/-! ## The half carry, bit 3 of the same formulas -/

theorem getLsbD_three (x : BitVec 8) : x.getLsbD 3 = decide (8 ≤ x.toNat % 16) := by
  rw [BitVec.getLsbD, Nat.testBit_to_div_mod]
  simp only [decide_eq_decide]; omega

section Half

variable (a b : BitVec 8) (c : Bool)

/-- `H` of the subtract branches is the borrow out of the low nibble. -/
theorem sub_half :
    flag ((~~~a &&& b) ||| (b &&& (a - b - bit c)) ||| ((a - b - bit c) &&& ~~~a)) 3 =
      decide (a.toNat % 16 < b.toNat % 16 + c.toNat) := by
  have := a.isLt; have := b.isLt; have := c.toNat_le
  simp only [flag, BitVec.getLsbD_or, BitVec.getLsbD_and, BitVec.getLsbD_not,
    show decide (3 < 8) = true from rfl, Bool.true_and]
  rw [getLsbD_three, getLsbD_three, getLsbD_three, toNat_sub_borrow, Bool.eq_iff_iff]
  simp only [Bool.or_eq_true, Bool.and_eq_true, Bool.not_eq_eq_eq_not, Bool.not_true,
    decide_eq_true_eq, decide_eq_false_iff_not]
  omega

/-- `H` of ADD and ADC is the carry out of the low nibble. -/
theorem add_half :
    flag ((a &&& b) ||| (b &&& ~~~(a + b + bit c)) ||| (~~~(a + b + bit c) &&& a)) 3 =
      decide (16 ≤ a.toNat % 16 + b.toNat % 16 + c.toNat) := by
  have := a.isLt; have := b.isLt; have := c.toNat_le
  simp only [flag, BitVec.getLsbD_or, BitVec.getLsbD_and, BitVec.getLsbD_not,
    show decide (3 < 8) = true from rfl, Bool.true_and]
  rw [getLsbD_three, getLsbD_three, getLsbD_three, toNat_add_carry, Bool.eq_iff_iff]
  simp only [Bool.or_eq_true, Bool.and_eq_true, Bool.not_eq_eq_eq_not, Bool.not_true,
    decide_eq_true_eq, decide_eq_false_iff_not]
  omega

/-- NEG's `H = (R & Rd) & 0x08` holds only for a low nibble of 8, where the borrow out of the
low nibble of `0 - Rd` happens for every nonzero one. -/
theorem neg_half : flag (((0x100 - a) &&& 0xFF) &&& a) 3 = decide (a.toNat % 16 = 8) := by
  have := a.isLt
  have hR : (0x100 - a).toNat = (256 - a.toNat) % 256 := by rw [BitVec.toNat_sub]; rfl
  rw [show (0xFF : BitVec 8) = BitVec.allOnes 8 from rfl, BitVec.and_allOnes, flag,
    BitVec.getLsbD_and, getLsbD_three, getLsbD_three, hR, Bool.eq_iff_iff]
  simp only [Bool.and_eq_true, decide_eq_true_eq]
  omega

end Half

theorem subFlags_half (s Rd Rr R : BitVec 8) (z : Bool) :
    flag (subFlags s Rd Rr R z) H = flag ((~~~Rd &&& Rr) ||| (Rr &&& R) ||| (R &&& ~~~Rd)) 3 := by
  simp [subFlags, flag_setFlag_same, H]

theorem addFlags_half (s Rd Rr R : BitVec 8) :
    flag (addFlags s Rd Rr R) H = flag ((Rd &&& Rr) ||| (Rr &&& ~~~R) ||| (~~~R &&& Rd)) 3 := by
  simp [addFlags, flag_setFlag_same, H]

namespace Device

/-- **The half carry.** For every state and registers: ADD and ADC set `H` exactly when the low
nibbles, with the carry in, sum to 16 or more; SUB and SBC exactly when the low nibble of `Rd`
is below that of `Rr` plus the carry in. NEG sets `H` exactly when the low nibble of `Rd` is 8,
although `0 - Rd` borrows out of the low nibble for every nonzero one. -/
theorem half_carry (d : Device) (rd rr : Fin 32) :
    (∃ d', d.execute (.add rd rr) = some (d', 1) ∧ flag d'.cpu.sreg H =
      decide (16 ≤ (d.regfile rd).toNat % 16 + (d.regfile rr).toNat % 16)) ∧
    (∃ d', d.execute (.adc rd rr) = some (d', 1) ∧ flag d'.cpu.sreg H =
      decide (16 ≤ (d.regfile rd).toNat % 16 + (d.regfile rr).toNat % 16 +
        (flag d.cpu.sreg C).toNat)) ∧
    (∃ d', d.execute (.sub rd rr) = some (d', 1) ∧ flag d'.cpu.sreg H =
      decide ((d.regfile rd).toNat % 16 < (d.regfile rr).toNat % 16)) ∧
    (∃ d', d.execute (.sbc rd rr) = some (d', 1) ∧ flag d'.cpu.sreg H =
      decide ((d.regfile rd).toNat % 16 < (d.regfile rr).toNat % 16 + (flag d.cpu.sreg C).toNat)) ∧
    (∃ d', d.execute (.neg rd) = some (d', 1) ∧
      flag d'.cpu.sreg H = decide ((d.regfile rd).toNat % 16 = 8)) := by
  refine ⟨⟨_, rfl, ?_⟩, ⟨_, rfl, ?_⟩, ⟨_, rfl, ?_⟩, ⟨_, rfl, ?_⟩, ⟨_, rfl, ?_⟩⟩ <;>
    simp only [advance, setPc_sreg, modifySreg_sreg, setReg_cpu, addFlags_half, subFlags_half]
  · have h := add_half (d.regfile rd) (d.regfile rr) false
    rwa [show bit false = 0#8 from rfl, BitVec.add_zero, Bool.toNat_false, Nat.add_zero] at h
  · exact add_half _ _ _
  · have h := sub_half (d.regfile rd) (d.regfile rr) false
    rwa [show bit false = 0#8 from rfl, BitVec.sub_zero, Bool.toNat_false, Nat.add_zero] at h
  · exact sub_half _ _ _
  · rw [flag_setFlag_same _ (by decide)]
    exact neg_half _

end Device

/-! ## Multi-byte numbers, low byte first -/

/-- The bytes as an unsigned number. -/
def uval : List (BitVec 8) → Nat
  | [] => 0
  | b :: bs => b.toNat + 256 * uval bs

/-- The bytes as a two's-complement number: the top byte is signed. -/
def sval : List (BitVec 8) → Int
  | [] => 0
  | [b] => b.toInt
  | b :: bs => b.toNat + 256 * sval bs

theorem uval_lt : ∀ bs : List (BitVec 8), uval bs < 256 ^ bs.length
  | [] => Nat.one_pos
  | b :: bs => by
    have := b.isLt; have := uval_lt bs
    rw [uval, List.length_cons, Nat.pow_succ]
    omega

theorem sval_cons_cons (b b' : BitVec 8) (bs : List (BitVec 8)) :
    sval (b :: b' :: bs) = b.toNat + 256 * sval (b' :: bs) := rfl

end Megumi
