import Megumi.Cpu.Alu
import Mathlib.Tactic.Linarith

/-!
# 16-bit results: ADIW, SBIW and the multiplications

ADIW and SBIW (`src/device.cpp`) add an immediate `K < 64` to a register pair or subtract it
from one, and read `C` and `V` off bit 15 of `Rd` and `R`. ADIW's `V` is `R15 & ~Rd15`, the
signed overflow. SBIW's `V` repeats its `C` formula, `R15 & ~Rd15`, where the AVR manual has
`Rd15 & ~R15`: SBIW sets `V` exactly when it borrows, and never on the signed overflow of
`0x8000 - K` (`adiw_sbiw_words`).

MUL, MULS and MULSU write the 16-bit product to `r1:r0`, with `C` its bit 15 and `Z` set when it
is zero; FMUL and FMULS write it shifted left by one, with `C` the bit shifted out. Read
through `toNat` and `toInt`, the products are exact, and FMULS of `-128` by `-128` reads back
as `-32768` (`multiply_products`).
-/

namespace Megumi

open Sreg

/-! ## Words as numbers -/

theorem getLsbD_fifteen (x : BitVec 16) : x.getLsbD 15 = decide (2 ^ 15 ≤ x.toNat) := by
  rw [BitVec.getLsbD, Nat.testBit_to_div_mod]
  simp only [decide_eq_decide]; omega

theorem toInt_word (x : BitVec 16) :
    x.toInt = if x.toNat < 2 ^ 15 then (x.toNat : Int) else x.toNat - 2 ^ 16 := by
  rw [BitVec.toInt_eq_toNat_cond]
  split_ifs <;> first | rfl | omega

/-- Bit 15 of a word is its sign. -/
theorem getLsbD_fifteen_eq_neg (x : BitVec 16) : x.getLsbD 15 = decide (x.toInt < 0) := by
  rw [getLsbD_fifteen, toInt_word]
  have := x.isLt
  split_ifs <;> simp only [decide_eq_decide] <;> omega

/-! ## ADIW's and SBIW's formulas, for an immediate below 64 -/

section Imm

variable (Rd K : BitVec 16) (hK : K.toNat < 64)
include hK

theorem adiw_carry : (~~~(Rd + K) &&& Rd).getLsbD 15 = decide (2 ^ 16 ≤ Rd.toNat + K.toNat) := by
  have := Rd.isLt
  simp only [BitVec.getLsbD_and, BitVec.getLsbD_not, show decide (15 < 16) = true from rfl,
    Bool.true_and]
  rw [getLsbD_fifteen, getLsbD_fifteen, BitVec.toNat_add, Bool.eq_iff_iff]
  simp only [Bool.and_eq_true, Bool.not_eq_eq_eq_not, Bool.not_true, decide_eq_true_eq,
    decide_eq_false_iff_not]
  omega

theorem adiw_overflow : ((Rd + K) &&& ~~~Rd).getLsbD 15 = decide (2 ^ 15 ≤ Rd.toInt + K.toNat) := by
  have := Rd.isLt
  simp only [BitVec.getLsbD_and, BitVec.getLsbD_not, show decide (15 < 16) = true from rfl,
    Bool.true_and]
  rw [getLsbD_fifteen, getLsbD_fifteen, BitVec.toNat_add, Bool.eq_iff_iff, toInt_word]
  simp only [Bool.and_eq_true, Bool.not_eq_eq_eq_not, Bool.not_true, decide_eq_true_eq,
    decide_eq_false_iff_not]
  split_ifs <;> omega

theorem sbiw_borrow : ((Rd - K) &&& ~~~Rd).getLsbD 15 = decide (Rd.toNat < K.toNat) := by
  have := Rd.isLt
  simp only [BitVec.getLsbD_and, BitVec.getLsbD_not, show decide (15 < 16) = true from rfl,
    Bool.true_and]
  rw [getLsbD_fifteen, getLsbD_fifteen, BitVec.toNat_sub, Bool.eq_iff_iff]
  simp only [Bool.and_eq_true, Bool.not_eq_eq_eq_not, Bool.not_true, decide_eq_true_eq,
    decide_eq_false_iff_not]
  omega

end Imm

theorem wordFlags_flags (s : BitVec 8) (c v : Bool) (R : BitVec 16) :
    flag (wordFlags s c v R) C = c ∧ flag (wordFlags s c v R) Z = (R == 0) ∧
      flag (wordFlags s c v R) N = R.getLsbD 15 ∧ flag (wordFlags s c v R) V = v := by
  simp [wordFlags, flag_setFlag_same, flag_setFlag_ne, C, Z, N, V, S]

/-! ## Products -/

theorem toInt_byte_bounds (a : BitVec 8) : -128 ≤ a.toInt ∧ a.toInt < 128 := by
  rw [toInt_byte]; have := a.isLt
  split_ifs <;> omega

/-- `Int.bmod` by `2^16` keeps what `int16_t` holds. -/
theorem bmod_word {x : Int} (h1 : -2 ^ 15 ≤ x) (h2 : x < 2 ^ 15) : x.bmod (2 ^ 16) = x := by
  rw [Int.bmod_def]
  split_ifs <;> omega

/-- Doubling a value of `[-2^14, 2^14]` overflows `int16_t` only at `2^14`. -/
theorem bmod_double {x : Int} (h1 : -2 ^ 14 ≤ x) (h2 : x ≤ 2 ^ 14) :
    (2 * x).bmod (2 ^ 16) = if x = 2 ^ 14 then -2 ^ 15 else 2 * x := by
  rw [Int.bmod_def]
  split_ifs <;> omega

theorem toNat_zext (a : BitVec 8) : (a.zeroExtend 16).toNat = a.toNat := by
  rw [BitVec.toNat_setWidth, Nat.mod_eq_of_lt (by have := a.isLt; omega)]

theorem toInt_zext (a : BitVec 8) : (a.zeroExtend 16).toInt = a.toNat := by
  rw [toInt_word, toNat_zext, if_pos (by have := a.isLt; omega)]

theorem toInt_s16 (a : BitVec 8) : (s16 a).toInt = a.toInt := by
  rw [s16, BitVec.signExtend, BitVec.toInt_ofInt]
  have := toInt_byte_bounds a
  exact bmod_word (by omega) (by omega)

/-- MUL's product fits in the word. -/
theorem toNat_zext_mul (a b : BitVec 8) :
    (a.zeroExtend 16 * b.zeroExtend 16).toNat = a.toNat * b.toNat := by
  rw [BitVec.toNat_mul, toNat_zext, toNat_zext, Nat.mod_eq_of_lt (Nat.mul_lt_mul'' a.isLt b.isLt)]

/-- MULS's product fits in the word, read signed. -/
theorem toInt_s16_mul (a b : BitVec 8) : (s16 a * s16 b).toInt = a.toInt * b.toInt := by
  obtain ⟨ha1, ha2⟩ := toInt_byte_bounds a
  obtain ⟨hb1, hb2⟩ := toInt_byte_bounds b
  rw [BitVec.toInt_mul, toInt_s16, toInt_s16]
  exact bmod_word (by nlinarith) (by nlinarith)

/-- MULSU's product fits in the word, read signed. -/
theorem toInt_s16_mul_zext (a b : BitVec 8) :
    (s16 a * b.zeroExtend 16).toInt = a.toInt * b.toNat := by
  obtain ⟨ha1, ha2⟩ := toInt_byte_bounds a
  have hb : (b.toNat : Int) < 256 := by have := b.isLt; omega
  rw [BitVec.toInt_mul, toInt_s16, toInt_zext]
  exact bmod_word (by nlinarith) (by nlinarith)

/-- The shift of FMUL and FMULS: the bit shifted out and the word left make twice the word. -/
theorem shiftLeft_one_carry (R : BitVec 16) :
    2 ^ 16 * (R.getLsbD 15).toNat + (R <<< 1).toNat = 2 * R.toNat := by
  rw [getLsbD_fifteen, BitVec.toNat_shiftLeft, Nat.shiftLeft_eq]
  have := R.isLt
  by_cases h : 2 ^ 15 ≤ R.toNat <;> simp only [h, decide_True, decide_False, Bool.toNat_true,
    Bool.toNat_false] <;> omega

theorem toInt_shiftLeft_one (R : BitVec 16) : (R <<< 1).toInt = (2 * R.toInt).bmod (2 ^ 16) := by
  rw [toInt_word, toInt_word, BitVec.toNat_shiftLeft, Nat.shiftLeft_eq, Int.bmod_def]
  have := R.isLt
  split_ifs <;> omega

theorem mulFlags_flags (s : BitVec 8) (c16 R : BitVec 16) :
    flag (mulFlags s c16 R) C = c16.getLsbD 15 ∧ flag (mulFlags s c16 R) Z = (R == 0) := by
  simp [mulFlags, flag_setFlag_same, flag_setFlag_ne, C, Z]

namespace Device

theorem execute_adiw (d : Device) (rd : Fin 32) (K : BitVec 16) :
    ∃ d', d.execute (.adiw rd K) = some (d', 1) ∧ d'.getPair rd = d.getPair rd + K ∧
      d'.cpu.sreg = wordFlags d.cpu.sreg ((~~~(d.getPair rd + K) &&& d.getPair rd).getLsbD 15)
        (((d.getPair rd + K) &&& ~~~d.getPair rd).getLsbD 15) (d.getPair rd + K) :=
  ⟨_, rfl, getPair_setPair _ _ _, rfl⟩

theorem execute_sbiw (d : Device) (rd : Fin 32) (K : BitVec 16) :
    ∃ d', d.execute (.sbiw rd K) = some (d', 1) ∧ d'.getPair rd = d.getPair rd - K ∧
      d'.cpu.sreg = wordFlags d.cpu.sreg (((d.getPair rd - K) &&& ~~~d.getPair rd).getLsbD 15)
        (((d.getPair rd - K) &&& ~~~d.getPair rd).getLsbD 15) (d.getPair rd - K) :=
  ⟨_, rfl, getPair_setPair _ _ _, rfl⟩

/-- **ADIW and SBIW.** For every state, register pair and immediate `K < 64`: ADIW leaves
`Rd + K` mod `2^16` in the pair, `C` the carry out and `V` the signed overflow; SBIW leaves
`Rd - K` mod `2^16`, `C` the borrow, and `V` equal to `C`. Both set `Z` and `N` from the
result. -/
theorem adiw_sbiw_words (d : Device) (rd : Fin 32) {K : BitVec 16} (hK : K.toNat < 64) :
    (∃ d', d.execute (.adiw rd K) = some (d', 1) ∧
      (d'.getPair rd).toNat = ((d.getPair rd).toNat + K.toNat) % 2 ^ 16 ∧
      flag d'.cpu.sreg C = decide (2 ^ 16 ≤ (d.getPair rd).toNat + K.toNat) ∧
      flag d'.cpu.sreg V = decide (2 ^ 15 ≤ (d.getPair rd).toInt + K.toNat) ∧
      flag d'.cpu.sreg Z = (d'.getPair rd == 0) ∧
      flag d'.cpu.sreg N = (d'.getPair rd).getLsbD 15) ∧
    (∃ d', d.execute (.sbiw rd K) = some (d', 1) ∧
      (d'.getPair rd).toNat = ((d.getPair rd).toNat + 2 ^ 16 - K.toNat) % 2 ^ 16 ∧
      flag d'.cpu.sreg C = decide ((d.getPair rd).toNat < K.toNat) ∧
      flag d'.cpu.sreg V = flag d'.cpu.sreg C ∧
      flag d'.cpu.sreg Z = (d'.getPair rd == 0) ∧
      flag d'.cpu.sreg N = (d'.getPair rd).getLsbD 15) := by
  obtain ⟨a, ha, har, has⟩ := execute_adiw d rd K
  obtain ⟨s, hs, hsr, hss⟩ := execute_sbiw d rd K
  refine ⟨⟨a, ha, ?_, ?_, ?_, ?_, ?_⟩, ⟨s, hs, ?_, ?_, ?_, ?_, ?_⟩⟩ <;>
    simp only [har, has, hsr, hss, wordFlags_flags]
  · exact BitVec.toNat_add _ _
  · exact adiw_carry _ _ hK
  · exact adiw_overflow _ _ hK
  · rw [BitVec.toNat_sub]; omega
  · exact sbiw_borrow _ _ hK

/-- What every multiplication branch leaves: the word in `r1:r0` and `mulFlags` over it. -/
theorem mul_result (d : Device) (c16 R : BitVec 16) :
    (((d.setPair 0 R).modifySreg fun s => mulFlags s c16 R).advance 1).getPair 0 = R ∧
      flag (((d.setPair 0 R).modifySreg fun s => mulFlags s c16 R).advance 1).cpu.sreg C =
        c16.getLsbD 15 ∧
      flag (((d.setPair 0 R).modifySreg fun s => mulFlags s c16 R).advance 1).cpu.sreg Z =
        (R == 0) :=
  ⟨getPair_setPair _ _ _, mulFlags_flags _ _ _⟩

/-- **The multiplications.** For every state and registers: MUL leaves the product of the
unsigned bytes in `r1:r0`, MULS that of the signed bytes and MULSU that of a signed by an
unsigned byte, each exact, with `C` bit 15 of the product. FMUL leaves twice the unsigned
product, its bit 16 in `C`; FMULS twice the signed product, except that `-128 × -128` reads back
as `-32768`, with `C` the sign of the product. Each sets `Z` from the word it writes. -/
theorem multiply_products (d : Device) (rd rr : Fin 32) :
    (∃ d', d.execute (.mul rd rr) = some (d', 2) ∧
      (d'.getPair 0).toNat = (d.regfile rd).toNat * (d.regfile rr).toNat ∧
      flag d'.cpu.sreg C = decide (2 ^ 15 ≤ (d.regfile rd).toNat * (d.regfile rr).toNat) ∧
      flag d'.cpu.sreg Z = (d'.getPair 0 == 0)) ∧
    (∃ d', d.execute (.muls rd rr) = some (d', 2) ∧
      (d'.getPair 0).toInt = (d.regfile rd).toInt * (d.regfile rr).toInt ∧
      flag d'.cpu.sreg C = decide ((d.regfile rd).toInt * (d.regfile rr).toInt < 0) ∧
      flag d'.cpu.sreg Z = (d'.getPair 0 == 0)) ∧
    (∃ d', d.execute (.mulsu rd rr) = some (d', 2) ∧
      (d'.getPair 0).toInt = (d.regfile rd).toInt * (d.regfile rr).toNat ∧
      flag d'.cpu.sreg C = decide ((d.regfile rd).toInt * (d.regfile rr).toNat < 0) ∧
      flag d'.cpu.sreg Z = (d'.getPair 0 == 0)) ∧
    (∃ d', d.execute (.fmul rd rr) = some (d', 2) ∧
      2 ^ 16 * (flag d'.cpu.sreg C).toNat + (d'.getPair 0).toNat =
        2 * ((d.regfile rd).toNat * (d.regfile rr).toNat) ∧
      flag d'.cpu.sreg Z = (d'.getPair 0 == 0)) ∧
    (∃ d', d.execute (.fmuls rd rr) = some (d', 2) ∧
      (d'.getPair 0).toInt = (if (d.regfile rd).toInt * (d.regfile rr).toInt = 2 ^ 14 then -2 ^ 15
        else 2 * ((d.regfile rd).toInt * (d.regfile rr).toInt)) ∧
      flag d'.cpu.sreg C = decide ((d.regfile rd).toInt * (d.regfile rr).toInt < 0) ∧
      flag d'.cpu.sreg Z = (d'.getPair 0 == 0)) := by
  refine ⟨⟨_, rfl, ?_⟩, ⟨_, rfl, ?_⟩, ⟨_, rfl, ?_⟩, ⟨_, rfl, ?_⟩, ⟨_, rfl, ?_⟩⟩ <;>
    simp only [mul_result, and_true]
  · exact ⟨toNat_zext_mul _ _, by rw [getLsbD_fifteen, toNat_zext_mul]⟩
  · exact ⟨toInt_s16_mul _ _, by rw [getLsbD_fifteen_eq_neg, toInt_s16_mul]⟩
  · exact ⟨toInt_s16_mul_zext _ _, by rw [getLsbD_fifteen_eq_neg, toInt_s16_mul_zext]⟩
  · rw [shiftLeft_one_carry, toNat_zext_mul]
  · obtain ⟨ha1, ha2⟩ := toInt_byte_bounds (d.regfile rd)
    obtain ⟨hb1, hb2⟩ := toInt_byte_bounds (d.regfile rr)
    rw [toInt_shiftLeft_one, getLsbD_fifteen_eq_neg, toInt_s16_mul]
    exact ⟨bmod_double (by nlinarith) (by nlinarith), rfl⟩

end Device

end Megumi
