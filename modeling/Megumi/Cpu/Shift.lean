import Megumi.Cpu.Chain
import Megumi.Cpu.Pointer

/-!
# Multi-byte shifts right: LSR or ASR, then ROR

A number of `n` bytes lives in `n` registers, low byte first. Compilers halve it with LSR
(unsigned) or ASR (signed) on the top byte, then ROR on each byte below it, top down: each
branch of `Device::executeNextInstruction` (`src/device.cpp`) shifts its register right by one,
ROR brings the `C` flag into bit 7, and all three put bit 0 of the register into `C`.

`shrBytes` is what the chain does to the bytes, read as a list (the top byte through `top`, each
byte below it taking bit 0 of the byte above); `run_shrChain` shows the instructions compute it,
by induction on the registers. On its own, `shrBytes` halves the number: `uval_shrBytes_lsr`
for LSR and `sval_shrBytes_asr`, with the floor of the two's-complement value, for ASR.
-/

namespace Megumi

open Sreg

/-! ## One byte -/

/-- ASR's result: `(Rd >> 1) | (Rd & 0x80)`. -/
def asrByte (x : BitVec 8) : BitVec 8 := (x >>> 1) ||| (x &&& 0x80)

/-- ROR's result: `(Rd >> 1) | (C << 7)`. -/
def rorByte (x : BitVec 8) (c : Bool) : BitVec 8 := (x >>> 1) ||| (bit c <<< 7)

theorem toNat_flag_zero (x : BitVec 8) : (flag x 0).toNat = x.toNat % 2 := by
  rw [flag, BitVec.getLsbD, Nat.testBit_to_div_mod, Nat.pow_zero, Nat.div_one]
  rcases Nat.mod_two_eq_zero_or_one x.toNat with h | h <;> simp [h]

theorem toNat_ushiftRight_one_byte (x : BitVec 8) : (x >>> 1).toNat = x.toNat / 2 := by
  rw [BitVec.toNat_ushiftRight, Nat.shiftRight_eq_div_pow, Nat.pow_one]

/-- Setting bit 7 above a value below `2 ^ 7` adds `2 ^ 7`. -/
theorem toNat_or_0x80 {y : BitVec 8} (hy : y.toNat < 2 ^ 7) : (y ||| 0x80).toNat = y.toNat + 128 := by
  rw [BitVec.toNat_or, Nat.or_comm, show (0x80 : BitVec 8).toNat = 2 ^ 7 * 1 from rfl,
    ← Nat.mul_add_lt_is_or hy]
  omega

theorem toNat_rorByte (x : BitVec 8) (c : Bool) :
    (rorByte x c).toNat = (c.toNat * 256 + x.toNat) / 2 := by
  have hy : (x >>> 1).toNat < 2 ^ 7 := by rw [toNat_ushiftRight_one_byte]; omega
  cases c
  · rw [rorByte, show bit false <<< 7 = 0#8 from rfl, BitVec.or_zero, toNat_ushiftRight_one_byte,
      Bool.toNat_false]
    omega
  · rw [rorByte, show bit true <<< 7 = 0x80 from rfl, toNat_or_0x80 hy, toNat_ushiftRight_one_byte,
      Bool.toNat_true]
    omega

/-- ASR halves the signed byte, rounding down. -/
theorem toInt_asrByte (x : BitVec 8) : (asrByte x).toInt = x.toInt / 2 := by
  have hy : (x >>> 1).toNat < 2 ^ 7 := by rw [toNat_ushiftRight_one_byte]; omega
  have hx := x.isLt
  have hand : x &&& 0x80 = if x.getLsbD 7 then 0x80 else 0#8 := by
    rw [show (0x80 : BitVec 8) = BitVec.twoPow 8 7 from rfl, BitVec.and_twoPow]
  have h7 : x.getLsbD 7 = decide (128 ≤ x.toNat) := by
    rw [BitVec.getLsbD, Nat.testBit_to_div_mod, decide_eq_decide]; omega
  rw [BitVec.toInt_eq_toNat_cond, BitVec.toInt_eq_toNat_cond, asrByte, hand, h7]
  by_cases hx7 : 128 ≤ x.toNat
  · rw [decide_eq_true hx7, if_pos rfl, toNat_or_0x80 hy, toNat_ushiftRight_one_byte]; omega
  · rw [decide_eq_false hx7, if_neg Bool.false_ne_true, BitVec.or_zero, toNat_ushiftRight_one_byte]
    omega

/-! ## The bytes -/

/-- The bytes after the chain, low byte first: the top byte through `top`, and each byte below
it shifted right with bit 0 of the byte above it in bit 7. -/
def shrBytes (top : BitVec 8 → BitVec 8) : List (BitVec 8) → List (BitVec 8)
  | [] => []
  | [b] => [top b]
  | b :: b' :: bs => rorByte b (flag b' 0) :: shrBytes top (b' :: bs)

theorem uval_mod_two (b : BitVec 8) (bs : List (BitVec 8)) : uval (b :: bs) % 2 = b.toNat % 2 := by
  rw [uval]; omega

theorem sval_emod_two : ∀ (b : BitVec 8) (bs : List (BitVec 8)),
    sval (b :: bs) % 2 = (b.toNat % 2 : Nat)
  | b, [] => by
    have := b.isLt
    rw [sval, BitVec.toInt_eq_toNat_cond]; split <;> omega
  | b, b' :: bs => by rw [sval_cons_cons]; omega

/-- LSR then ROR halves the unsigned number. -/
theorem uval_shrBytes_lsr : ∀ bs : List (BitVec 8),
    uval (shrBytes (· >>> 1) bs) = uval bs / 2
  | [] => rfl
  | [b] => by simp only [shrBytes, uval, toNat_ushiftRight_one_byte]; omega
  | b :: b' :: bs => by
    have ih := uval_shrBytes_lsr (b' :: bs)
    have hc := uval_mod_two b' bs
    have hv : uval (b :: b' :: bs) = b.toNat + 256 * uval (b' :: bs) := rfl
    rw [shrBytes, uval, ih, toNat_rorByte, toNat_flag_zero, hv]
    omega

/-- ASR then ROR halves the two's-complement number, rounding down. -/
theorem sval_shrBytes_asr : ∀ bs : List (BitVec 8),
    sval (shrBytes asrByte bs) = sval bs / 2
  | [] => rfl
  | [b] => toInt_asrByte b
  | b :: b' :: bs => by
    have ih := sval_shrBytes_asr (b' :: bs)
    have hc := sval_emod_two b' bs
    have hne : shrBytes asrByte (b' :: bs) ≠ [] := by cases bs <;> simp [shrBytes]
    obtain ⟨y, ys, hy⟩ := List.exists_cons_of_ne_nil hne
    rw [shrBytes, hy, sval_cons_cons, ← hy, ih, toNat_rorByte, toNat_flag_zero,
      sval_cons_cons]
    omega

/-! ## The instructions -/

namespace Device

/-- The instruction writes `f Rd c` into `r`, with `c` the `C` flag before it, and bit 0 of `Rd`
into `C`; no other register changes. -/
def ShiftStep (i : Instr) (r : Fin 32) (f : BitVec 8 → Bool → BitVec 8) : Prop :=
  ∀ d : Device, ∃ d', d.execute i = some (d', 1) ∧
    d'.regfile = Function.update d.regfile r (f (d.regfile r) (flag d.cpu.sreg C)) ∧
    flag d'.cpu.sreg C = flag (d.regfile r) 0

theorem flag_shiftFlags_C (s Rd R : BitVec 8) (n : Bool) :
    flag (shiftFlags s Rd R n) C = flag Rd 0 := by
  unfold shiftFlags
  rw [flag_setFlag_ne _ (by decide), flag_setFlag_ne _ (by decide), flag_setFlag_ne _ (by decide),
    flag_setFlag_ne _ (by decide), flag_setFlag_same _ (by decide)]

theorem lsr_step (r : Fin 32) : ShiftStep (.lsr r) r fun x _ => x >>> 1 :=
  fun _ => ⟨_, rfl, rfl, flag_shiftFlags_C _ _ _ _⟩

theorem asr_step (r : Fin 32) : ShiftStep (.asr r) r fun x _ => asrByte x :=
  fun _ => ⟨_, rfl, rfl, flag_shiftFlags_C _ _ _ _⟩

theorem ror_step (r : Fin 32) : ShiftStep (.ror r) r rorByte :=
  fun _ => ⟨_, rfl, rfl, flag_shiftFlags_C _ _ _ _⟩

/-- `top` on the top register, then ROR on each register below it, top down; the registers are
listed low byte first. -/
def shrChain (top : Fin 32 → Instr) : List (Fin 32) → List Instr
  | [] => []
  | [r] => [top r]
  | r :: r' :: rs => shrChain top (r' :: rs) ++ [.ror r]

/-- The chain computes `shrBytes` on its registers, leaves bit 0 of the low byte in `C` and
every other register as it was. -/
theorem run_shrChain {top : Fin 32 → Instr} {f : BitVec 8 → BitVec 8}
    (htop : ∀ r, ShiftStep (top r) r fun x _ => f x) (rs : List (Fin 32)) :
    ∀ (r : Fin 32) (d : Device), (r :: rs).Nodup →
      ∃ d', d.runInstrs (shrChain top (r :: rs)) = some d' ∧
        (r :: rs).map d'.regfile = shrBytes f ((r :: rs).map d.regfile) ∧
        flag d'.cpu.sreg C = flag (d.regfile r) 0 ∧ ∀ j ∉ r :: rs, d'.regfile j = d.regfile j := by
  induction rs with
  | nil =>
    intro r d _
    obtain ⟨d', he, hreg, hc⟩ := htop r d
    refine ⟨d', by rw [shrChain, runInstrs, he]; rfl, ?_, hc, fun j hj => ?_⟩
    · rw [List.map_singleton, List.map_singleton, hreg, Function.update_same]; rfl
    · rw [hreg, Function.update_noteq (List.ne_of_not_mem_cons hj)]
  | cons r' rs ih =>
    intro r d hnd
    obtain ⟨hr, hnd⟩ := List.nodup_cons.1 hnd
    obtain ⟨d1, hrun, hmap, hc1, hframe⟩ := ih r' d hnd
    obtain ⟨d2, he, hreg, hc2⟩ := ror_step r d1
    have hr1 : d1.regfile r = d.regfile r := hframe r hr
    refine ⟨d2, ?_, ?_, by rw [hc2, hr1], fun j hj => ?_⟩
    · rw [shrChain, runInstrs_append, hrun, Option.some_bind, runInstrs, he]; rfl
    · have hkeep : (r' :: rs).map d2.regfile = (r' :: rs).map d1.regfile :=
        List.map_congr_left fun j hj => by
          rw [hreg, Function.update_noteq fun e => hr (by rw [← e]; exact hj)]
      rw [List.map_cons, hkeep, hmap, hreg, Function.update_same, hr1, hc1]
      rfl
    · rw [hreg, Function.update_noteq (List.ne_of_not_mem_cons hj),
        hframe j (List.not_mem_of_not_mem_cons hj)]

/-- **Multi-byte shifts right.** For `n ≥ 1` distinct registers `d0 … d(n-1)`, low byte first,
LSR `d(n-1)` then ROR `d(n-2)` … ROR `d0` leaves half the unsigned number, rounded down, with
its bit 0 in `C`; ASR in place of LSR leaves half the two's-complement number, rounded down,
with the same `C`. -/
theorem shrChain_halves (rs : List (Fin 32)) (hne : rs ≠ []) (hnd : rs.Nodup) (d : Device) :
    (∃ d', d.runInstrs (shrChain .lsr rs) = some d' ∧
      uval (rs.map d'.regfile) = uval (rs.map d.regfile) / 2 ∧
      (flag d'.cpu.sreg C).toNat = uval (rs.map d.regfile) % 2) ∧
    ∃ d', d.runInstrs (shrChain .asr rs) = some d' ∧
      sval (rs.map d'.regfile) = sval (rs.map d.regfile) / 2 ∧
      (flag d'.cpu.sreg C).toNat = uval (rs.map d.regfile) % 2 := by
  obtain ⟨r, rs, rfl⟩ := List.exists_cons_of_ne_nil hne
  have hC : (flag (d.regfile r) 0).toNat = uval ((r :: rs).map d.regfile) % 2 := by
    rw [toNat_flag_zero, List.map_cons, uval_mod_two]
  obtain ⟨d1, h1, m1, c1, -⟩ := run_shrChain lsr_step rs r d hnd
  obtain ⟨d2, h2, m2, c2, -⟩ := run_shrChain asr_step rs r d hnd
  exact ⟨⟨d1, h1, by rw [m1, uval_shrBytes_lsr], by rw [c1, hC]⟩,
    d2, h2, by rw [m2, sval_shrBytes_asr], by rw [c2, hC]⟩

/-- r25:r24 = `0x9A35`, negative as a signed word, on a reset device. -/
def shrDemo : Device :=
  (((create ⟨0x400, 0x40, 0x40, 0, 0x10, false⟩ .core false).reset).setReg 24 0x35).setReg 25 0x9A

theorem shrChain_halves_r25_r24 :
    (∃ d', shrDemo.runInstrs (shrChain .lsr [24, 25]) = some d' ∧
      uval ([24, 25].map d'.regfile) = uval ([24, 25].map shrDemo.regfile) / 2 ∧
      (flag d'.cpu.sreg C).toNat = uval ([24, 25].map shrDemo.regfile) % 2) ∧
    ∃ d', shrDemo.runInstrs (shrChain .asr [24, 25]) = some d' ∧
      sval ([24, 25].map d'.regfile) = sval ([24, 25].map shrDemo.regfile) / 2 ∧
      (flag d'.cpu.sreg C).toNat = uval ([24, 25].map shrDemo.regfile) % 2 :=
  shrChain_halves [24, 25] (by decide) (by decide) shrDemo

end Device

end Megumi
