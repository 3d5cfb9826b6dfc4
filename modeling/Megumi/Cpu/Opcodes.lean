import Megumi.Cpu.Execute

/-!
# Two-word opcodes, skips, and the FMULSU test

`executeNextInstruction` (`src/device.cpp`) decodes an opcode by a chain of
`(opcode & mask) == value` tests. Four branches read `flash_data_[cpu_.pc_ + 1]` as an operand:
LDS, STS, JMP and CALL. The skips (CPSE, SBRC, SBRS, SBIC, SBIS) do not decode the word they
skip; they ask `opcode_is_32b` whether it starts such an instruction. Its test,
`(opcode & 0xFE0C) == 0x940C || (opcode & 0xFC0F) == 0x9000`, holds exactly of the opcodes the
chain sends to one of the four branches (`opcodeIs32b_eq_isTwoWord`), so a taken skip lands
on the instruction after the one it skips (`skip_passes_next`).

The FMULSU test repeats the FMULS test, `(opcode & 0xFF88) == 0x0380`, so no opcode reaches its
branch, and an FMULSU opcode `0000 0011 1ddd 1rrr` falls through every test to the unknown
opcode (`fmulsu_runs_as_unknown`).

A test `(op & M) == V` is decided by a known `(op & A) == B` when `A & M` has a bit where `B` and
`V` differ (`and_ne_of_and_eq`): that is how the lemmas below walk the chain.
-/

namespace Megumi

/-! ## Masks -/

section Masks
variable {w : Nat} {op A B M V : BitVec w}

/-- `op & M` is not `V` when `op & A = B` fixes a bit of `M` to the other value. -/
theorem and_ne_of_and_eq (h : op &&& A = B) (hd : (B ^^^ V) &&& (A &&& M) ≠ 0) :
    op &&& M ≠ V := by
  rintro rfl
  subst h
  apply hd
  ext i
  simp only [BitVec.getLsbD_and, BitVec.getLsbD_xor]
  cases op.getLsbD i <;> cases A.getLsbD i <;> cases M.getLsbD i <;> simp

theorem ne_of_and_eq (h : op &&& A = B) (hd : V &&& A ≠ B) : op ≠ V := by
  rintro rfl
  exact hd h

/-- A mask inside `A` reads what `op & A = B` says. -/
theorem and_eq_of_and_eq (h : op &&& A = B) (hM : A &&& M = M) : op &&& M = B &&& M := by
  rw [← h, BitVec.and_assoc, hM]

/-- Widening a mask by bit `i` adds bit `i` of `op` to what it reads. -/
theorem and_or_twoPow_of_and_eq (h : op &&& A = B) (i : Nat) :
    op &&& (A ||| BitVec.twoPow w i) = B ||| (if op.getLsbD i then BitVec.twoPow w i else 0#w) := by
  rw [← h, ← BitVec.and_twoPow]
  ext j
  simp only [BitVec.getLsbD_and, BitVec.getLsbD_or, Bool.and_or_distrib_left]

end Masks

/-! ## The branches of the chain -/

namespace Instr

/-- The branches that read `flash_data_[cpu_.pc_ + 1]`: LDS, STS, JMP and CALL. -/
def isTwoWord : Instr → Bool
  | .lds _ | .sts _ | .jmp _ | .call _ => true
  | _ => false

/-- The words of flash an instruction takes, as the decoder reads them. -/
def words (i : Instr) : Nat := if i.isTwoWord then 2 else 1

/-- The skip branches: SBRC/SBRS, SBIC/SBIS and CPSE. -/
def isSkip : Instr → Bool
  | .sbr .. | .sbis .. | .cpse .. => true
  | _ => false

end Instr

open Decode

/-- The chain's tests before JMP's fail where `(op & 0xFE0E) == 0x940C`. -/
theorem decode_jmp {op : BitVec 16} (h : op &&& 0xFE0E = 0x940C) : decode op = .jmp (k22 op) := by
  simp (disch := first
    | (refine and_ne_of_and_eq h ?_; decide)
    | (refine ne_of_and_eq h ?_; decide)
    | (refine not_or.2 ⟨ne_of_and_eq h ?_, ne_of_and_eq h ?_⟩ <;> decide)) only
    [decode, if_neg, if_pos h]

theorem decode_call {op : BitVec 16} (h : op &&& 0xFE0E = 0x940E) :
    decode op = .call (k22 op) := by
  simp (disch := first
    | (refine and_ne_of_and_eq h ?_; decide)
    | (refine ne_of_and_eq h ?_; decide)
    | (refine not_or.2 ⟨ne_of_and_eq h ?_, ne_of_and_eq h ?_⟩ <;> decide)) only
    [decode, if_neg, if_pos h]

theorem decode_lds {op : BitVec 16} (h : op &&& 0xFE0F = 0x9000) : decode op = .lds (d5 op) := by
  simp (disch := first
    | (refine and_ne_of_and_eq h ?_; decide)
    | (refine ne_of_and_eq h ?_; decide)) only
    [decode, if_neg, if_pos h]

theorem decode_sts {op : BitVec 16} (h : op &&& 0xFE0F = 0x9200) : decode op = .sts (d5 op) := by
  simp (disch := first
    | (refine and_ne_of_and_eq h ?_; decide)
    | (refine ne_of_and_eq h ?_; decide)) only
    [decode, if_neg, if_pos h]

/-- The opcodes sent to a two-word branch pass its test. -/
theorem decode_isTwoWord {op : BitVec 16} (h : (decode op).isTwoWord = true) :
    op &&& 0xFE0E = 0x940C ∨ op &&& 0xFE0E = 0x940E ∨ op &&& 0xFE0F = 0x9000 ∨
      op &&& 0xFE0F = 0x9200 := by
  by_contra hn
  simp only [not_or] at hn
  obtain ⟨hj, hc, hl, hs⟩ := hn
  -- with the four tests failing, every branch the chain can take is a one-word branch
  simp only [decode, apply_ite Instr.isTwoWord] at h
  simp only [Instr.isTwoWord, hj, hc, hl, hs, if_false, ite_self, Bool.false_eq_true] at h

/-- **`opcode_is_32b` agrees with the decoder.** For every opcode, `opcode_is_32b` holds exactly
when the chain of `executeNextInstruction` sends the opcode to LDS, STS, JMP or CALL. -/
theorem opcodeIs32b_eq_isTwoWord (op : BitVec 16) : opcodeIs32b op = (decode op).isTwoWord := by
  rw [Bool.eq_iff_iff]
  simp only [opcodeIs32b, Bool.or_eq_true, decide_eq_true_eq]
  constructor
  · rintro (h | h)
    · -- bit 1 tells JMP from CALL
      have e := and_or_twoPow_of_and_eq h 1
      rw [show (0xFE0C : BitVec 16) ||| BitVec.twoPow 16 1 = 0xFE0E by decide] at e
      cases hb : op.getLsbD 1 <;> rw [hb] at e
      · rw [decode_jmp (e.trans (by decide))]; rfl
      · rw [decode_call (e.trans (by decide))]; rfl
    · -- bit 9 tells LDS from STS
      have e := and_or_twoPow_of_and_eq h 9
      rw [show (0xFC0F : BitVec 16) ||| BitVec.twoPow 16 9 = 0xFE0F by decide] at e
      cases hb : op.getLsbD 9 <;> rw [hb] at e
      · rw [decode_lds (e.trans (by decide))]; rfl
      · rw [decode_sts (e.trans (by decide))]; rfl
  · intro h
    rcases decode_isTwoWord h with h | h | h | h
    · exact .inl ((and_eq_of_and_eq h (by decide)).trans (by decide))
    · exact .inl ((and_eq_of_and_eq h (by decide)).trans (by decide))
    · exact .inr ((and_eq_of_and_eq h (by decide)).trans (by decide))
    · exact .inr ((and_eq_of_and_eq h (by decide)).trans (by decide))

/-- An FMULSU opcode fails every test of the chain. -/
theorem decode_fmulsu {op : BitVec 16} (h : op &&& 0xFF88 = 0x0388) : decode op = .unknown := by
  simp (disch := first
    | (refine and_ne_of_and_eq h ?_; decide)
    | (refine ne_of_and_eq h ?_; decide)
    | (refine not_or.2 ⟨ne_of_and_eq h ?_, ne_of_and_eq h ?_⟩ <;> decide)) only [decode, if_neg]

/-- The FMULSU branch is reached only when the FMULS test, the same test, has failed. -/
theorem decode_ne_fmulsu (op : BitVec 16) (r s : Fin 32) : decode op ≠ .fmulsu r s := by
  intro e
  simp only [decode, ite_eq_iff, reduceCtorEq, and_false, false_or, or_false] at e
  -- the twenty-three tests before FMULS fail, FMULS's fails, then FMULSU's holds
  obtain ⟨-, -, -, -, -, -, -, -, -, -, -, -, -, -, -, -, -, -, -, -, -, -, -, hfmuls, hfmulsu, -⟩ := e
  exact hfmuls hfmulsu

namespace Device

/-- A taken skip moves past the word after it and, when that word starts a two-word
instruction, past its second word too. -/
theorem skip_pc {d d' : Device} {long short c : Nat} (h : d.skip long short = some (d', c)) :
    ∃ op2, d.flashAt (d.cpu.pc + 1).toNat = some op2 ∧
      d'.cpu.pc = d.cpu.pc + 1 + BitVec.ofNat 32 (decode op2).words := by
  obtain ⟨op2, hop, he⟩ := Option.map_eq_some'.1 h
  refine ⟨op2, hop, ?_⟩
  rw [opcodeIs32b_eq_isTwoWord] at he
  unfold Instr.words
  split at he <;> rename_i hw <;> cases he
  · rw [if_pos hw, BitVec.add_assoc]; rfl
  · rw [if_neg hw, BitVec.add_assoc]; rfl

/-- The shape of the skip branches: a test, then a skip when it holds and the next word when it
fails. -/
theorem skip_or_next {d d' : Device} {p : Prop} [Decidable p] {long short c : Nat}
    (h : (if p then d.skip long short else some (d.advance 1, 1)) = some (d', c)) :
    (p → ∃ op2, d.flashAt (d.cpu.pc + 1).toNat = some op2 ∧
      d'.cpu.pc = d.cpu.pc + 1 + BitVec.ofNat 32 (decode op2).words) ∧
    (¬p → d'.cpu.pc = d.cpu.pc + 1 ∧ c = 1) := by
  split at h
  case isTrue hp => exact ⟨fun _ => skip_pc h, fun hn => absurd hp hn⟩
  case isFalse hp =>
    cases h
    exact ⟨fun h => absurd h hp, fun _ => ⟨rfl, rfl⟩⟩

/-- The test of a skip branch: the bit of `Rr` (SBRC, SBRS) or of the I/O register (SBIC, SBIS)
against the value that skips, or `Rd = Rr` (CPSE). -/
def skipTest (d : Device) : Instr → Bool
  | .sbr r b set => flag (d.regfile r) b == set
  | .sbis a b set => flag (d.getIoMem a) b == set
  | .cpse rd rr => decide (d.regfile rd = d.regfile rr)
  | _ => false

/-- **A skip passes one whole instruction.** From every state, SBRC, SBRS, SBIC, SBIS and CPSE
go on to the next word in one cycle when their test fails, and when it holds pass the
instruction there: one word, or two when the decoder reads that word as LDS, STS, JMP or CALL.
A skip never lands on the second word of a two-word instruction. -/
theorem skip_passes_next {d d' : Device} {i : Instr} {c : Nat} (hi : i.isSkip = true)
    (h : d.execute i = some (d', c)) :
    (d.skipTest i = true → ∃ op2, d.flashAt (d.cpu.pc + 1).toNat = some op2 ∧
      d'.cpu.pc = d.cpu.pc + 1 + BitVec.ofNat 32 (decode op2).words) ∧
    (d.skipTest i = false → d'.cpu.pc = d.cpu.pc + 1 ∧ c = 1) := by
  cases i <;> simp only [Instr.isSkip, Bool.false_eq_true] at hi <;>
    simpa only [skipTest, ← Bool.not_eq_true, decide_eq_true_eq] using skip_or_next h

/-- **FMULSU runs as an unknown opcode.** No opcode reaches the FMULSU branch, and an FMULSU
opcode `0000 0011 1ddd 1rrr` at the PC runs the unknown-opcode branch: the PC moves one word in
one cycle and nothing else changes, where the instruction should multiply. -/
theorem fmulsu_runs_as_unknown (d : Device) (op : BitVec 16)
    (hop : d.flashAt d.cpu.pc.toNat = some op) (h : op &&& 0xFF88 = 0x0388) :
    (∀ op' r s, decode op' ≠ .fmulsu r s) ∧ d.executeNextInstruction = some (d.advance 1, 1) :=
  ⟨decode_ne_fmulsu, by rw [executeNextInstruction, hop, Option.some_bind, decode_fmulsu h]; rfl⟩

end Device

end Megumi
