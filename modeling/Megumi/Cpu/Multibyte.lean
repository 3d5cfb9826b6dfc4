import Megumi.Cpu.Chain

/-!
# Multi-byte subtract, compare and add

The chains `subChain_spec` and `addChain_spec` run, instantiated at the instructions a compiler
emits for numbers of `n` bytes in registers, low byte first: SUB or SUBI then SBC or SBCI,
CP or CPI then CPC, ADD then ADC. With no borrow or carry in, the chain's `R` is the result
modulo `256 ^ n` (`sub_mod`, `add_mod`).

CPC keeps `Z` only when it was set (`R == 0 && sreg_.Z`), so CP/CPC compares whole numbers.
SBC and SBCI set `Z = R == 0` from their own byte: after SUB/SBC, `Z` says that the top byte of
the difference is zero, not that the numbers are equal.
-/

namespace Megumi

open Sreg

namespace Device

/-- SUB or SUBI: the first byte of a subtraction. -/
def subFirst (rd : Fin 32) : Src → Instr
  | .reg r => .sub rd r
  | .imm K => .subi rd K

/-- SBC or SBCI: a later byte of a subtraction. -/
def sbcNext (rd : Fin 32) : Src → Instr
  | .reg r => .sbc rd r
  | .imm K => .sbci rd K

/-- CP or CPI: the first byte of a comparison. -/
def cpFirst (rd : Fin 32) : Src → Instr
  | .reg r => .cp rd r
  | .imm K => .cpi rd K

theorem subFirst_step (rd : Fin 32) (s : Src) :
    SubStep true (fun _ => false) (fun _ => true) ⟨subFirst rd s, rd, s⟩ := by
  cases s with
  | reg r => exact sub_step rd r
  | imm K => exact subi_step rd K

theorem sbcNext_step (rd : Fin 32) (s : Src) :
    SubStep true (fun d => flag d.cpu.sreg C) (fun _ => true) ⟨sbcNext rd s, rd, s⟩ := by
  cases s with
  | reg r => exact sbc_step rd r
  | imm K => exact sbci_step rd K

theorem cpFirst_step (rd : Fin 32) (s : Src) :
    SubStep false (fun _ => false) (fun _ => true) ⟨cpFirst rd s, rd, s⟩ := by
  cases s with
  | reg r => exact cp_step rd r
  | imm K => exact cpi_step rd K

/-- BRBS: the branch is taken when the bit is set. -/
theorem execute_brbs (d : Device) (s : Nat) (k : BitVec 8) :
    d.execute (.brb s k false) =
      some (if flag d.cpu.sreg s then (d.advance (k.signExtend 32 + 1), 2) else (d.advance 1, 1)) := by
  show (if flag d.cpu.sreg s ^^ false then _ else _) = _
  rw [Bool.xor_false]
  split <;> rfl

/-- With no borrow in, a subtraction chain's `R` is `a - b` modulo `256 ^ n`. -/
theorem sub_mod {A B n R : Nat} (hA : A < 256 ^ n) (hB : B < 256 ^ n)
    (h : (R : Int) = if (A : Int) - B < 0 then (A : Int) - B + 256 ^ n else (A : Int) - B) :
    R = (A + 256 ^ n - B) % 256 ^ n := by
  have hP : ((256 ^ n : Nat) : Int) = 256 ^ n := by norm_cast
  split_ifs at h with hlt
  · rw [Nat.mod_eq_of_lt (by omega)]; omega
  · rw [show A + 256 ^ n - B = A - B + 256 ^ n by omega, Nat.add_mod_right,
      Nat.mod_eq_of_lt (by omega)]
    omega

/-- With no carry in, an addition chain's `R` is `a + b` modulo `P`. -/
theorem add_mod {A B P R : Nat} (hA : A < P) (hB : B < P)
    (h : R = if P ≤ A + B then A + B - P else A + B) : R = (A + B) % P := by
  split_ifs at h with hle
  · rw [show A + B = A + B - P + P by omega, Nat.add_mod_right, Nat.mod_eq_of_lt (by omega)]
    exact h
  · rw [Nat.mod_eq_of_lt (by omega)]; exact h

/-- A reset device of 1 KiB of flash and 16 bytes of SRAM, with the register file `rf`. -/
def withRegs (rf : Fin 32 → BitVec 8) : Device :=
  { (create ⟨0x400, 0x40, 0x40, 0, 0x10, false⟩ .core false).reset with regfile := rf }

/-- CP (or CPI) then CPC, low byte first, on `a` in `rd` and the first registers of `ps` and `b`
in `src` and the second registers: no register changes, and the flags, and so BREQ, BRLO and
BRLT, compare the whole numbers. -/
theorem cp_cpc_compare (d : Device) (rd : Fin 32) (src : Src) (ps : List (Fin 32 × Fin 32)) :
    let as := d.regfile rd :: ps.map fun p => d.regfile p.1
    let bs := src.read d.regfile :: ps.map fun p => d.regfile p.2
    let P := 256 ^ (ps.length + 1)
    ∃ d', d.runInstrs (cpFirst rd src :: ps.map fun p => .cpc p.1 p.2) = some d' ∧
      d'.regfile = d.regfile ∧
      flag d'.cpu.sreg Z = decide (uval as = uval bs) ∧
      flag d'.cpu.sreg C = decide (uval as < uval bs) ∧
      flag d'.cpu.sreg N = decide (128 * 256 ^ ps.length ≤ (uval as + P - uval bs) % P) ∧
      flag d'.cpu.sreg V = decide ¬(-(128 * 256 ^ ps.length : Int) ≤ sval as - sval bs ∧
        sval as - sval bs < 128 * 256 ^ ps.length) ∧
      flag d'.cpu.sreg S = decide (sval as < sval bs) ∧
      ∀ k, d'.execute (.brb Z k false) = some (if uval as = uval bs
          then (d'.advance (k.signExtend 32 + 1), 2) else (d'.advance 1, 1)) ∧
        d'.execute (.brb C k false) = some (if uval as < uval bs
          then (d'.advance (k.signExtend 32 + 1), 2) else (d'.advance 1, 1)) ∧
        d'.execute (.brb S k false) = some (if sval as < sval bs
          then (d'.advance (k.signExtend 32 + 1), 2) else (d'.advance 1, 1)) := by
  dsimp only
  obtain ⟨d', R, hrun, hp⟩ := subChain_spec false true
    (ps.map fun p => ⟨.cpc p.1 p.2, p.1, .reg p.2⟩) ⟨cpFirst rd src, rd, src⟩ (fun _ => false)
    (fun _ => true) d (cpFirst_step rd src)
    (by simp only [List.mem_map]; rintro _ ⟨p, -, rfl⟩; exact cpc_step p.1 p.2) nofun
  simp only [List.map_cons, List.map_map, Function.comp_def, Src.read_reg, List.length_map,
    Bool.toNat_false, Nat.cast_zero, sub_zero] at hrun hp
  have hA := uval_lt (d.regfile rd :: ps.map fun p => d.regfile p.1)
  have hB := uval_lt (src.read d.regfile :: ps.map fun p => d.regfile p.2)
  simp only [List.length_cons, List.length_map] at hA hB
  have hR := sub_mod hA hB hp.value
  have hZ : flag d'.cpu.sreg Z = decide (uval (d.regfile rd :: ps.map fun p => d.regfile p.1) =
      uval (src.read d.regfile :: ps.map fun p => d.regfile p.2)) := by
    rw [hp.zero_chained rfl, Bool.true_and, decide_eq_decide]
    have hv := hp.value
    have hP : ((256 ^ (ps.length + 1) : Nat) : Int) = 256 ^ (ps.length + 1) := by norm_cast
    split_ifs at hv <;> omega
  have hC : flag d'.cpu.sreg C = decide (uval (d.regfile rd :: ps.map fun p => d.regfile p.1) <
      uval (src.read d.regfile :: ps.map fun p => d.regfile p.2)) := by
    rw [hp.carry, decide_eq_decide]; omega
  have hS : flag d'.cpu.sreg S = decide (sval (d.regfile rd :: ps.map fun p => d.regfile p.1) <
      sval (src.read d.regfile :: ps.map fun p => d.regfile p.2)) := by
    rw [hp.sign, decide_eq_decide]; omega
  refine ⟨d', hrun, funext fun j => hp.frame j nofun, hZ, hC, hR ▸ hp.neg, hp.overflow, hS,
    fun k => ⟨?_, ?_, ?_⟩⟩ <;>
  simp only [execute_brbs, hZ, hC, hS, decide_eq_true_eq]

/-- SUB (or SUBI) then SBC (or SBCI), low byte first, on `a` in the registers of `p0 :: ps` and
`b` in their operands: the destinations hold `a - b` modulo `256 ^ n`, and `C`, `N`, `V` and `S`
are the flags of the whole difference, but `Z` says only that the top byte of the difference is
zero. No byte reads or writes a register an earlier byte wrote. -/
theorem sub_sbc_difference (d : Device) (p0 : Fin 32 × Src) (ps : List (Fin 32 × Src))
    (hfresh : (p0 :: ps).Pairwise fun p q => q.1 ≠ p.1 ∧ q.2 ≠ .reg p.1) :
    let as := (p0 :: ps).map fun p => d.regfile p.1
    let bs := (p0 :: ps).map fun p => p.2.read d.regfile
    let P := 256 ^ (ps.length + 1)
    ∃ d', d.runInstrs (subFirst p0.1 p0.2 :: ps.map fun p => sbcNext p.1 p.2) = some d' ∧
      uval ((p0 :: ps).map fun p => d'.regfile p.1) = (uval as + P - uval bs) % P ∧
      flag d'.cpu.sreg C = decide (uval as < uval bs) ∧
      flag d'.cpu.sreg N = decide (128 * 256 ^ ps.length ≤ (uval as + P - uval bs) % P) ∧
      flag d'.cpu.sreg V = decide ¬(-(128 * 256 ^ ps.length : Int) ≤ sval as - sval bs ∧
        sval as - sval bs < 128 * 256 ^ ps.length) ∧
      flag d'.cpu.sreg S = decide (sval as < sval bs) ∧
      flag d'.cpu.sreg Z = decide ((uval as + P - uval bs) % P < 256 ^ ps.length) := by
  dsimp only
  rw [List.pairwise_cons] at hfresh
  obtain ⟨d', R, hrun, hp⟩ := subChain_spec true false
    (ps.map fun p => ⟨sbcNext p.1 p.2, p.1, p.2⟩) ⟨subFirst p0.1 p0.2, p0.1, p0.2⟩
    (fun _ => false) (fun _ => true) d (subFirst_step p0.1 p0.2)
    (by simp only [List.mem_map]; rintro _ ⟨p, -, rfl⟩; exact sbcNext_step p.1 p.2)
    fun _ => List.pairwise_cons.2 ⟨by
      simp only [List.mem_map]; rintro _ ⟨q, hq, rfl⟩; exact hfresh.1 q hq,
      List.pairwise_map.2 hfresh.2⟩
  simp only [List.map_cons, List.map_map, Function.comp_def, List.length_map,
    Bool.toNat_false, Nat.cast_zero, sub_zero] at hrun hp
  have hA := uval_lt (d.regfile p0.1 :: ps.map fun p => d.regfile p.1)
  have hB := uval_lt (p0.2.read d.regfile :: ps.map fun p => p.2.read d.regfile)
  simp only [List.length_cons, List.length_map] at hA hB
  have hR := sub_mod hA hB hp.value
  have hres := hp.result rfl
  simp only [List.map_cons, List.map_map, Function.comp_def] at hres ⊢
  refine ⟨d', hrun, hres.trans hR, ?_, hR ▸ hp.neg, hp.overflow, ?_, hR ▸ hp.zero_top rfl rfl⟩
  · rw [hp.carry, decide_eq_decide]; omega
  · rw [hp.sign, decide_eq_decide]; omega

/-- `r25:r24 -= r27:r26`, on `0x0100 - 0x0001`. -/
theorem sub_sbc_r25_r24 :
    let d := withRegs fun i => if i = 25 ∨ i = 26 then 0x01 else 0
    let p0 : Fin 32 × Src := (24, .reg 26)
    let ps : List (Fin 32 × Src) := [(25, .reg 27)]
    (p0 :: ps).Pairwise (fun p q => q.1 ≠ p.1 ∧ q.2 ≠ .reg p.1) ∧
    let as := (p0 :: ps).map fun p => d.regfile p.1
    let bs := (p0 :: ps).map fun p => p.2.read d.regfile
    let P := 256 ^ (ps.length + 1)
    ∃ d', d.runInstrs (subFirst p0.1 p0.2 :: ps.map fun p => sbcNext p.1 p.2) = some d' ∧
      uval ((p0 :: ps).map fun p => d'.regfile p.1) = (uval as + P - uval bs) % P ∧
      flag d'.cpu.sreg C = decide (uval as < uval bs) ∧
      flag d'.cpu.sreg N = decide (128 * 256 ^ ps.length ≤ (uval as + P - uval bs) % P) ∧
      flag d'.cpu.sreg V = decide ¬(-(128 * 256 ^ ps.length : Int) ≤ sval as - sval bs ∧
        sval as - sval bs < 128 * 256 ^ ps.length) ∧
      flag d'.cpu.sreg S = decide (sval as < sval bs) ∧
      flag d'.cpu.sreg Z = decide ((uval as + P - uval bs) % P < 256 ^ ps.length) :=
  ⟨by decide, sub_sbc_difference _ (24, .reg 26) [(25, .reg 27)] (by decide)⟩

/-- SUB then SBC on `a = 0x0100` in r25:r24 and `b = 0x0001` in r27:r26: the difference
`0x00FF` is not zero, and `Z` is set. -/
theorem sub_sbc_sets_zero_on_nonzero (d : Device) (h24 : d.regfile 24 = 0x00)
    (h25 : d.regfile 25 = 0x01) (h26 : d.regfile 26 = 0x01) (h27 : d.regfile 27 = 0x00) :
    ∃ d', d.runInstrs [.sub 24 26, .sbc 25 27] = some d' ∧
      uval [d'.regfile 24, d'.regfile 25] = 0xFF ∧ flag d'.cpu.sreg Z = true := by
  obtain ⟨d', R, hrun, hp⟩ := subChain_spec true false
    [⟨.sbc 25 27, 25, .reg 27⟩] ⟨.sub 24 26, 24, .reg 26⟩ (fun _ => false) (fun _ => true) d
    (sub_step 24 26) (by simp only [List.mem_singleton]; rintro _ rfl; exact sbc_step 25 27)
    fun _ => by unfold Fresh; decide
  simp only [List.map_cons, List.map_nil, Src.read_reg, h24, h25, h26, h27] at hrun hp
  have hv := hp.value
  have hR : R = 0xFF := by
    simp [uval] at hv
    omega
  refine ⟨d', hrun, hR ▸ hp.result rfl, ?_⟩
  rw [hp.zero_top rfl rfl, hR]
  rfl

/-- The registers of `sub_sbc_sets_zero_on_nonzero` in a reset device. -/
theorem sub_sbc_sets_zero_r25_r24 :
    let d := withRegs fun i => if i = 25 ∨ i = 26 then 0x01 else 0
    d.regfile 24 = 0x00 ∧ d.regfile 25 = 0x01 ∧ d.regfile 26 = 0x01 ∧ d.regfile 27 = 0x00 ∧
      ∃ d', d.runInstrs [.sub 24 26, .sbc 25 27] = some d' ∧
        uval [d'.regfile 24, d'.regfile 25] = 0xFF ∧ flag d'.cpu.sreg Z = true :=
  ⟨rfl, rfl, rfl, rfl, sub_sbc_sets_zero_on_nonzero _ rfl rfl rfl rfl⟩

/-- The chain bytes of an ADD/ADC chain write no register a later byte reads, when the
destinations are distinct and the sources are either no destination or each byte's own. -/
theorem add_fresh (p0 : Fin 32 × Fin 32) (ps : List (Fin 32 × Fin 32))
    (hdst : ((p0 :: ps).map Prod.fst).Nodup)
    (hsrc : (∀ p ∈ p0 :: ps, ∀ q ∈ p0 :: ps, p.2 ≠ q.1) ∨ ∀ p ∈ p0 :: ps, p.2 = p.1) :
    Fresh (⟨.add p0.1 p0.2, p0.1, .reg p0.2⟩ :: ps.map fun p => ⟨.adc p.1 p.2, p.1, .reg p.2⟩) := by
  have hpw : (p0 :: ps).Pairwise fun p q => q.1 ≠ p.1 ∧ q.2 ≠ p.1 :=
    (List.pairwise_map.1 hdst).imp_of_mem fun hp hq hne => ⟨Ne.symm hne, by
      rcases hsrc with h | h
      · exact h _ hq _ hp
      · rw [h _ hq]; exact Ne.symm hne⟩
  rw [List.pairwise_cons] at hpw
  refine List.pairwise_cons.2 ⟨?_, List.pairwise_map.2 (hpw.2.imp fun h =>
    ⟨h.1, fun e => h.2 (Src.reg.inj e)⟩)⟩
  simp only [List.mem_map]
  rintro _ ⟨q, hq, rfl⟩
  exact ⟨(hpw.1 q hq).1, fun e => (hpw.1 q hq).2 (Src.reg.inj e)⟩

/-- ADD then ADC, low byte first, on `a` in the first registers of `p0 :: ps` and `b` in the
second: the destinations hold `a + b` modulo `256 ^ n`, and `C`, `V`, `N` and `S` are the flags
of the whole sum. The sources are no destination, or each byte adds a register to itself
(LSL then ROL). -/
theorem add_adc_sum (d : Device) (p0 : Fin 32 × Fin 32) (ps : List (Fin 32 × Fin 32))
    (hdst : ((p0 :: ps).map Prod.fst).Nodup)
    (hsrc : (∀ p ∈ p0 :: ps, ∀ q ∈ p0 :: ps, p.2 ≠ q.1) ∨ ∀ p ∈ p0 :: ps, p.2 = p.1) :
    let as := (p0 :: ps).map fun p => d.regfile p.1
    let bs := (p0 :: ps).map fun p => d.regfile p.2
    let P := 256 ^ (ps.length + 1)
    ∃ d', d.runInstrs (.add p0.1 p0.2 :: ps.map fun p => .adc p.1 p.2) = some d' ∧
      uval ((p0 :: ps).map fun p => d'.regfile p.1) = (uval as + uval bs) % P ∧
      flag d'.cpu.sreg C = decide (P ≤ uval as + uval bs) ∧
      flag d'.cpu.sreg V = decide ¬(-(128 * 256 ^ ps.length : Int) ≤ sval as + sval bs ∧
        sval as + sval bs < 128 * 256 ^ ps.length) ∧
      flag d'.cpu.sreg N = decide (128 * 256 ^ ps.length ≤ (uval as + uval bs) % P) ∧
      flag d'.cpu.sreg S = decide (sval as + sval bs < 0) := by
  dsimp only
  obtain ⟨d', R, hrun, hp⟩ := addChain_spec (ps.map fun p => ⟨.adc p.1 p.2, p.1, .reg p.2⟩)
    ⟨.add p0.1 p0.2, p0.1, .reg p0.2⟩ (fun _ => false) d (add_step p0.1 p0.2)
    (by simp only [List.mem_map]; rintro _ ⟨p, -, rfl⟩; exact adc_step p.1 p.2)
    (add_fresh p0 ps hdst hsrc)
  simp only [List.map_cons, List.map_map, Function.comp_def, Src.read_reg, List.length_map,
    Bool.toNat_false, Nat.cast_zero, add_zero] at hrun hp
  have hA := uval_lt (d.regfile p0.1 :: ps.map fun p => d.regfile p.1)
  have hB := uval_lt (d.regfile p0.2 :: ps.map fun p => d.regfile p.2)
  simp only [List.length_cons, List.length_map] at hA hB
  have hR := add_mod hA hB hp.value
  have hres := hp.result
  simp only [List.map_cons, List.map_map, Function.comp_def] at hres ⊢
  exact ⟨d', hrun, hres.trans hR, hp.carry, hp.overflow, hR ▸ hp.neg, hp.sign⟩

/-- `r25:r24 += r27:r26`, on `0x80FF + 0x8001`. -/
theorem add_adc_r25_r24 :
    let d := withRegs fun i => if i = 24 then 0xFF else if i = 25 ∨ i = 27 then 0x80
      else if i = 26 then 0x01 else 0
    let p0 : Fin 32 × Fin 32 := (24, 26)
    let ps : List (Fin 32 × Fin 32) := [(25, 27)]
    ((p0 :: ps).map Prod.fst).Nodup ∧
    ((∀ p ∈ p0 :: ps, ∀ q ∈ p0 :: ps, p.2 ≠ q.1) ∨ ∀ p ∈ p0 :: ps, p.2 = p.1) ∧
    let as := (p0 :: ps).map fun p => d.regfile p.1
    let bs := (p0 :: ps).map fun p => d.regfile p.2
    let P := 256 ^ (ps.length + 1)
    ∃ d', d.runInstrs (.add p0.1 p0.2 :: ps.map fun p => .adc p.1 p.2) = some d' ∧
      uval ((p0 :: ps).map fun p => d'.regfile p.1) = (uval as + uval bs) % P ∧
      flag d'.cpu.sreg C = decide (P ≤ uval as + uval bs) ∧
      flag d'.cpu.sreg V = decide ¬(-(128 * 256 ^ ps.length : Int) ≤ sval as + sval bs ∧
        sval as + sval bs < 128 * 256 ^ ps.length) ∧
      flag d'.cpu.sreg N = decide (128 * 256 ^ ps.length ≤ (uval as + uval bs) % P) ∧
      flag d'.cpu.sreg S = decide (sval as + sval bs < 0) :=
  ⟨by decide, Or.inl (by simp), add_adc_sum _ (24, 26) [(25, 27)] (by decide) (Or.inl (by simp))⟩

end Device

end Megumi
