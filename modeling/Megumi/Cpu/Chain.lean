import Megumi.Cpu.Alu

/-!
# Multi-byte arithmetic: SUB/SBC, CP/CPC and ADD/ADC chains

A number of `n` bytes lives in `n` registers, low byte first. Compilers subtract one with SUB
(or SUBI) then `n - 1` SBC (or SBCI), compare with CP (or CPI) then CPC, and add with ADD then
ADC, least significant byte first. Each branch of `Device::executeNextInstruction` does one
byte: `subByte` and `addByte` are that byte, with the borrow or carry `c` and the `Z` input as
parameters, and `SubStep` / `AddStep` say which instruction does it with which inputs.

`subChain_spec` and `addChain_spec` run a whole chain, by induction on the bytes: `subPost_one`
is the last byte and `subPost_cons` adds a byte below a chain, from the one equation
`R + b + c = a + 256 * C` of each byte. What a chain leaves is a `SubPost` / `AddPost`: the
result, `C`, `N`, `V`, `S` and `Z` of the whole numbers.
-/

namespace Megumi

open Sreg

/-- A byte operand of the subtract and compare branches: a register, or an immediate `K`. -/
inductive Src
  | reg (r : Fin 32)
  | imm (K : BitVec 8)
  deriving DecidableEq

/-- The operand's value in the register file `rf`. -/
def Src.read (rf : Fin 32 → BitVec 8) : Src → BitVec 8
  | .reg r => rf r
  | .imm K => K

@[simp] theorem Src.read_reg (rf : Fin 32 → BitVec 8) (r : Fin 32) : (Src.reg r).read rf = rf r :=
  rfl

theorem Src.read_update (rf : Fin 32 → BitVec 8) {rd : Fin 32} (v : BitVec 8) {s : Src}
    (h : s ≠ .reg rd) : s.read (Function.update rf rd v) = s.read rf := by
  cases s with
  | reg r => exact Function.update_noteq (fun e => h (congrArg Src.reg e)) v rf
  | imm K => rfl

/-- One byte of a chain: its instruction, its destination register and its operand. -/
structure ChainByte where
  instr : Instr
  rd : Fin 32
  src : Src

/-- No byte of the chain writes a register that a later byte reads or writes. -/
def Fresh (xs : List ChainByte) : Prop :=
  xs.Pairwise fun x y => y.rd ≠ x.rd ∧ y.src ≠ .reg x.rd

namespace Device

/-- Instructions run one after another, as `executeNextInstruction` runs consecutive words. -/
def runInstrs (d : Device) : List Instr → Option Device
  | [] => some d
  | i :: is => (d.execute i).bind fun r => r.1.runInstrs is

theorem runInstrs_append (d : Device) (l₁ l₂ : List Instr) :
    d.runInstrs (l₁ ++ l₂) = (d.runInstrs l₁).bind fun d' => d'.runInstrs l₂ := by
  induction l₁ generalizing d with
  | nil => rfl
  | cons i is ih =>
    show ((d.execute i).bind fun r => r.1.runInstrs (is ++ l₂)) = _
    simp only [runInstrs, Option.bind_assoc, ih]

/-- One byte of a subtraction, as SUB, SBC, SUBI, SBCI, CP, CPC and CPI do it: `R = Rd - y - c`
into the flags with `Z = R == 0 && z`, and into `Rd` when `write` is set. -/
def subByte (d : Device) (rd : Fin 32) (y : BitVec 8) (c z write : Bool) : Device :=
  let Rd := d.regfile rd
  let R := Rd - y - bit c
  ((cond write (d.setReg rd R) d).modifySreg fun s => subFlags s Rd y R (R == 0 && z)).advance 1

/-- One byte of an addition, as ADD and ADC do it: `R = Rd + y + c`. -/
def addByte (d : Device) (rd : Fin 32) (y : BitVec 8) (c : Bool) : Device :=
  let Rd := d.regfile rd
  let R := Rd + y + bit c
  ((d.setReg rd R).modifySreg fun s => addFlags s Rd y R).advance 1

/-- The byte's instruction does `subByte` on its destination and operand, with the borrow
`cf d` and the `Z` input `zf d`. -/
def SubStep (write : Bool) (cf zf : Device → Bool) (x : ChainByte) : Prop :=
  ∀ d : Device, d.execute x.instr = some (d.subByte x.rd (x.src.read d.regfile) (cf d) (zf d) write, 1)

/-- The byte's instruction does `addByte` on its destination and operand, with the carry `cf d`. -/
def AddStep (cf : Device → Bool) (x : ChainByte) : Prop :=
  ∀ d : Device, d.execute x.instr = some (d.addByte x.rd (x.src.read d.regfile) (cf d), 1)

/-! ## Which branch does which byte -/

section Steps

variable (rd rr : Fin 32) (K : BitVec 8)

theorem sub_step : SubStep true (fun _ => false) (fun _ => true) ⟨.sub rd rr, rd, .reg rr⟩ :=
  fun d => congrArg some (Prod.ext (by simp [subByte, bit]) rfl)

theorem subi_step : SubStep true (fun _ => false) (fun _ => true) ⟨.subi rd K, rd, .imm K⟩ :=
  fun d => congrArg some (Prod.ext (by simp [subByte, bit, Src.read]) rfl)

theorem sbc_step :
    SubStep true (fun d => flag d.cpu.sreg C) (fun _ => true) ⟨.sbc rd rr, rd, .reg rr⟩ :=
  fun d => congrArg some (Prod.ext (by simp [subByte, Src.read]) rfl)

theorem sbci_step :
    SubStep true (fun d => flag d.cpu.sreg C) (fun _ => true) ⟨.sbci rd K, rd, .imm K⟩ :=
  fun d => congrArg some (Prod.ext (by simp [subByte, Src.read]) rfl)

theorem cp_step : SubStep false (fun _ => false) (fun _ => true) ⟨.cp rd rr, rd, .reg rr⟩ :=
  fun d => congrArg some (Prod.ext (by simp [subByte, bit, Src.read]) rfl)

theorem cpi_step : SubStep false (fun _ => false) (fun _ => true) ⟨.cpi rd K, rd, .imm K⟩ :=
  fun d => congrArg some (Prod.ext (by simp [subByte, bit, Src.read]) rfl)

theorem cpc_step :
    SubStep false (fun d => flag d.cpu.sreg C) (fun d => flag d.cpu.sreg Z) ⟨.cpc rd rr, rd, .reg rr⟩ :=
  fun d => congrArg some (Prod.ext (by simp [subByte, Src.read, modifySreg]) rfl)

theorem add_step : AddStep (fun _ => false) ⟨.add rd rr, rd, .reg rr⟩ :=
  fun d => congrArg some (Prod.ext (by simp [addByte, bit, Src.read]) rfl)

theorem adc_step : AddStep (fun d => flag d.cpu.sreg C) ⟨.adc rd rr, rd, .reg rr⟩ :=
  fun d => congrArg some (Prod.ext (by simp [addByte, Src.read]) rfl)

end Steps

/-! ## One byte -/

theorem beq_zero_byte (x : BitVec 8) : (x == 0) = decide (x.toNat = 0) := by
  rw [Bool.eq_iff_iff, beq_iff_eq, decide_eq_true_eq, BitVec.toNat_eq]; rfl

/-- One byte of a subtraction, read as numbers: `R + y + c = a + 256 * C`, and `N`, `V`, `S`
and `Z` of the byte. -/
theorem subByte_spec (d : Device) (rd : Fin 32) (y : BitVec 8) (c z w : Bool) :
    let a := d.regfile rd
    let R := a - y - bit c
    let d' := d.subByte rd y c z w
    d'.regfile = cond w (Function.update d.regfile rd R) d.regfile ∧ d'.cpu.pc = d.cpu.pc + 1 ∧
      R.toNat + y.toNat + c.toNat = a.toNat + 256 * (flag d'.cpu.sreg C).toNat ∧
      flag d'.cpu.sreg C = decide (a.toNat < y.toNat + c.toNat) ∧
      flag d'.cpu.sreg Z = (decide (R.toNat = 0) && z) ∧
      flag d'.cpu.sreg N = decide (128 ≤ R.toNat) ∧
      flag d'.cpu.sreg V =
        decide ¬(-128 ≤ a.toInt - y.toInt - c.toNat ∧ a.toInt - y.toInt - c.toNat < 128) ∧
      flag d'.cpu.sreg S = decide (a.toInt - y.toInt - c.toNat < 0) := by
  intro a R d'
  have hs : d'.cpu.sreg = subFlags d.cpu.sreg a y R (R == 0 && z) := by cases w <;> rfl
  obtain ⟨hC, hZ, hN, hV, hS⟩ := subFlags_flags d.cpu.sreg a y R (R == 0 && z)
  rw [sub_carry] at hC
  rw [sub_overflow] at hV
  rw [sub_sign] at hS
  rw [hs, hC, hZ, hN, hV, hS, flag, getLsbD_seven, beq_zero_byte]
  refine ⟨by cases w <;> rfl, by cases w <;> rfl, ?_, rfl, rfl, rfl, rfl, rfl⟩
  have := a.isLt; have := y.isLt; have := c.toNat_le
  rw [toNat_sub_borrow]
  by_cases h : a.toNat < y.toNat + c.toNat <;> simp only [h, decide_True, decide_False,
    Bool.toNat_true, Bool.toNat_false] <;> omega

/-- One byte of an addition, read as numbers: `R + 256 * C = a + y + c`, and `N`, `V`, `S`. -/
theorem addByte_spec (d : Device) (rd : Fin 32) (y : BitVec 8) (c : Bool) :
    let a := d.regfile rd
    let R := a + y + bit c
    let d' := d.addByte rd y c
    d'.regfile = Function.update d.regfile rd R ∧ d'.cpu.pc = d.cpu.pc + 1 ∧
      R.toNat + 256 * (flag d'.cpu.sreg C).toNat = a.toNat + y.toNat + c.toNat ∧
      flag d'.cpu.sreg C = decide (256 ≤ a.toNat + y.toNat + c.toNat) ∧
      flag d'.cpu.sreg N = decide (128 ≤ R.toNat) ∧
      flag d'.cpu.sreg V =
        decide ¬(-128 ≤ a.toInt + y.toInt + c.toNat ∧ a.toInt + y.toInt + c.toNat < 128) ∧
      flag d'.cpu.sreg S = decide (a.toInt + y.toInt + c.toNat < 0) := by
  intro a R d'
  obtain ⟨hC, hN, hV, hS⟩ := addFlags_flags d.cpu.sreg a y R
  rw [add_carry] at hC
  rw [add_overflow] at hV
  rw [add_sign] at hS
  show _ ∧ _ ∧ _ + 256 * (flag (addFlags d.cpu.sreg a y R) C).toNat = _ ∧
    flag (addFlags d.cpu.sreg a y R) C = _ ∧ flag (addFlags d.cpu.sreg a y R) N = _ ∧
    flag (addFlags d.cpu.sreg a y R) V = _ ∧ flag (addFlags d.cpu.sreg a y R) S = _
  rw [hC, hN, hV, hS, flag, getLsbD_seven]
  refine ⟨rfl, rfl, ?_, rfl, rfl, rfl, rfl⟩
  have := a.isLt; have := y.isLt; have := c.toNat_le
  rw [toNat_add_carry]
  by_cases h : 256 ≤ a.toNat + y.toNat + c.toNat <;> simp only [h, decide_True, decide_False,
    Bool.toNat_true, Bool.toNat_false] <;> omega

/-! ## Subtraction chains -/

/-- What a subtraction chain of `n + 1` bytes leaves in `d'`: `R` is the result as a number, `U`
and `D` are the unsigned and the signed difference less the borrow in, `z` is the first byte's
`Z` input and `rds` are the destinations. -/
structure SubPost (write chainZ : Bool) (rds : List (Fin 32)) (n : Nat) (U D : Int) (z : Bool)
    (d d' : Device) (R : Nat) : Prop where
  lt : R < 256 ^ (n + 1)
  value : (R : Int) = if U < 0 then U + 256 ^ (n + 1) else U
  carry : flag d'.cpu.sreg C = decide (U < 0)
  neg : flag d'.cpu.sreg N = decide (128 * 256 ^ n ≤ R)
  overflow : flag d'.cpu.sreg V = decide ¬(-(128 * 256 ^ n : Int) ≤ D ∧ D < 128 * 256 ^ n)
  sign : flag d'.cpu.sreg S = decide (D < 0)
  zero_chained : chainZ = true → flag d'.cpu.sreg Z = (z && decide (R = 0))
  zero_top : chainZ = false → z = true → flag d'.cpu.sreg Z = decide (R < 256 ^ n)
  result : write = true → uval (rds.map d'.regfile) = R
  frame : ∀ j, (write = true → j ∉ rds) → d'.regfile j = d.regfile j
  pc : d'.cpu.pc = d.cpu.pc + BitVec.ofNat 32 (n + 1)

theorem ofNat_succ_add (pc : BitVec 32) (n : Nat) :
    pc + 1 + BitVec.ofNat 32 (n + 1) = pc + BitVec.ofNat 32 (n + 1 + 1) := by
  apply BitVec.eq_of_toNat_eq
  have : (1 : BitVec 32).toNat = 1 := rfl
  simp only [BitVec.toNat_add, BitVec.toNat_ofNat, this]
  omega

/-- The last byte of a subtraction chain. -/
theorem subPost_one (d : Device) (rd : Fin 32) (y : BitVec 8) (c z w chainZ : Bool) :
    SubPost w chainZ [rd] 0 ((d.regfile rd).toNat - y.toNat - c.toNat)
      ((d.regfile rd).toInt - y.toInt - c.toNat) z d (d.subByte rd y c z w)
      (d.regfile rd - y - bit c).toNat := by
  obtain ⟨hr, hpc, hv, hC, hZ, hN, hV, hS⟩ := subByte_spec d rd y c z w
  have := (d.regfile rd - y - bit c).isLt
  refine ⟨this, ?_, ?_, by simpa using hN, by simpa using hV, hS, fun _ => ?_, fun _ hz => ?_,
    fun hw => ?_, fun j hj => ?_, hpc⟩
  · rw [hC] at hv
    rw [zero_add, pow_one]
    by_cases h : (d.regfile rd).toNat < y.toNat + c.toNat <;>
      simp only [h, decide_True, decide_False, Bool.toNat_true, Bool.toNat_false] at hv <;>
      split_ifs <;> omega
  · rw [hC, decide_eq_decide]; omega
  · simp [hZ, Bool.and_comm]
  · rw [hZ, hz, Bool.and_true, pow_zero, decide_eq_decide]; omega
  · subst hw; simp [uval, hr]
  · cases w
    · rw [hr]; rfl
    · rw [hr]; exact Function.update_noteq (by simpa [eq_comm] using hj rfl) _ _

/-- A byte below a subtraction chain: the chain run from the byte's state, with the byte's borrow
and `Z` out as its inputs, and the byte make a chain one byte longer. The whole difference is
`R0 + 256 *` the chain's, which carries every flag of the chain over. -/
theorem subPost_cons {d d' : Device} {rd : Fin 32} {y : BitVec 8} {c z w chainZ : Bool}
    {rds : List (Fin 32)} {n A B : Nat} {SA SB : Int} {R' : Nat} (hfresh : w = true → rd ∉ rds)
    (h : SubPost w chainZ rds n ((A : Int) - B - (flag (d.subByte rd y c z w).cpu.sreg C).toNat)
      (SA - SB - (flag (d.subByte rd y c z w).cpu.sreg C).toNat)
      (cond chainZ (flag (d.subByte rd y c z w).cpu.sreg Z) true) (d.subByte rd y c z w) d' R') :
    SubPost w chainZ (rd :: rds) (n + 1)
      ((((d.regfile rd).toNat + 256 * A : Nat) : Int) - ((y.toNat + 256 * B : Nat) : Int) - c.toNat)
      ((d.regfile rd).toNat + 256 * SA - (y.toNat + 256 * SB) - c.toNat) z d d'
      ((d.regfile rd - y - bit c).toNat + 256 * R') := by
  obtain ⟨hr, hpc, hv, -, hZ, -, -, -⟩ := subByte_spec d rd y c z w
  have hv' : ((d.regfile rd - y - bit c).toNat : Int) + y.toNat + c.toNat =
      (d.regfile rd).toNat + 256 * (flag (d.subByte rd y c z w).cpu.sreg C).toNat := by
    exact_mod_cast hv
  have hlt := h.lt
  have hval := h.value
  refine ⟨by omega, ?_, ?_, ?_, ?_, ?_, fun hc => ?_, fun hc hz => ?_, fun hw => ?_,
    fun j hj => ?_, ?_⟩
  · push_cast
    split_ifs at hval ⊢ <;> omega
  · rw [h.carry, decide_eq_decide]; omega
  · rw [h.neg, decide_eq_decide]; omega
  · rw [h.overflow, decide_eq_decide]; omega
  · rw [h.sign, decide_eq_decide]; omega
  · rw [h.zero_chained hc, hc, cond_true, hZ, Bool.eq_iff_iff]
    cases z <;> simp only [Bool.and_eq_true, decide_eq_true_eq, and_true, and_false, false_and,
      true_and, iff_self, Bool.false_eq_true]
    omega
  · rw [h.zero_top hc (by rw [hc]; rfl), decide_eq_decide]; omega
  · have hrd : d'.regfile rd = d.regfile rd - y - bit c := by
      rw [h.frame rd hfresh, hr, hw, cond_true, Function.update_same]
    rw [List.map_cons, uval, hrd, h.result hw]
  · rw [h.frame j fun hw => fun hj' => hj hw (List.mem_cons_of_mem _ hj'), hr]
    cases w
    · rfl
    · exact Function.update_noteq (fun e => hj rfl (by subst e; exact List.mem_cons_self _ _)) _ _
  · rw [h.pc, hpc, ofNat_succ_add]

/-- **A subtraction chain.** The first byte takes its borrow and its `Z` input from `cf` and
`zf`; each later byte takes them from the flags the byte before it left, `Z` only when `chainZ`
is set. When the bytes write, no byte reads or writes a register an earlier byte wrote. -/
theorem subChain_spec (w chainZ : Bool) (xs : List ChainByte) :
    ∀ (x : ChainByte) (cf zf : Device → Bool) (d : Device), SubStep w cf zf x →
      (∀ y ∈ xs, SubStep w (fun d => flag d.cpu.sreg C)
        (fun d => cond chainZ (flag d.cpu.sreg Z) true) y) →
      (w = true → Fresh (x :: xs)) →
      ∃ d' R, d.runInstrs ((x :: xs).map ChainByte.instr) = some d' ∧
        SubPost w chainZ ((x :: xs).map ChainByte.rd) xs.length
          ((uval ((x :: xs).map fun y => d.regfile y.rd) : Int) -
            uval ((x :: xs).map fun y => y.src.read d.regfile) - (cf d).toNat)
          (sval ((x :: xs).map fun y => d.regfile y.rd) -
            sval ((x :: xs).map fun y => y.src.read d.regfile) - (cf d).toNat) (zf d) d d' R := by
  induction xs with
  | nil =>
    intro x cf zf d hx _ _
    refine ⟨_, _, by rw [List.map, runInstrs, hx]; rfl, subPost_one d x.rd _ (cf d) (zf d) w chainZ⟩
  | cons y ys ih =>
    intro x cf zf d hx hys hfresh
    let d1 := d.subByte x.rd (x.src.read d.regfile) (cf d) (zf d) w
    obtain ⟨d', R', hrun, hpost⟩ := ih y (fun d => flag d.cpu.sreg C)
      (fun d => cond chainZ (flag d.cpu.sreg Z) true) d1 (hys y (List.mem_cons_self _ _))
      (fun y hy => hys y (List.mem_cons_of_mem _ hy)) fun hw => (List.pairwise_cons.1 (hfresh hw)).2
    -- the later bytes read in `d1` what they read in `d`
    have hread : ∀ v ∈ y :: ys, d1.regfile v.rd = d.regfile v.rd ∧
        v.src.read d1.regfile = v.src.read d.regfile := by
      intro v hv
      obtain ⟨hr, -⟩ := subByte_spec d x.rd (x.src.read d.regfile) (cf d) (zf d) w
      rw [hr]
      cases w
      · exact ⟨rfl, rfl⟩
      · obtain ⟨hrd, hsrc⟩ := (List.pairwise_cons.1 (hfresh rfl)).1 v hv
        exact ⟨Function.update_noteq hrd _ _, Src.read_update _ _ hsrc⟩
    rw [List.map_congr_left fun v hv => (hread v hv).1,
      List.map_congr_left fun v hv => (hread v hv).2] at hpost
    refine ⟨d', _, by rw [List.map, runInstrs, hx]; exact hrun, subPost_cons ?_ hpost⟩
    intro hw hmem
    obtain ⟨v, hv, hvx⟩ := List.mem_map.1 hmem
    exact ((List.pairwise_cons.1 (hfresh hw)).1 v hv).1 hvx

/-! ## Addition chains -/

/-- What an addition chain of `n + 1` bytes leaves in `d'`: `R` is the result as a number, `T`
and `E` are the unsigned and the signed sum with the carry in, and `rds` are the destinations. -/
structure AddPost (rds : List (Fin 32)) (n T : Nat) (E : Int) (d d' : Device) (R : Nat) :
    Prop where
  lt : R < 256 ^ (n + 1)
  value : R = if 256 ^ (n + 1) ≤ T then T - 256 ^ (n + 1) else T
  carry : flag d'.cpu.sreg C = decide (256 ^ (n + 1) ≤ T)
  neg : flag d'.cpu.sreg N = decide (128 * 256 ^ n ≤ R)
  overflow : flag d'.cpu.sreg V = decide ¬(-(128 * 256 ^ n : Int) ≤ E ∧ E < 128 * 256 ^ n)
  sign : flag d'.cpu.sreg S = decide (E < 0)
  result : uval (rds.map d'.regfile) = R
  frame : ∀ j ∉ rds, d'.regfile j = d.regfile j
  pc : d'.cpu.pc = d.cpu.pc + BitVec.ofNat 32 (n + 1)

/-- The last byte of an addition chain. -/
theorem addPost_one (d : Device) (rd : Fin 32) (y : BitVec 8) (c : Bool) :
    AddPost [rd] 0 ((d.regfile rd).toNat + y.toNat + c.toNat)
      ((d.regfile rd).toInt + y.toInt + c.toNat) d (d.addByte rd y c)
      (d.regfile rd + y + bit c).toNat := by
  obtain ⟨hr, hpc, hv, hC, hN, hV, hS⟩ := addByte_spec d rd y c
  have := (d.regfile rd + y + bit c).isLt
  refine ⟨this, ?_, by simpa using hC, by simpa using hN, by simpa using hV, hS, ?_,
    fun j hj => ?_, hpc⟩
  · rw [hC] at hv
    rw [zero_add, pow_one]
    by_cases h : 256 ≤ (d.regfile rd).toNat + y.toNat + c.toNat <;>
      simp only [h, decide_True, decide_False, Bool.toNat_true, Bool.toNat_false] at hv <;>
      split_ifs <;> omega
  · simp [uval, hr]
  · rw [hr]; exact Function.update_noteq (by simpa [eq_comm] using hj) _ _

/-- A byte below an addition chain: the whole sum is `R0 + 256 *` the chain's. -/
theorem addPost_cons {d d' : Device} {rd : Fin 32} {y : BitVec 8} {c : Bool}
    {rds : List (Fin 32)} {n A B : Nat} {SA SB : Int} {R' : Nat} (hfresh : rd ∉ rds)
    (h : AddPost rds n (A + B + (flag (d.addByte rd y c).cpu.sreg C).toNat)
      (SA + SB + (flag (d.addByte rd y c).cpu.sreg C).toNat) (d.addByte rd y c) d' R') :
    AddPost (rd :: rds) (n + 1) ((d.regfile rd).toNat + 256 * A + (y.toNat + 256 * B) + c.toNat)
      ((d.regfile rd).toNat + 256 * SA + (y.toNat + 256 * SB) + c.toNat) d d'
      ((d.regfile rd + y + bit c).toNat + 256 * R') := by
  obtain ⟨hr, hpc, hv, -, -, -, -⟩ := addByte_spec d rd y c
  have hlt := h.lt
  have hval := h.value
  refine ⟨by omega, ?_, ?_, ?_, ?_, ?_, ?_, fun j hj => ?_, ?_⟩
  · split_ifs at hval ⊢ <;> omega
  · rw [h.carry, decide_eq_decide]; omega
  · rw [h.neg, decide_eq_decide]; omega
  · rw [h.overflow, decide_eq_decide]; omega
  · rw [h.sign, decide_eq_decide]; omega
  · have hrd : d'.regfile rd = d.regfile rd + y + bit c := by
      rw [h.frame rd hfresh, hr, Function.update_same]
    rw [List.map_cons, uval, hrd, h.result]
  · rw [h.frame j fun hj' => hj (List.mem_cons_of_mem _ hj'), hr]
    exact Function.update_noteq (fun e => hj (by subst e; exact List.mem_cons_self _ _)) _ _
  · rw [h.pc, hpc, ofNat_succ_add]

/-- **An addition chain.** The first byte takes its carry from `cf`, each later byte from the
flags the byte before it left; no byte reads or writes a register an earlier byte wrote. -/
theorem addChain_spec (xs : List ChainByte) :
    ∀ (x : ChainByte) (cf : Device → Bool) (d : Device), AddStep cf x →
      (∀ y ∈ xs, AddStep (fun d => flag d.cpu.sreg C) y) → Fresh (x :: xs) →
      ∃ d' R, d.runInstrs ((x :: xs).map ChainByte.instr) = some d' ∧
        AddPost ((x :: xs).map ChainByte.rd) xs.length
          (uval ((x :: xs).map fun y => d.regfile y.rd) +
            uval ((x :: xs).map fun y => y.src.read d.regfile) + (cf d).toNat)
          (sval ((x :: xs).map fun y => d.regfile y.rd) +
            sval ((x :: xs).map fun y => y.src.read d.regfile) + (cf d).toNat) d d' R := by
  induction xs with
  | nil =>
    intro x cf d hx _ _
    exact ⟨_, _, by rw [List.map, runInstrs, hx]; rfl, addPost_one d x.rd _ (cf d)⟩
  | cons y ys ih =>
    intro x cf d hx hys hfresh
    rw [Fresh, List.pairwise_cons] at hfresh
    let d1 := d.addByte x.rd (x.src.read d.regfile) (cf d)
    obtain ⟨d', R', hrun, hpost⟩ := ih y (fun d => flag d.cpu.sreg C) d1
      (hys y (List.mem_cons_self _ _)) (fun y hy => hys y (List.mem_cons_of_mem _ hy)) hfresh.2
    have hread : ∀ v ∈ y :: ys, d1.regfile v.rd = d.regfile v.rd ∧
        v.src.read d1.regfile = v.src.read d.regfile := by
      intro v hv
      obtain ⟨hr, -⟩ := addByte_spec d x.rd (x.src.read d.regfile) (cf d)
      obtain ⟨hrd, hsrc⟩ := hfresh.1 v hv
      rw [hr]
      exact ⟨Function.update_noteq hrd _ _, Src.read_update _ _ hsrc⟩
    rw [List.map_congr_left fun v hv => (hread v hv).1,
      List.map_congr_left fun v hv => (hread v hv).2] at hpost
    refine ⟨d', _, by rw [List.map, runInstrs, hx]; exact hrun, addPost_cons ?_ hpost⟩
    intro hmem
    obtain ⟨v, hv, hvx⟩ := List.mem_map.1 hmem
    exact (hfresh.1 v hv).1 hvx

end Device

end Megumi
