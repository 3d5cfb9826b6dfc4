import Megumi.Cpu.Interrupt
import Megumi.Cpu.Protocol
import Mathlib.Data.List.Forall2

/-!
# `Device::stepCPU`

One call of `stepCPU` (`src/device.cpp`): clear `breaked_`; at an instruction boundary
(`instruction_cycles_ == 0`), once an instruction has run since the last entry, with `sreg_.I`
set and `ccpState() == 0`, try `processPendingInterrupts`, an entry costing 5 cycles; then run
instructions while `instruction_cycles_ == 0`, and count one cycle down.

The `while` loop is the relation `ExecLoop`, and a call is `StepCPU`, labelled with whether it
entered an interrupt and the cycles of the instructions it ran. Since every instruction takes
one to four cycles (`executeNextInstruction_cycles_bounds`), the loop runs at most once
(`execLoop_cases`) and a call is a step of `Proto` (`stepCPU_proto`). `CpuRun` is a run of calls
from `Device::reset`, with the writes of the other parties between calls: `setIvLvl`, SREG,
PMIC's STATUS and CTRL, and the CCP state.
-/

namespace Megumi

open Sreg

namespace Device

/-- The opening of `stepCPU`: the state and whether an interrupt was entered. -/
def stepCPUInterrupts (d : Device) : Option (Device × Bool) :=
  let d := { d with breaked := false }
  if d.instructionCycles = 0 ∧ d.interruptWaitInstruction = false ∧ flag d.cpu.sreg I = true ∧
      d.cpu.ccpState = 0 then
    d.processPendingInterrupts.map fun r =>
      if r.2 then ({ r.1 with instructionCycles := 5, interruptWaitInstruction := true }, true)
      else (r.1, false)
  else some (d, false)

/-- `while(instruction_cycles_ == 0)`: run an instruction and clear
`interrupt_wait_instruction_`; with the cycles of each instruction run. -/
inductive ExecLoop : Device → Device → List Nat → Prop
  | done {d : Device} : d.instructionCycles ≠ 0 → ExecLoop d d []
  | run {d d1 d' : Device} {c : Nat} {cs : List Nat} : d.instructionCycles = 0 →
      d.executeNextInstruction = some (d1, c) →
      ExecLoop { d1 with instructionCycles := BitVec.ofNat 32 c, interruptWaitInstruction := false }
        d' cs →
      ExecLoop d d' (c :: cs)

/-- `Device::stepCPU`: the state after the call, whether it entered an interrupt, and the cycles
of the instructions it ran. -/
inductive StepCPU : Device → Device → Bool → List Nat → Prop
  | mk {d d1 d2 : Device} {taken : Bool} {cs : List Nat} :
      d.stepCPUInterrupts = some (d1, taken) → ExecLoop d1 d2 cs →
      StepCPU d { d2 with instructionCycles := d2.instructionCycles - 1 } taken cs

/-- What a call's label says it did: nothing, one instruction of `c` cycles, or an entry. -/
def callOf : Bool → List Nat → Option Call
  | false, [] => some .idle
  | false, [c] => some (.exec c)
  | true, [] => some .dispatch
  | _, _ => none

/-- The writes of the other parties between `stepCPU` calls. -/
inductive Env : Device → Device → Prop
  | setIvLvl (d : Device) (iv : Nat) (lvl : IntLvl) :
      Env d { d with ivPending := d.ivPending.setIvLvl iv lvl }
  | sreg (d : Device) (v : BitVec 8) : Env d (d.modifySreg fun _ => v)
  | pmic (d : Device) (status ctrl : BitVec 8) :
      Env d { d with pmicStatus := status, pmicCtrl := ctrl }
  | ccp (d : Device) (buffer : BitVec 8) (ioreg spm : Nat) :
      Env d { d with
        cpu := { d.cpu with ccpBuffer := buffer, ccpIoregCycles := ioreg, ccpSpmCycles := spm } }

/-- A run of `stepCPU` calls from `Device::reset`, with the labels of its calls. -/
inductive CpuRun : Device → List (Bool × List Nat) → Prop
  | reset (d : Device) : CpuRun d.reset []
  | call {d d' : Device} {ls : List (Bool × List Nat)} {taken : Bool} {cs : List Nat} :
      CpuRun d ls → StepCPU d d' taken cs → CpuRun d' (ls ++ [(taken, cs)])
  | env {d d' : Device} {ls : List (Bool × List Nat)} : CpuRun d ls → Env d d' → CpuRun d' ls

/-! ## One call -/

theorem processPendingInterrupts_false {d d' : Device}
    (h : d.processPendingInterrupts = some (d', false)) : d' = d := by
  simp only [processPendingInterrupts] at h
  split at h
  · obtain ⟨_, -, h⟩ := Option.bind_eq_some.1 h
    obtain ⟨_, -, h⟩ := Option.map_eq_some'.1 h
    cases h
  · cases h; rfl

theorem ofNat_cycles_ne_zero {c : Nat} (h : 1 ≤ c ∧ c ≤ 4) : BitVec.ofNat 32 c ≠ 0 := by
  intro e
  have := congrArg BitVec.toNat e
  rw [BitVec.toNat_ofNat, show (0 : BitVec 32).toNat = 0 from rfl] at this
  omega

/-- The loop runs no instruction when the count is not zero, and exactly one when it is. -/
theorem execLoop_cases {d d' : Device} {cs : List Nat} (h : ExecLoop d d' cs) :
    (d.instructionCycles ≠ 0 ∧ d' = d ∧ cs = []) ∨
      ∃ d1 c, d.instructionCycles = 0 ∧ d.executeNextInstruction = some (d1, c) ∧
        d' = { d1 with instructionCycles := BitVec.ofNat 32 c, interruptWaitInstruction := false } ∧
        cs = [c] := by
  cases h with
  | done h0 => exact .inl ⟨h0, rfl, rfl⟩
  | run h0 hexec hloop =>
    have hc := ofNat_cycles_ne_zero (executeNextInstruction_cycles_bounds hexec)
    cases hloop with
    | done => exact .inr ⟨_, _, h0, hexec, rfl, rfl⟩
    | run h0' => exact absurd h0' hc

theorem toNat_sub_one {x : BitVec 32} (h : x ≠ 0) : (x - 1).toNat + 1 = x.toNat := by
  have hx : x.toNat ≠ 0 := fun e => h (BitVec.eq_of_toNat_eq e)
  rw [BitVec.toNat_sub, show (1 : BitVec 32).toNat = 1 from rfl]
  omega

/-- After an instruction of `c` cycles, the decremented count is `c - 1`. -/
theorem toNat_cycles_sub_one {c : Nat} (h : 1 ≤ c ∧ c ≤ 4) : (BitVec.ofNat 32 c - 1).toNat = c - 1 := by
  have := toNat_sub_one (ofNat_cycles_ne_zero h)
  rw [BitVec.toNat_ofNat] at this
  omega

/-- A call is a step of `Proto`; it enters an interrupt only at a boundary with `sreg_.I` set and
no CCP state. -/
theorem stepCPU_proto {d d' : Device} {taken : Bool} {cs : List Nat} (h : StepCPU d d' taken cs) :
    ∃ e, callOf taken cs = some e ∧
      Proto (d.instructionCycles.toNat, d.interruptWaitInstruction) e
        (d'.instructionCycles.toNat, d'.interruptWaitInstruction) ∧
      (taken = true → d.instructionCycles = 0 ∧ flag d.cpu.sreg I = true ∧ d.cpu.ccpState = 0) := by
  obtain ⟨hi, hloop⟩ := h
  simp only [stepCPUInterrupts] at hi
  split at hi
  · rename_i hcond
    obtain ⟨h0, hw, hI, hccp⟩ := hcond
    obtain ⟨⟨d1, t⟩, hp, he⟩ := Option.map_eq_some'.1 hi
    cases t
    · -- no interrupt entered: one instruction runs
      cases he
      cases processPendingInterrupts_false hp
      rcases execLoop_cases hloop with ⟨h0', -, -⟩ | ⟨d1, c, -, hexec, rfl, rfl⟩
      · exact absurd h0 h0'
      · have hc := executeNextInstruction_cycles_bounds hexec
        refine ⟨.exec c, rfl, ?_, nofun⟩
        rw [show d.instructionCycles = 0 from h0]
        exact toNat_cycles_sub_one hc ▸ Proto.exec c _ hc.1
    · -- an interrupt entered: the loop sees 5 cycles
      cases he
      rcases execLoop_cases hloop with ⟨-, rfl, rfl⟩ | ⟨_, _, h5, -⟩
      · refine ⟨.dispatch, rfl, ?_, fun _ => ⟨h0, hI, hccp⟩⟩
        rw [show d.instructionCycles = 0 from h0, show d.interruptWaitInstruction = false from hw]
        show Proto ((0 : BitVec 32).toNat, false) _ (((5 : BitVec 32) - 1).toNat, true)
        rw [show (0 : BitVec 32).toNat = 0 from rfl, show ((5 : BitVec 32) - 1).toNat = 4 by decide]
        exact Proto.dispatch
      · exact absurd h5 (show (5 : BitVec 32) ≠ 0 by decide)
  · cases hi
    rcases execLoop_cases hloop with ⟨h0, rfl, rfl⟩ | ⟨d1, c, h0, hexec, rfl, rfl⟩
    · -- inside an instruction: count one cycle down
      have hk := toNat_sub_one h0
      refine ⟨.idle, rfl, ?_, nofun⟩
      rw [← hk]
      exact Proto.idle _ _
    · have hc := executeNextInstruction_cycles_bounds hexec
      refine ⟨.exec c, rfl, ?_, nofun⟩
      rw [show d.instructionCycles = 0 from h0]
      exact toNat_cycles_sub_one hc ▸ Proto.exec c _ hc.1

/-! ## Runs -/

theorem Env.cycles {d d' : Device} (h : Env d d') :
    d'.instructionCycles = d.instructionCycles ∧
      d'.interruptWaitInstruction = d.interruptWaitInstruction := by
  cases h <;> exact ⟨rfl, rfl⟩

/-- A run of calls from reset is a run of `Proto` from `(0, true)`. -/
theorem CpuRun.proto {d : Device} {ls : List (Bool × List Nat)} (h : CpuRun d ls) :
    ∃ es, List.Forall₂ (fun l e => callOf l.1 l.2 = some e) ls es ∧
      ProtoRun (0, true) es (d.instructionCycles.toNat, d.interruptWaitInstruction) := by
  induction h with
  | reset d => exact ⟨[], .nil, .nil _⟩
  | call _ hstep ih =>
    obtain ⟨es, hf, hr⟩ := ih
    obtain ⟨e, he, hp, -⟩ := stepCPU_proto hstep
    exact ⟨es ++ [e], List.rel_append hf (.cons he .nil), hr.snoc hp⟩
  | env _ henv ih =>
    rw [henv.cycles.1, henv.cycles.2]
    exact ih

/-- **`stepCPU` follows its protocol.** Each call runs at most one instruction, runs one exactly
when it enters no interrupt at a boundary, and counts down without wrapping (a step of `Proto`);
it enters an interrupt only at a boundary with `sreg_.I` set and no CCP state. Along every run
from `Device::reset`, with any writes of the other parties between calls, an instruction of
`c` cycles is followed by `c - 1` calls that run nothing and an entry by 4, after which the next
call does not idle, and an entry comes after an instruction that ran since the previous one. -/
theorem stepCPU_follows_protocol :
    (∀ {d d' : Device} {taken : Bool} {cs : List Nat}, StepCPU d d' taken cs →
      ∃ e, callOf taken cs = some e ∧
        Proto (d.instructionCycles.toNat, d.interruptWaitInstruction) e
          (d'.instructionCycles.toNat, d'.interruptWaitInstruction) ∧
        (taken = true → d.instructionCycles = 0 ∧ flag d.cpu.sreg I = true ∧ d.cpu.ccpState = 0)) ∧
    ∀ {d : Device} {ls : List (Bool × List Nat)}, CpuRun d ls →
      ∃ es, List.Forall₂ (fun l e => callOf l.1 l.2 = some e) ls es ∧
        ProtoRun (0, true) es (d.instructionCycles.toNat, d.interruptWaitInstruction) ∧
        (∀ pre c post, es = pre ++ .exec c :: post →
          (∀ e ∈ post.take (c - 1), e = .idle) ∧ ∀ e ∈ (post.drop (c - 1)).head?, e ≠ .idle) ∧
        (∀ pre post, es = pre ++ .dispatch :: post →
          (∀ e ∈ post.take 4, e = .idle) ∧ (∀ e ∈ (post.drop 4).head?, e ≠ .idle) ∧
          ∃ a c b, pre = a ++ .exec c :: b ∧ .dispatch ∉ b) := by
  refine ⟨stepCPU_proto, fun h => ?_⟩
  obtain ⟨es, hf, hr⟩ := h.proto
  refine ⟨es, hf, hr, fun pre c post he => ?_, fun pre post he => ?_⟩
  · obtain ⟨_, -, r⟩ := (he ▸ hr).split
    cases r with
    | cons h r => cases h; exact r.countdown
  · obtain ⟨_, -, r⟩ := (he ▸ hr).split
    cases r with
    | cons h r => cases h; exact ⟨r.countdown.1, r.countdown.2, (he ▸ hr).exec_before⟩

/-- A reset device with two words of erased flash and 16 bytes of SRAM. -/
def erasedDemo : Device := (create ⟨4, 2, 0, 0, 0x10, false⟩ .core false).reset

/-- The first call after reset runs `0xFFFF`, SBRS r31,7, in one cycle. -/
theorem erasedDemo_stepCPU : ∃ d', StepCPU erasedDemo d' false [1] :=
  ⟨_, StepCPU.mk rfl (ExecLoop.run rfl rfl (ExecLoop.done (by decide)))⟩

theorem erasedDemo_follows_protocol :
    ∃ d', StepCPU erasedDemo d' false [1] ∧
      (∃ e, callOf false [1] = some e ∧
        Proto (erasedDemo.instructionCycles.toNat, erasedDemo.interruptWaitInstruction) e
          (d'.instructionCycles.toNat, d'.interruptWaitInstruction) ∧
        (false = true → erasedDemo.instructionCycles = 0 ∧ flag erasedDemo.cpu.sreg I = true ∧
          erasedDemo.cpu.ccpState = 0)) ∧
      ∃ es, List.Forall₂ (fun l e => callOf l.1 l.2 = some e) [(false, [1])] es ∧
        ProtoRun (0, true) es (d'.instructionCycles.toNat, d'.interruptWaitInstruction) ∧
        (∀ pre c post, es = pre ++ .exec c :: post →
          (∀ e ∈ post.take (c - 1), e = .idle) ∧ ∀ e ∈ (post.drop (c - 1)).head?, e ≠ .idle) ∧
        (∀ pre post, es = pre ++ .dispatch :: post →
          (∀ e ∈ post.take 4, e = .idle) ∧ (∀ e ∈ (post.drop 4).head?, e ≠ .idle) ∧
          ∃ a c b, pre = a ++ .exec c :: b ∧ .dispatch ∉ b) := by
  obtain ⟨d', h⟩ := erasedDemo_stepCPU
  exact ⟨d', h, stepCPU_follows_protocol.1 h, stepCPU_follows_protocol.2 (.call (.reset _) h)⟩

end Device

end Megumi
