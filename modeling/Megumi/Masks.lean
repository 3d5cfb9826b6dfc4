import Megumi.DeviceStep
import Megumi.Cpu.Updates

/-!
# RAMP and EIND within their masks

`CPU::setIo` (`src/unnamed/part_000`) stores `v & ramp_mask_` in RAMPD, RAMPX, RAMPY and RAMPZ
and `v & eind_mask_` in EIND; the carry and borrow of the pointer steps of
`executeNextInstruction` (`src/device.cpp`) are masked the same way, and `CPU::reset` clears all
five. No other path writes them, so along every run of `Device::step` from `Device::reset` none
of them has a bit outside its mask (`deviceRun_masked`): the premise `RAMPP & ramp_mask_ =
RAMPP` of the pointer round trips holds in every reachable state.
-/

namespace Megumi

namespace Device

/-- RAMPD, RAMPX, RAMPY and RAMPZ within `ramp_mask_`, EIND within `eind_mask_`. -/
structure Masked (d : Device) : Prop where
  rampd : d.cpu.rampd &&& d.rampMask = d.cpu.rampd
  rampx : d.cpu.rampx &&& d.rampMask = d.cpu.rampx
  rampy : d.cpu.rampy &&& d.rampMask = d.cpu.rampy
  rampz : d.cpu.rampz &&& d.rampMask = d.cpu.rampz
  eind : d.cpu.eind &&& d.eindMask = d.cpu.eind

theorem and_and_self (x m : BitVec 8) : x &&& m &&& m = x &&& m := by
  rw [BitVec.and_assoc, BitVec.and_self]

/-- What `Masked` reads: the configuration, the RAMP registers and EIND. -/
def maskedRegs (d : Device) : ModelConf × BitVec 8 × BitVec 8 × BitVec 8 × BitVec 8 × BitVec 8 :=
  (d.conf, d.cpu.rampd, d.cpu.rampx, d.cpu.rampy, d.cpu.rampz, d.cpu.eind)

section
variable {d : Device}

theorem Masked.congr {d' : Device} (h : Masked d) (he : d'.maskedRegs = d.maskedRegs) : Masked d' := by
  simp only [maskedRegs, Prod.mk.injEq] at he
  obtain ⟨hc, hd, hx, hy, hz, hi⟩ := he
  have hm : d'.rampMask = d.rampMask := by rw [rampMask, rampMask, hc]
  have hn : d'.eindMask = d.eindMask := by rw [eindMask, eindMask, hc]
  exact ⟨by rw [hd, hm, h.rampd], by rw [hx, hm, h.rampx], by rw [hy, hm, h.rampy],
    by rw [hz, hm, h.rampz], by rw [hi, hn, h.eind]⟩

theorem masked_iff {d' : Device} (he : d'.maskedRegs = d.maskedRegs) : Masked d' ↔ Masked d :=
  ⟨(·.congr he.symm), (·.congr he)⟩

/-- The premise of the pointer round trips, for each of X, Y and Z. -/
theorem Masked.ramp (h : Masked d) (p : Ptr) : d.ramp p &&& d.rampMask = d.ramp p := by
  cases p
  exacts [h.rampx, h.rampy, h.rampz]

theorem masked_setPair (i : Fin 32) (v : BitVec 16) : Masked (d.setPair i v) ↔ Masked d :=
  masked_iff rfl
theorem masked_setSram (i : Nat) (v : BitVec 8) : Masked (d.setSram i v) ↔ Masked d := masked_iff rfl

theorem Masked.ite {p : Prop} [Decidable p] {a b : Device} (ha : Masked a) (hb : Masked b) :
    Masked (if p then a else b) := by
  split <;> assumption

/-- A RAMP register written masked. -/
theorem Masked.setRamp (h : Masked d) (p : Ptr) (v : BitVec 8) :
    Masked (d.setRamp p (v &&& d.rampMask)) := by
  cases p
  · exact ⟨h.rampd, and_and_self v _, h.rampy, h.rampz, h.eind⟩
  · exact ⟨h.rampd, h.rampx, and_and_self v _, h.rampz, h.eind⟩
  · exact ⟨h.rampd, h.rampx, h.rampy, and_and_self v _, h.eind⟩

theorem Masked.incPtr (h : Masked d) (p : Ptr) : Masked (d.incPtr p) :=
  .ite (Masked.setRamp ((masked_setPair _ _).2 h) p _) ((masked_setPair _ _).2 h)

theorem Masked.decPtr (h : Masked d) (p : Ptr) : Masked (d.decPtr p) :=
  .ite (Masked.setRamp ((masked_setPair _ _).2 h) p _) ((masked_setPair _ _).2 h)

/-- `CPU::setIo` masks the RAMP registers and EIND. -/
theorem Masked.cpuSetIo (h : Masked d) (a : Nat) (v : BitVec 8) : Masked (d.cpuSetIo a v) := by
  unfold Device.cpuSetIo
  refine .ite (h.congr rfl) <| .ite ⟨and_and_self v _, h.rampx, h.rampy, h.rampz, h.eind⟩ <|
    .ite ⟨h.rampd, and_and_self v _, h.rampy, h.rampz, h.eind⟩ <|
    .ite ⟨h.rampd, h.rampx, and_and_self v _, h.rampz, h.eind⟩ <|
    .ite ⟨h.rampd, h.rampx, h.rampy, and_and_self v _, h.eind⟩ <|
    .ite ⟨h.rampd, h.rampx, h.rampy, h.rampz, and_and_self v _⟩ ?_
  repeat refine .ite (h.congr rfl) ?_
  exact h

theorem Masked.setIoMem (h : Masked d) (a : Nat) (v : BitVec 8) : Masked (d.setIoMem a v) := by
  rcases d.setIoMem_cases a v with e | ⟨k, -, -, e⟩ | ⟨k, -, -, e⟩ | e | e <;> rw [e]
  · exact h
  · exact h.cpuSetIo _ _
  all_goals exact h.congr rfl

theorem Masked.setDataMem (h : Masked d) (a : Nat) (v : BitVec 8) : Masked (d.setDataMem a v) :=
  .ite (h.setIoMem _ _) <| .ite h <| .ite ((masked_setSram _ _).2 h) h

theorem Masked.pushRet (h : Masked d) {d' : Device} {ret : BitVec 32} (hs : d.pushRet ret = some d') :
    Masked d' := by
  obtain ⟨⟨sram, hl, rfl⟩, -⟩ := pushRet_spec hs
  exact h.congr rfl

theorem Masked.stackSet (h : Masked d) {d' : Device} {n : Nat} {v : BitVec 32}
    (hs : d.stackSet n v = some d') : Masked d' := by
  obtain ⟨⟨sram, hl, rfl⟩, -⟩ := stackSet_spec hs
  exact h.congr rfl

/-- Every update of a branch keeps the masks: only the pointer steps and `CPU::setIo` write a
RAMP register or EIND, and both mask what they write. -/
theorem Masked.update {i : Instr} {d' : Device} (h : Masked d) (hu : Update i d d') : Masked d' := by
  cases hu
  case incPtr => exact h.incPtr _
  case decPtr => exact h.decPtr _
  case setIoMem a v => exact h.setIoMem a v
  case setDataMem a v => exact h.setDataMem a v
  case stackSet hs => exact h.stackSet hs
  all_goals exact h.congr rfl

end

/-- Every branch of `executeNextInstruction` keeps the masks. -/
theorem Masked.execute {d d' : Device} {i : Instr} {c : Nat} (hd : Masked d)
    (h : d.execute i = some (d', c)) : Masked d' :=
  (execute_updates h).lift Masked.update hd

theorem Masked.processPendingInterrupts {d d' : Device} {b : Bool} (hd : Masked d)
    (h : d.processPendingInterrupts = some (d', b)) : Masked d' := by
  simp only [Device.processPendingInterrupts] at h
  split at h
  · obtain ⟨_, -, h⟩ := Option.bind_eq_some.1 h
    obtain ⟨_, hp, he⟩ := Option.map_eq_some'.1 h
    cases he
    refine (Masked.pushRet ?_ hp).congr rfl
    exact hd.congr rfl
  · cases h
    exact hd

theorem Masked.stepCPUInterrupts {d d' : Device} {b : Bool} (hd : Masked d)
    (h : d.stepCPUInterrupts = some (d', b)) : Masked d' := by
  simp only [Device.stepCPUInterrupts] at h
  split at h
  · obtain ⟨⟨_, _ | _⟩, hp, he⟩ := Option.map_eq_some'.1 h <;> cases he <;>
      refine (Masked.processPendingInterrupts ?_ hp).congr rfl <;> exact hd.congr rfl
  · cases h
    exact hd.congr rfl

theorem Masked.execLoop {d d' : Device} {cs : List Nat} (hd : Masked d) (h : ExecLoop d d' cs) :
    Masked d' := by
  induction h with
  | done _ => exact hd
  | run _ hx _ ih =>
    obtain ⟨_, -, hx⟩ := Option.bind_eq_some.1 hx
    exact ih ((hd.execute hx).congr rfl)

theorem Masked.stepCPU {d d' : Device} {taken : Bool} {cs : List Nat} (hd : Masked d)
    (h : StepCPU d d' taken cs) : Masked d' := by
  obtain ⟨hi, hl⟩ := h
  exact ((hd.stepCPUInterrupts hi).execLoop hl).congr rfl

theorem Masked.devicePasses {d d' : Device} (hd : Masked d) (h : DevicePasses d d') : Masked d' := by
  induction h with
  | nil _ => exact hd
  | stepCpu _ _ _ hs _ ih => exact ih ((hd.stepCPU hs).congr rfl)
  | block _ _ _ _ _ ih => exact ih (hd.congr rfl)

theorem reset_masked (d : Device) : Masked d.reset :=
  ⟨BitVec.zero_and, BitVec.zero_and, BitVec.zero_and, BitVec.zero_and, BitVec.zero_and⟩

/-- **RAMP and EIND along runs.** In every state that `Device::step` calls reach from
`Device::reset`, RAMPD, RAMPX, RAMPY and RAMPZ have no bit outside `ramp_mask_` and EIND none
outside `eind_mask_`. -/
theorem deviceRun_masked {d : Device} (h : DeviceRun d) : Masked d := by
  induction h with
  | reset d => exact reset_masked d
  | step _ hs ih =>
    obtain ⟨_, hp⟩ := hs
    refine Masked.devicePasses ?_ hp
    exact ih.congr rfl

theorem erasedDemo_masked : DeviceRun erasedDemo ∧ Masked erasedDemo :=
  ⟨.reset _, deviceRun_masked (.reset _)⟩

end Device

end Megumi
