import Megumi.DeviceStep
import Megumi.Cpu.Updates

/-!
# What running leaves alone

No branch of `executeNextInstruction` (`src/device.cpp`) writes `flash_data_`: SPM only moves
the PC, and LPM, ELPM and the second words of LDS, STS, JMP and CALL only read it. No branch
changes the configuration either, nor the CCP countdowns `ccp_ioreg_cycles_` and
`ccp_spm_cycles_`: only `CPU::step` (`src/unnamed/part_000`) sets them, and nothing in the
repository calls it. The CLK block changes only by `CLK::setIo` writes through `setIoMem`, made
with the CCP state of the moment. `Frame d d'` records these facts, every operation the branches
are built from extends it, and so do `processPendingInterrupts`, `stepCPU` and `Device::step`.

Along every run of `Device::step` calls from `Device::reset`:
- the flash image and the configuration are those of the device that was reset
  (`deviceRun_keeps_program`);
- `ccpState()` is 0 and CLK.LOCK is clear, so a write of LOCK is refused while CTRL and PSCTRL
  stay writable, and every clock scale is a power of two dividing 4096 (`deviceRun_ccp_idle`).
-/

namespace Megumi

namespace Device

/-- `CLK::setIo` writes made with the CCP state `ccp`. -/
def ClkWrites (ccp : BitVec 8) : Clk → Clk → Prop :=
  Relation.ReflTransGen fun c c' => ∃ a v, c' = c.setIo ccp a v

/-- A property that `CLK::setIo` writes with the CCP state `ccp` keep holds after any of them. -/
theorem ClkWrites.invariant {ccp : BitVec 8} {c c' : Clk} (P : Clk → Prop)
    (hP : ∀ c a v, P c → P (c.setIo ccp a v)) (h : ClkWrites ccp c c') (hc : P c) : P c' := by
  induction h with
  | refl => exact hc
  | tail _ hs ih =>
    obtain ⟨a, v, rfl⟩ := hs
    exact hP _ a v ih

/-- What `d'` keeps of `d`: the configuration, the flash image and the CCP countdowns; its CLK
is reached from that of `d` by `CLK::setIo` writes made with the CCP state of `d`. -/
structure Frame (d d' : Device) : Prop where
  conf : d'.conf = d.conf
  flash : d'.flash = d.flash
  ioreg : d'.cpu.ccpIoregCycles = d.cpu.ccpIoregCycles
  spm : d'.cpu.ccpSpmCycles = d.cpu.ccpSpmCycles
  clk : ClkWrites d.cpu.ccpState d.clk d'.clk

section
variable {d d' d'' : Device}

theorem Frame.refl (d : Device) : Frame d d := ⟨rfl, rfl, rfl, rfl, .refl⟩

theorem Frame.ccpState (h : Frame d d') : d'.cpu.ccpState = d.cpu.ccpState := by
  rw [Cpu.ccpState, Cpu.ccpState, h.ioreg, h.spm]

theorem Frame.trans (h : Frame d d') (h' : Frame d' d'') : Frame d d'' :=
  ⟨h'.conf.trans h.conf, h'.flash.trans h.flash, h'.ioreg.trans h.ioreg, h'.spm.trans h.spm,
    h.clk.trans (h.ccpState ▸ h'.clk)⟩

/-- An operation that leaves the configuration, the flash, the CCP countdowns and CLK alone
extends a frame. -/
theorem Frame.keep {e : Device} (h : Frame d d') (hconf : e.conf = d'.conf)
    (hflash : e.flash = d'.flash) (hcpu : e.cpu.ccpIoregCycles = d'.cpu.ccpIoregCycles ∧
      e.cpu.ccpSpmCycles = d'.cpu.ccpSpmCycles) (hclk : e.clk = d'.clk) : Frame d e :=
  ⟨hconf.trans h.conf, hflash.trans h.flash, hcpu.1.trans h.ioreg, hcpu.2.trans h.spm,
    hclk ▸ h.clk⟩

/-- A frame that starts after an update leaving the framed parts alone. -/
theorem Frame.of_update {e : Device} (h : Frame e d'') (hconf : e.conf = d'.conf)
    (hflash : e.flash = d'.flash) (hcpu : e.cpu.ccpIoregCycles = d'.cpu.ccpIoregCycles ∧
      e.cpu.ccpSpmCycles = d'.cpu.ccpSpmCycles) (hclk : e.clk = d'.clk) : Frame d' d'' :=
  ((Frame.refl d').keep hconf hflash hcpu hclk).trans h

/-! ## The operations of the branches -/

theorem Frame.setPair (h : Frame d d') (i : Fin 32) (v : BitVec 16) : Frame d (d'.setPair i v) :=
  h.keep rfl rfl ⟨rfl, rfl⟩ rfl

theorem Frame.setPc (h : Frame d d') (pc : BitVec 32) : Frame d (d'.setPc pc) :=
  h.keep rfl rfl ⟨rfl, rfl⟩ rfl

theorem Frame.setSram (h : Frame d d') (i : Nat) (v : BitVec 8) : Frame d (d'.setSram i v) :=
  h.keep rfl rfl ⟨rfl, rfl⟩ rfl

theorem Frame.setRamp (h : Frame d d') (p : Ptr) (v : BitVec 8) : Frame d (d'.setRamp p v) := by
  cases p <;> exact h.keep rfl rfl ⟨rfl, rfl⟩ rfl

theorem Frame.ite {p : Prop} [Decidable p] {a b : Device} (ha : Frame d a) (hb : Frame d b) :
    Frame d (if p then a else b) := by
  split <;> assumption

theorem Frame.incPtr (h : Frame d d') (p : Ptr) : Frame d (d'.incPtr p) :=
  Frame.ite ((h.setPair _ _).setRamp _ _) (h.setPair _ _)

theorem Frame.decPtr (h : Frame d d') (p : Ptr) : Frame d (d'.decPtr p) :=
  Frame.ite ((h.setPair _ _).setRamp _ _) (h.setPair _ _)

/-- `CPU::setIo` writes `ccp_buffer_`, never the countdowns. -/
theorem Frame.cpuSetIo (h : Frame d d') (a : Nat) (v : BitVec 8) : Frame d (d'.cpuSetIo a v) := by
  unfold Device.cpuSetIo
  repeat refine Frame.ite (h.keep rfl rfl ⟨rfl, rfl⟩ rfl) ?_
  exact h

/-- A write to CLK's range is a `CLK::setIo` write with the CCP state, which the frame keeps. -/
theorem Frame.setIoMem (h : Frame d d') (a : Nat) (v : BitVec 8) : Frame d (d'.setIoMem a v) := by
  rcases d'.setIoMem_cases a v with e | ⟨k, -, -, e⟩ | ⟨k, -, -, e⟩ | e | e <;> rw [e]
  · exact h
  · exact h.cpuSetIo _ _
  · exact ⟨h.conf, h.flash, h.ioreg, h.spm, .tail h.clk ⟨_, v, by rw [h.ccpState]⟩⟩
  all_goals exact h.keep rfl rfl ⟨rfl, rfl⟩ rfl

theorem Frame.setDataMem (h : Frame d d') (a : Nat) (v : BitVec 8) :
    Frame d (d'.setDataMem a v) :=
  Frame.ite (h.setIoMem _ _) <| Frame.ite h <| Frame.ite (h.setSram _ _) h

theorem Frame.stackSet (h : Frame d d') {n : Nat} {v : BitVec 32} (hs : d'.stackSet n v = some d'') :
    Frame d d'' := by
  obtain ⟨⟨sram, hl, rfl⟩, -⟩ := stackSet_spec hs
  exact h.keep rfl rfl ⟨rfl, rfl⟩ rfl

theorem Frame.pushRet (h : Frame d d') {ret : BitVec 32} (hs : d'.pushRet ret = some d'') :
    Frame d d'' := by
  obtain ⟨⟨sram, hl, rfl⟩, -⟩ := pushRet_spec hs
  exact h.keep rfl rfl ⟨rfl, rfl⟩ rfl

/-- Every update of a branch extends a frame: of them only `setIoMem` reaches CLK, by a
`CLK::setIo` write. -/
theorem Frame.update {i : Instr} (h : Frame d d') (hu : Update i d' d'') : Frame d d'' := by
  cases hu
  case incPtr => exact h.incPtr _
  case decPtr => exact h.decPtr _
  case setIoMem a v => exact h.setIoMem a v
  case setDataMem a v => exact h.setDataMem a v
  case stackSet hs => exact h.stackSet hs
  all_goals exact h.keep rfl rfl ⟨rfl, rfl⟩ rfl

end

/-! ## Instructions, interrupts and calls -/

/-- **No instruction writes the program.** Every branch of `executeNextInstruction` keeps the
configuration, `flash_data_` and the CCP countdowns, and changes CLK only by `CLK::setIo`
writes. -/
theorem execute_frame {d d' : Device} {i : Instr} {c : Nat} (h : d.execute i = some (d', c)) :
    Frame d d' :=
  (execute_updates h).lift Frame.update (Frame.refl d)

theorem executeNextInstruction_frame {d d' : Device} {c : Nat}
    (h : d.executeNextInstruction = some (d', c)) : Frame d d' := by
  obtain ⟨_, -, h⟩ := Option.bind_eq_some.1 h
  exact execute_frame h

/-- An interrupt entry pushes the PC and jumps to the vector; PMIC and the pending vectors are
outside the frame. -/
theorem processPendingInterrupts_frame {d d' : Device} {b : Bool}
    (h : d.processPendingInterrupts = some (d', b)) : Frame d d' := by
  simp only [processPendingInterrupts] at h
  split at h
  · obtain ⟨_, -, h⟩ := Option.bind_eq_some.1 h
    obtain ⟨_, hp, he⟩ := Option.map_eq_some'.1 h
    cases he
    refine (Frame.pushRet ?_ hp).setPc _
    exact (Frame.refl d).keep rfl rfl ⟨rfl, rfl⟩ rfl
  · cases h
    exact .refl d

theorem stepCPUInterrupts_frame {d d' : Device} {b : Bool}
    (h : d.stepCPUInterrupts = some (d', b)) : Frame d d' := by
  have hb : Frame d { d with breaked := false } := (Frame.refl d).keep rfl rfl ⟨rfl, rfl⟩ rfl
  simp only [stepCPUInterrupts] at h
  split at h
  · obtain ⟨⟨d1, _ | _⟩, hp, he⟩ := Option.map_eq_some'.1 h <;> cases he
    · exact hb.trans (processPendingInterrupts_frame hp)
    · exact (hb.trans (processPendingInterrupts_frame hp)).keep rfl rfl ⟨rfl, rfl⟩ rfl
  · cases h
    exact hb

theorem ExecLoop.frame {d d' : Device} {cs : List Nat} (h : ExecLoop d d' cs) : Frame d d' := by
  induction h with
  | done => exact .refl _
  | run _ hx _ ih =>
    exact (executeNextInstruction_frame hx).trans (ih.of_update rfl rfl ⟨rfl, rfl⟩ rfl)

theorem StepCPU.frame {d d' : Device} {taken : Bool} {cs : List Nat} (h : StepCPU d d' taken cs) :
    Frame d d' := by
  obtain ⟨hi, hl⟩ := h
  exact ((stepCPUInterrupts_frame hi).trans hl.frame).keep rfl rfl ⟨rfl, rfl⟩ rfl

theorem DevicePasses.frame {d d' : Device} (h : DevicePasses d d') : Frame d d' := by
  induction h with
  | nil => exact .refl _
  | stepCpu _ _ _ hs _ ih => exact hs.frame.trans (ih.of_update rfl rfl ⟨rfl, rfl⟩ rfl)
  | block _ _ _ _ _ ih => exact ih.of_update rfl rfl ⟨rfl, rfl⟩ rfl

theorem DeviceStep.frame {d d' : Device} (h : DeviceStep d d') : Frame d d' := by
  obtain ⟨_, hp⟩ := h
  exact hp.frame.of_update rfl rfl ⟨rfl, rfl⟩ rfl

/-- Every run of `Device::step` calls is framed from its start. -/
theorem DeviceStep.frame_of_steps {d d' : Device} (h : Relation.ReflTransGen DeviceStep d d') :
    Frame d d' := by
  induction h with
  | refl => exact .refl d
  | tail _ hs ih => exact ih.trans hs.frame

/-! ## Runs from reset -/

/-- **The program along runs.** After `Device::reset`, no sequence of `Device::step` calls
changes `flash_data_` or the configuration: SPM is a no-op, and no other path writes flash. -/
theorem deviceRun_keeps_program {d0 d : Device} (h : Relation.ReflTransGen DeviceStep d0.reset d) :
    d.flash = d0.flash ∧ d.conf = d0.conf :=
  ⟨(DeviceStep.frame_of_steps h).flash, (DeviceStep.frame_of_steps h).conf⟩

theorem brkImage_keeps_program :
    Relation.ReflTransGen DeviceStep brkImage.reset brkImage.reset ∧
      brkImage.reset.flash = brkImage.flash ∧ brkImage.reset.conf = brkImage.conf :=
  ⟨.refl, deviceRun_keeps_program .refl⟩

theorem DeviceRun.exists_steps {d : Device} (h : DeviceRun d) :
    ∃ d0 : Device, Relation.ReflTransGen DeviceStep d0.reset d := by
  induction h with
  | reset d => exact ⟨d, .refl⟩
  | step _ hs ih =>
    obtain ⟨d0, h0⟩ := ih
    exact ⟨d0, h0.tail hs⟩

theorem reset_ccpState (d : Device) : d.reset.cpu.ccpState = 0 := by
  simp [reset, Cpu.reset, Cpu.ccpState]

/-- **The CCP state along runs.** In every state that `Device::step` calls reach from
`Device::reset`, `ccpState()` is 0 and CLK.LOCK is clear: only `CPU::step` starts the CCP
countdowns and nothing calls it, so every write of LOCK is refused. The prescalers stay those
`CLK::setIo` accepts, and every clock scale is a power of two dividing 4096. -/
theorem deviceRun_ccp_idle {d : Device} (h : DeviceRun d) :
    d.cpu.ccpState = 0 ∧ d.clk.locked = false ∧ ∀ clock, (getClockScale d.clk clock).toNat ∣ 4096 := by
  obtain ⟨d0, hs⟩ := h.exists_steps
  have hf := DeviceStep.frame_of_steps hs
  have hccp : d.cpu.ccpState = 0 := hf.ccpState.trans (reset_ccpState d0)
  have hclk := hf.clk.invariant (fun c => c.locked = false ∧ c.Valid)
    (fun c a v ⟨hl, hv⟩ => ⟨(Clk.setIo_locked (by rw [reset_ccpState]; decide) a v).trans hl, Clk.setIo_valid hv _ a v⟩)
    ⟨rfl, Clk.reset_valid⟩
  exact ⟨hccp, hclk.1, getClockScale_dvd hclk.2⟩

theorem erasedDemo_ccp_idle :
    DeviceRun erasedDemo ∧ erasedDemo.cpu.ccpState = 0 ∧ erasedDemo.clk.locked = false ∧
      ∀ clock, (getClockScale erasedDemo.clk clock).toNat ∣ 4096 :=
  ⟨.reset _, deviceRun_ccp_idle (.reset _)⟩

end Device

end Megumi
