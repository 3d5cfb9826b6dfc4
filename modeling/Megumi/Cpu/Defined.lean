import Megumi.Cpu.Stack

/-!
# Where a step is defined

`Device::executeNextInstruction` (`src/device.cpp`) has two kinds of undefined behaviour: a
read of `flash_data_` past its end (the opcode, the second word of LDS, STS, JMP, CALL and of
a skipped instruction, and the words LPM and ELPM read) and a `stack()` access outside
`sram_data_` (PUSH, POP, the calls, RET and RETI). `execute` is `none` only there.
Everything else it does is defined: with the second word, the LPM and ELPM words in flash,
three bytes of SRAM at and below SP and three above it, every instruction has a result
(`execute_isSome`).
-/

namespace Megumi

namespace Device

theorem flashAt_isSome {d : Device} {i : Nat} (h : i < d.flash.length) : (d.flashAt i).isSome := by
  simp [flashAt, h]

theorem skip_isSome {d : Device} (h : (d.cpu.pc + 1).toNat < d.flash.length) (long short : Nat) :
    (d.skip long short).isSome := by
  rw [skip, Option.isSome_map']; exact flashAt_isSome h

theorem StackRoom.mono {d : Device} {m n : Nat} (h : d.StackRoom n) (hmn : m ≤ n) : d.StackRoom m :=
  fun k hk => h k (by omega)

theorem stackGet_isSome {d : Device} {n : Nat} (h : d.StackRoom n) : (d.stackGet n).isSome := by
  induction n with
  | zero => rfl
  | succ n ih =>
    rw [stackGet, stackByte_of_room h (Nat.lt_succ_self n), Option.some_bind, Option.isSome_map']
    exact ih (h.mono (Nat.le_succ n))

theorem pushPc_isSome {d : Device} (h : d.StackRoom 3) (ret : BitVec 32) (small large : Nat) :
    (d.pushPc ret small large).isSome := by
  obtain ⟨d1, hp⟩ := pushRet_isSome (h.mono (by unfold ModelConf.retBytes; split <;> omega)) ret
  rw [pushPc, hp]; rfl

/-- Three bytes above SP in internal SRAM, with no 16-bit wrap. -/
theorem popPc_isSome {d : Device} (h0 : MEM_SRAM_START ≤ d.cpu.sp.toNat + 1)
    (h1 : d.cpu.sp.toNat + 3 < MEM_SRAM_START + d.sram.length) (hw : d.cpu.sp.toNat + 3 < 2 ^ 16) :
    d.popPc.isSome := by
  have hr : d.conf.retBytes ≤ 3 := by unfold ModelConf.retBytes; split <;> omega
  have hsp : (d.cpu.sp + BitVec.ofNat 16 d.conf.retBytes).toNat = d.cpu.sp.toNat + d.conf.retBytes := by
    rw [BitVec.toNat_add, BitVec.toNat_ofNat, Nat.mod_eq_of_lt (by omega : d.conf.retBytes < 2 ^ 16),
      Nat.mod_eq_of_lt (by omega)]
  rw [popPc_eq, Option.isSome_map']
  exact stackGet_isSome fun k hk => by
    show MEM_SRAM_START + k ≤ (d.cpu.sp + _).toNat ∧ (d.cpu.sp + _).toNat < MEM_SRAM_START + d.sram.length + k
    rw [hsp]; omega

/-- **Only flash reads past the image and stack accesses outside SRAM fail.** For every state
whose word after the PC, LPM word and ELPM word are in `flash_data_`, with the three bytes at
and below SP and the three above SP in `sram_data_` (and no 16-bit wrap above SP), every
instruction has a result. -/
theorem execute_isSome {d : Device} (hpc : (d.cpu.pc + 1).toNat < d.flash.length)
    (hz : (d.regz >>> 1).toNat < d.flash.length)
    (he : ((d.regz >>> 1).toNat ||| d.cpu.rampz.toNat <<< 7) < d.flash.length)
    (hdown : d.StackRoom 3) (hup0 : MEM_SRAM_START ≤ d.cpu.sp.toNat + 1)
    (hup1 : d.cpu.sp.toNat + 3 < MEM_SRAM_START + d.sram.length) (hw : d.cpu.sp.toNat + 3 < 2 ^ 16)
    (i : Instr) : (d.execute i).isSome := by
  have hpop : (d.setSp (d.cpu.sp + 1)).StackRoom 1 := fun k hk => by
    show MEM_SRAM_START + k ≤ (d.cpu.sp + 1).toNat ∧
      (d.cpu.sp + 1).toNat < MEM_SRAM_START + d.sram.length + k
    rw [toNat_sp_add_one (by omega)]; omega
  cases i <;> try dsimp only [execute]
  case call =>
    obtain ⟨op2, hop⟩ := Option.isSome_iff_exists.1 (flashAt_isSome hpc)
    rw [hop, Option.some_bind, Option.isSome_map']
    exact pushPc_isSome hdown _ _ _
  case eicall =>
    obtain ⟨d1, hs⟩ := stackSet_isSome hdown (d.cpu.pc + 1)
    split
    · rfl
    · rw [hs]; rfl
  case ret => exact popPc_isSome hup0 hup1 hw
  case reti => exact popPc_isSome (d := { d with pmicStatus := _ }) hup0 hup1 hw
  case pop => rw [Option.isSome_map', stackByte_of_room hpop Nat.one_pos]; rfl
  case push => rw [Option.isSome_map', stackByte_of_room hdown (by decide)]; rfl
  all_goals first
    | rfl
    | (rw [Option.isSome_map']
       first
         | exact flashAt_isSome hpc
         | exact flashAt_isSome hz
         | exact flashAt_isSome he
         | exact pushPc_isSome hdown _ _ _)
    | (split <;> first | rfl | exact skip_isSome hpc _ _)

/-- A reset device with 16 bytes of SRAM and SP moved to `0x2008`. -/
def stackDemo : Device := (create ⟨0x400, 0x40, 0x40, 0, 0x10, false⟩ .core false).reset.setSp 0x2008

theorem stackDemo_defined :
    (stackDemo.cpu.pc + 1).toNat < stackDemo.flash.length ∧
      (stackDemo.regz >>> 1).toNat < stackDemo.flash.length ∧
      ((stackDemo.regz >>> 1).toNat ||| stackDemo.cpu.rampz.toNat <<< 7) < stackDemo.flash.length ∧
      stackDemo.StackRoom 3 ∧ MEM_SRAM_START ≤ stackDemo.cpu.sp.toNat + 1 ∧
      stackDemo.cpu.sp.toNat + 3 < MEM_SRAM_START + stackDemo.sram.length ∧
      stackDemo.cpu.sp.toNat + 3 < 2 ^ 16 ∧ ∀ i, (stackDemo.execute i).isSome := by
  have hf := stackDemo.flash_length
  have hs := stackDemo.sram_length
  have hroom : stackDemo.StackRoom 3 := by unfold StackRoom; rw [hs]; decide
  exact ⟨by rw [hf]; decide, by rw [hf]; decide, by rw [hf]; decide, hroom, by decide, by rw [hs]; decide,
    by decide, execute_isSome (by rw [hf]; decide) (by rw [hf]; decide) (by rw [hf]; decide) hroom
      (by decide) (by rw [hs]; decide) (by decide)⟩

end Device

end Megumi
