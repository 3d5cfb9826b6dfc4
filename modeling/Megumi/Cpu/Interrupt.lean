import Megumi.Cpu.Execute

/-!
# Interrupt dispatch and RETI

`Device::processPendingInterrupts` and `Device::currentIntLvl` (`src/device.cpp`). A dispatch at
level `L` sets `1 << (L-1)` in PMIC STATUS, pushes the PC and jumps to the vector; RETI clears
the highest of `nmiex`, `hilvlex`, `medlvlex`, `lolvlex` and pops the PC. Since `L` is above
every level active at the dispatch, RETI clears exactly the dispatch's bit
(`dispatch_status`), and pops the PC it pushed, cut to the 2 or 3 bytes of the stack frame.
-/

namespace Megumi

open IvPending

/-! ## PMIC STATUS, bit by bit -/

theorem flag_or (x y : BitVec 8) (i : Nat) : flag (x ||| y) i = (flag x i || flag y i) :=
  BitVec.getLsbD_or

theorem flag_one_shiftLeft {k : Nat} (hk : k < 8) (j : Nat) : flag (1#8 <<< k) j = decide (j = k) := by
  by_cases h : k = j
  · subst h; simp [flag, BitVec.getLsbD_shiftLeft, hk]
  · rw [flag, getLsbD_one_shiftLeft_ne h]; simp [Ne.symm h]

theorem and_one_shiftLeft_ne_zero (s : BitVec 8) {k : Nat} (hk : k < 8) :
    s &&& (1#8 <<< k) ≠ 0 ↔ flag s k = true := by
  have hbit := flag_one_shiftLeft hk
  unfold flag at hbit ⊢
  constructor
  · intro h
    by_contra hs
    exact h (BitVec.eq_of_getLsbD_eq fun j => by
      rw [BitVec.getLsbD_and, hbit]
      by_cases hj : (j : Nat) = k
      · rw [hj]; simpa using hs
      · simp [hj])
  · intro hs h
    have := congrArg (fun x => x.getLsbD k) h
    simp only [BitVec.getLsbD_and, hbit, hs, BitVec.getLsbD_zero] at this
    simp at this

/-- Setting a clear bit and clearing it again gives the byte back. -/
theorem setFlag_or_one_shiftLeft (s : BitVec 8) {k : Nat} (hk : k < 8) (h : flag s k = false) :
    setFlag (s ||| (1#8 <<< k)) k false = s := by
  apply BitVec.eq_of_getLsbD_eq
  intro j
  show flag _ j = flag s j
  by_cases hj : k = (j : Nat)
  · subst hj
    exact (flag_setFlag_same _ hk false).trans h.symm
  · have := flag_setFlag_ne (s ||| (1#8 <<< k)) hj false
    rw [flag_or, flag_one_shiftLeft hk, decide_eq_false (Ne.symm hj), Bool.or_false] at this
    exact this

/-- `currentIntLvl`, read bit by bit. -/
theorem currentIntLvl_eq (s : BitVec 8) : currentIntLvl s =
    if flag s 3 then .nmi else if flag s 2 then .hi else if flag s 1 then .med
    else if flag s 0 then .lo else .none := by
  unfold currentIntLvl
  by_cases hs : s = 0
  · subst hs; rfl
  · have h3 := and_one_shiftLeft_ne_zero s (k := 3) (by decide)
    have h2 := and_one_shiftLeft_ne_zero s (k := 2) (by decide)
    have h1 := and_one_shiftLeft_ne_zero s (k := 1) (by decide)
    have h0 := and_one_shiftLeft_ne_zero s (k := 0) (by decide)
    simp only [if_neg hs, List.find?, IntLvl.bit, IntLvl.toNat]
    simp only [show 4 - 1 = 3 from rfl, show 3 - 1 = 2 from rfl, show 2 - 1 = 1 from rfl,
      show 1 - 1 = 0 from rfl, h3, h2, h1, h0]
    by_cases f3 : flag s 3 <;> by_cases f2 : flag s 2 <;> by_cases f1 : flag s 1 <;>
      by_cases f0 : flag s 0 <;> simp [f3, f2, f1, f0]

/-- A dispatch at a level above the current one sets a bit that `currentIntLvl` then reads, and
that RETI's chain clears. -/
theorem dispatch_status {s : BitVec 8} {L : IntLvl} (hL : L ≠ .none)
    (h : (currentIntLvl s).toNat < L.toNat) :
    currentIntLvl (s ||| L.bit) = L ∧ retiStatus (s ||| L.bit) = s := by
  have hk : L.toNat - 1 < 8 := by cases L <;> decide
  have hbit : ∀ j, flag (s ||| L.bit) j = (flag s j || decide (j = L.toNat - 1)) := fun j => by
    rw [flag_or, IntLvl.bit, flag_one_shiftLeft hk]
  have hclr := setFlag_or_one_shiftLeft s hk
  rw [currentIntLvl_eq] at h
  rw [currentIntLvl_eq, retiStatus]
  simp only [hbit, PmicStatus.nmiex, PmicStatus.hilvlex, PmicStatus.medlvlex, PmicStatus.lolvlex]
  cases L
  · exact absurd rfl hL
  all_goals
    simp only [IntLvl.toNat, IntLvl.bit] at h hclr ⊢
    split_ifs at h <;> first | exact absurd h (by decide) | (simp at hclr; simp [*])

namespace Device

/-- What pushing a return address leaves: the stack pointer moved down by the frame, the bytes of
`ret` in the frame, and every other field as it was. -/
theorem pushRet_spec {d d' : Device} {ret : BitVec 32} (h : d.pushRet ret = some d') :
    (∃ sram hs, d' = ({ d with sram, sram_length := hs }).setSp
        (d.cpu.sp - BitVec.ofNat 16 d.conf.retBytes)) ∧
      ∀ k < d.conf.retBytes, ∃ i, d.stackByte k = some i ∧ d'.sram.getD i 0 = byteOf ret k := by
  rw [pushRet_eq] at h
  obtain ⟨d'', hs, rfl⟩ := Option.map_eq_some'.1 h
  obtain ⟨⟨sram, hl, rfl⟩, hbytes, -⟩ := stackSet_spec hs
  exact ⟨⟨sram, hl, rfl⟩, hbytes⟩

/-- **A pushed frame pops back.** After a push of `ret` in a frame of `retBytes` bytes below
the stack pointer (`d` to `d1`), popping with the configuration, the stack pointer and the
frame's bytes as the push left them brings back the stack pointer and gives `ret` cut to the
`8 * retBytes` bits of the frame; only SP and PC change. -/
theorem popPc_of_frame {d d1 d2 : Device} {ret : BitVec 32}
    (hsp1 : d1.cpu.sp = d.cpu.sp - BitVec.ofNat 16 d.conf.retBytes)
    (hb : ∀ k < d.conf.retBytes, ∃ i, d.stackByte k = some i ∧ d1.sram.getD i 0 = byteOf ret k)
    (hconf : d2.conf = d.conf) (hsp : d2.cpu.sp = d1.cpu.sp)
    (hbytes : ∀ k < d.conf.retBytes, ∀ i, d.stackByte k = some i →
      d2.sram.getD i 0 = d1.sram.getD i 0) :
    ∃ d3 c, d2.popPc = some (d3, c) ∧ d3 = (d2.setSp d.cpu.sp).setPc d3.cpu.pc ∧
      d3.cpu.pc.toNat = ret.toNat % 2 ^ (8 * d.conf.retBytes) := by
  -- the device the pop reads the frame from
  let e := d2.setSp (d2.cpu.sp + BitVec.ofNat 16 d2.conf.retBytes)
  have hesp : e.cpu.sp = d.cpu.sp := by
    show d2.cpu.sp + BitVec.ofNat 16 d2.conf.retBytes = _
    rw [hconf, hsp, hsp1]; exact BitVec.sub_add_cancel ..
  have hlen : e.sram.length = d.sram.length := by
    show d2.sram.length = _; rw [d2.sram_length, d.sram_length, hconf]
  have he : ∀ k < d2.conf.retBytes, ∃ i, e.stackByte k = some i ∧
      e.sram.getD i 0 = byteOf ret k := by
    intro k hk
    rw [hconf] at hk
    obtain ⟨i, hi, hv⟩ := hb k hk
    exact ⟨i, (stackByte_congr hesp hlen k).trans hi, (hbytes k hk i hi).trans hv⟩
  obtain ⟨w, hw, hwv⟩ := stackGet_of_bytes (by unfold ModelConf.retBytes; split <;> omega) he
  refine ⟨e.setPc w, d2.conf.retBytes, ?_, congrArg (fun x => (d2.setSp x).setPc w) hesp, ?_⟩
  · rw [popPc_eq]
    exact (congrArg (Option.map _) hw).trans rfl
  · rw [setPc_pc, hwv, hconf]

/-- `Device::processPendingInterrupts`: the state, and whether a vector was acknowledged.
`arbitrate` is `INTLVL_NONE` exactly where the source returns `false` before taking a vector,
and the queue it serves holds one (`IvPending.arbitrate_spec`). The vector's block is
`iv_blocks_[iv_num]`; where no block holds the vector the `assert(block)` fails, and the result
is `none`, as it is when the return address falls outside `sram_data_`. The block's `executeIv`
bodies are not in the repository (only TC declares one): the call is recorded in `ivCalls`. -/
def processPendingInterrupts (d : Device) : Option (Device × Bool) :=
  let lvl := d.ivPending.arbitrate (currentIntLvl d.pmicStatus) d.pmicCtrl
  if h : (d.ivPending.queue lvl).Nonempty then
    let ivNum := d.ivPending.first lvl h
    let ivAddr := BitVec.ofNat 32 (2 * ivNum) +
      (if ivsel d.pmicCtrl then BitVec.ofNat 32 d.conf.flashBootStart else 0)
    (d.blocks.wiring.ivCall ivNum).bind fun call =>
      ({ d with
          ivPending := d.ivPending.take lvl
          pmicStatus := d.pmicStatus ||| lvl.bit
          ivCalls := d.ivCalls ++ [call] }.pushRet d.cpu.pc).map
        fun (d' : Device) => (d'.setPc ivAddr, true)
  else some (d, false)

/-- A dispatch serves a level above the current one, sets its bit in PMIC STATUS, and pushes the
PC in a frame of `retBytes` bytes below the stack pointer. -/
theorem processPendingInterrupts_dispatch {d d1 : Device}
    (h : d.processPendingInterrupts = some (d1, true)) :
    ∃ L : IntLvl, L ≠ .none ∧ (currentIntLvl d.pmicStatus).toNat < L.toNat ∧
      d1.pmicStatus = d.pmicStatus ||| L.bit ∧ d1.conf = d.conf ∧
      d1.cpu.sp = d.cpu.sp - BitVec.ofNat 16 d.conf.retBytes ∧
      ∀ k < d.conf.retBytes, ∃ i, d.stackByte k = some i ∧ d1.sram.getD i 0 = byteOf d.cpu.pc k := by
  simp only [processPendingInterrupts] at h
  by_cases hne : (d.ivPending.queue (d.ivPending.arbitrate (currentIntLvl d.pmicStatus)
    d.pmicCtrl)).Nonempty
  · rw [dif_pos hne] at h
    obtain ⟨_, -, h⟩ := Option.bind_eq_some.1 h
    obtain ⟨d', hp, he⟩ := Option.map_eq_some'.1 h
    cases he
    obtain ⟨⟨sram, hl, rfl⟩, hbytes⟩ := pushRet_spec hp
    have hL : d.ivPending.arbitrate (currentIntLvl d.pmicStatus) d.pmicCtrl ≠ .none := fun e => by
      rw [e] at hne; simp [queue_none] at hne
    exact ⟨_, hL, (arbitrate_spec hL).1, rfl, rfl, rfl, hbytes⟩
  · rw [dif_neg hne] at h
    cases h

/-- RETI after a dispatch, with PMIC STATUS, the stack pointer and the frame's bytes as the
dispatch left them: STATUS and the stack pointer come back, and the PC comes back cut to the
`8 * retBytes` bits of the frame. -/
theorem dispatch_reti {d d1 d2 : Device} (hd : d.processPendingInterrupts = some (d1, true))
    (hconf : d2.conf = d1.conf) (hstatus : d2.pmicStatus = d1.pmicStatus)
    (hsp : d2.cpu.sp = d1.cpu.sp)
    (hbytes : ∀ k < d.conf.retBytes, ∀ i, d.stackByte k = some i →
      d2.sram.getD i 0 = d1.sram.getD i 0) :
    ∃ d3 c, d2.execute .reti = some (d3, c) ∧ d3.pmicStatus = d.pmicStatus ∧
      d3.cpu.sp = d.cpu.sp ∧ d3.cpu.pc.toNat = d.cpu.pc.toNat % 2 ^ (8 * d.conf.retBytes) := by
  obtain ⟨L, hL, hlt, hst, hc, hs, hb⟩ := processPendingInterrupts_dispatch hd
  let X : Device := { d2 with pmicStatus := retiStatus d2.pmicStatus }
  obtain ⟨d3, c, hpop, hd3, hpc⟩ :=
    popPc_of_frame hs hb (show X.conf = d.conf from hconf.trans hc) hsp hbytes
  refine ⟨d3, c, hpop, ?_, by rw [hd3]; rfl, hpc⟩
  rw [hd3]
  show retiStatus d2.pmicStatus = _
  rw [hstatus, hst, (dispatch_status hL hlt).2]

/-- A PC below `2 ^ (8 * retBytes)` fits in the frame: a flash word address does when the
flash is small, and one below `2 ^ 24` does when it is not. -/
theorem pc_lt_frame {m : ModelConf} {pc : Nat} (hpc : pc < m.flashSize / 2) (h24 : pc < 2 ^ 24) :
    pc < 2 ^ (8 * m.retBytes) := by
  unfold ModelConf.retBytes ModelConf.smallFlash
  split
  · show pc < 65536; simp_all only [decide_eq_true_eq]; omega
  · exact h24

/-- Interrupt entry then RETI, for a PC that is a flash word address below `2 ^ 24`: the
dispatch at level `L` sets the bit of `L`, which `currentIntLvl` then reads, and RETI, run
while STATUS, SP and the frame's bytes are as the dispatch left them, clears that bit and
brings back STATUS, SP and PC. -/
theorem dispatch_reti_round_trip {d d1 d2 : Device}
    (hd : d.processPendingInterrupts = some (d1, true))
    (hpc : d.cpu.pc.toNat < d.conf.flashSize / 2) (h24 : d.cpu.pc.toNat < 2 ^ 24)
    (hconf : d2.conf = d1.conf) (hstatus : d2.pmicStatus = d1.pmicStatus)
    (hsp : d2.cpu.sp = d1.cpu.sp)
    (hbytes : ∀ k < d.conf.retBytes, ∀ i, d.stackByte k = some i →
      d2.sram.getD i 0 = d1.sram.getD i 0) :
    (∃ L : IntLvl, (currentIntLvl d.pmicStatus).toNat < L.toNat ∧
      d1.pmicStatus = d.pmicStatus ||| L.bit ∧ currentIntLvl d1.pmicStatus = L ∧
      retiStatus d1.pmicStatus = d.pmicStatus) ∧
    ∃ d3 c, d2.execute .reti = some (d3, c) ∧ d3.pmicStatus = d.pmicStatus ∧
      d3.cpu.sp = d.cpu.sp ∧ d3.cpu.pc = d.cpu.pc := by
  obtain ⟨L, hL, hlt, hst, -⟩ := processPendingInterrupts_dispatch hd
  obtain ⟨d3, c, hr, h1, h2, h3⟩ := dispatch_reti hd hconf hstatus hsp hbytes
  refine ⟨⟨L, hlt, hst, hst ▸ dispatch_status hL hlt⟩, d3, c, hr, h1, h2, ?_⟩
  exact BitVec.eq_of_toNat_eq (h3.trans (Nat.mod_eq_of_lt (pc_lt_frame hpc h24)))

/-- A reset device of 1 KiB of flash and 16 bytes of SRAM at `pc = 0x40`, with a TC block
owning vectors 1 to 6, vector 3 pending at level LO and LO enabled. -/
def loDemo : Device :=
  let d := (create ⟨0x400, 0x40, 0x40, 0, 0x10, false⟩ .withTc false).reset
  { d with ivPending := ⟨{3}, ∅, ∅, ∅⟩, pmicCtrl := 1, cpu := { d.cpu with pc := 0x40 } }

theorem loDemo_round_trip :
    ∃ d1, loDemo.processPendingInterrupts = some (d1, true) ∧
      (∃ L : IntLvl, (currentIntLvl loDemo.pmicStatus).toNat < L.toNat ∧
        d1.pmicStatus = loDemo.pmicStatus ||| L.bit ∧ currentIntLvl d1.pmicStatus = L ∧
        retiStatus d1.pmicStatus = loDemo.pmicStatus) ∧
      ∃ d3 c, d1.execute .reti = some (d3, c) ∧ d3.pmicStatus = loDemo.pmicStatus ∧
        d3.cpu.sp = loDemo.cpu.sp ∧ d3.cpu.pc = loDemo.cpu.pc :=
  ⟨_, rfl, dispatch_reti_round_trip rfl (by decide) (by decide) rfl rfl rfl fun _ _ _ _ => rfl⟩

/-- A device of 64 MiB of flash, which the constructor accepts, at `pc = 2 ^ 24`, with a TC
block owning vectors 1 to 6, vector 3 pending at level LO and LO enabled. -/
def bigDemo : Device :=
  let d := (create ⟨0x4000000, 0x200, 0x2000, 0, 0x10, false⟩ .withTc false).reset
  { d with ivPending := ⟨{3}, ∅, ∅, ∅⟩, pmicCtrl := 1, cpu := { d.cpu with pc := 0x1000000 } }

/-- The frame of a large flash holds 24 bits: RETI right after the dispatch at `pc = 2 ^ 24`,
a flash word address there, returns to 0. -/
theorem dispatch_reti_truncates_pc :
    bigDemo.conf.Accepted ∧ bigDemo.cpu.pc.toNat < bigDemo.conf.flashSize / 2 ∧
      ∃ d1, bigDemo.processPendingInterrupts = some (d1, true) ∧
        ∃ d3 c, d1.execute .reti = some (d3, c) ∧ d3.cpu.pc ≠ bigDemo.cpu.pc := by
  refine ⟨by decide, by decide, ?_⟩
  obtain ⟨d1, hd⟩ : ∃ d1, bigDemo.processPendingInterrupts = some (d1, true) := ⟨_, rfl⟩
  obtain ⟨d3, c, hr, -, -, hpc⟩ := dispatch_reti hd rfl rfl rfl fun _ _ _ _ => rfl
  refine ⟨d1, hd, d3, c, hr, fun h => ?_⟩
  rw [h] at hpc
  exact absurd hpc (by decide)

end Device

end Megumi
