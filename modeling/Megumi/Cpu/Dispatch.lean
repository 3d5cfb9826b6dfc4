import Megumi.Blocks
import Megumi.Config
import Megumi.Cpu.Stack

/-!
# Interrupt arbitration

`Device::processPendingInterrupts` (`src/device.cpp`) tests the current level and the four
queues in one chain of early returns: `return false` as soon as the current level reaches the
level under test, else that level when its queue is enabled and not empty. Read as a whole, the
chain serves the highest enabled pending level (`highestPending`: NMI is always enabled, HI, MED
and LO need their bit of PMIC CTRL) exactly when that level lies above `currentIntLvl()`
(`arbitrate_eq_highest`). From that one equation: a `false` return leaves the device as it was,
and a `true` return takes the smallest vector of that level's queue, sets the level's bit in PMIC
STATUS and calls `executeIv` on the block that owns the vector.
-/

namespace Megumi

namespace IvPending

open IntLvl

/-- The highest level with an enabled, non-empty queue, or `INTLVL_NONE`. -/
def highestPending (p : IvPending) (ctrl : BitVec 8) : IntLvl :=
  if p.nmi.Nonempty then .nmi
  else if hilvlen ctrl ∧ p.hi.Nonempty then .hi
  else if medlvlen ctrl ∧ p.med.Nonempty then .med
  else if lolvlen ctrl ∧ p.lo.Nonempty then .lo
  else .none

/-- The chain of early returns serves the highest enabled pending level when it lies above the
current one, and nothing otherwise. -/
theorem arbitrate_eq_highest (p : IvPending) (intlvl : IntLvl) (ctrl : BitVec 8) :
    p.arbitrate intlvl ctrl =
      if intlvl.toNat < (p.highestPending ctrl).toNat then p.highestPending ctrl else .none := by
  unfold arbitrate highestPending
  generalize intlvl.toNat = n
  -- one case per level `highestPending` picks, then on whether `n` lies below it
  by_cases h1 : p.nmi.Nonempty
  · simp only [h1, if_true, IntLvl.toNat]
    rcases Nat.lt_or_ge n 4 with hn | hn <;> simp (disch := omega) only [if_pos, if_neg, ite_self]
  by_cases h2 : hilvlen ctrl ∧ p.hi.Nonempty
  · simp only [h1, h2, and_self, if_true, if_false, IntLvl.toNat]
    rcases Nat.lt_or_ge n 3 with hn | hn <;> simp (disch := omega) only [if_pos, if_neg, ite_self]
  by_cases h3 : medlvlen ctrl ∧ p.med.Nonempty
  · simp only [h1, h2, h3, and_self, if_true, if_false, IntLvl.toNat]
    rcases Nat.lt_or_ge n 2 with hn | hn <;> simp (disch := omega) only [if_pos, if_neg, ite_self]
  by_cases h4 : lolvlen ctrl ∧ p.lo.Nonempty
  · simp only [h1, h2, h3, h4, and_self, if_true, if_false, IntLvl.toNat]
    rcases Nat.lt_or_ge n 1 with hn | hn <;> simp (disch := omega) only [if_pos, if_neg, ite_self]
  · simp only [h1, h2, h3, h4, if_false, ite_self]

theorem arbitrate_of_lt {p : IvPending} {intlvl : IntLvl} {ctrl : BitVec 8}
    (h : intlvl.toNat < (p.highestPending ctrl).toNat) :
    p.arbitrate intlvl ctrl = p.highestPending ctrl := by
  rw [arbitrate_eq_highest, if_pos h]

theorem arbitrate_of_not_lt {p : IvPending} {intlvl : IntLvl} {ctrl : BitVec 8}
    (h : ¬ intlvl.toNat < (p.highestPending ctrl).toNat) : p.arbitrate intlvl ctrl = .none := by
  rw [arbitrate_eq_highest, if_neg h]

/-- A level above the current one that `highestPending` picks has a vector to serve. -/
theorem queue_highestPending_nonempty {p : IvPending} {intlvl : IntLvl} {ctrl : BitVec 8}
    (h : intlvl.toNat < (p.highestPending ctrl).toNat) :
    (p.queue (p.highestPending ctrl)).Nonempty := by
  have ha := arbitrate_of_lt h
  have hL : p.arbitrate intlvl ctrl ≠ .none := by
    rw [ha]; intro e; rw [e] at h; exact Nat.not_lt_zero _ h
  exact ha ▸ (arbitrate_spec hL).2

/-- Serving a level erases the smallest vector of its queue and leaves every other queue. -/
theorem take_queue {p : IvPending} {l : IntLvl} (h : (p.queue l).Nonempty) (m : IntLvl) :
    (p.take l).queue m = if m = l then (p.queue l).erase ((p.queue l).min' h) else p.queue m := by
  have hl : l ≠ .none := fun e => by subst e; simp at h
  rw [take, dif_pos h, queue_setQueue _ _ hl]
  rfl

end IvPending

namespace Device

open IvPending

/-- With no enabled pending level above the current one, `processPendingInterrupts` returns
`false` and changes nothing. -/
theorem processPendingInterrupts_of_not_lt {d : Device}
    (h : ¬ (currentIntLvl d.pmicStatus).toNat < (d.ivPending.highestPending d.pmicCtrl).toNat) :
    d.processPendingInterrupts = some (d, false) := by
  rw [processPendingInterrupts]
  simp only [arbitrate_of_not_lt h, queue_none, Finset.not_nonempty_empty, dite_false]

/-- What a dispatch leaves: the served level is the highest enabled pending one and lies above
the current level, its smallest vector is taken, its bit is set in PMIC STATUS, and `executeIv`
is called on the connected block that holds the vector, at the vector's index in the block. -/
theorem processPendingInterrupts_true {d d' : Device}
    (h : d.processPendingInterrupts = some (d', true)) :
    (currentIntLvl d.pmicStatus).toNat < (d.ivPending.highestPending d.pmicCtrl).toNat ∧
      ∃ hne : (d.ivPending.queue (d.ivPending.highestPending d.pmicCtrl)).Nonempty,
        d'.ivPending = d.ivPending.take (d.ivPending.highestPending d.pmicCtrl) ∧
        d'.pmicStatus = d.pmicStatus ||| (d.ivPending.highestPending d.pmicCtrl).bit ∧
        d.dispatchIv = some ((d.ivPending.queue (d.ivPending.highestPending d.pmicCtrl)).min' hne) ∧
        ∃ c ∈ d.blocks.wiring.blocks,
          c.hasIv ((d.ivPending.queue (d.ivPending.highestPending d.pmicCtrl)).min' hne) ∧
          d'.ivCalls = d.ivCalls ++
            [(c, (d.ivPending.queue (d.ivPending.highestPending d.pmicCtrl)).min' hne - c.ivBase)] := by
  by_cases hlt : (currentIntLvl d.pmicStatus).toNat < (d.ivPending.highestPending d.pmicCtrl).toNat
  · have ha := arbitrate_of_lt hlt
    have hne := queue_highestPending_nonempty hlt
    rw [processPendingInterrupts] at h
    simp only [ha, dif_pos hne] at h
    obtain ⟨_, hcall, h⟩ := Option.bind_eq_some.1 h
    obtain ⟨d'', hp, he⟩ := Option.map_eq_some'.1 h
    cases he
    obtain ⟨⟨sram, hl, rfl⟩, -⟩ := pushRet_spec hp
    -- `iv_blocks_[iv_num]` is the connected block whose vectors hold `iv_num`
    obtain ⟨c, hc, rfl⟩ := Option.map_eq_some'.1 hcall
    obtain ⟨hmem, hciv⟩ := (d.blocks.connected.owns.iv _ c).1 hc
    exact ⟨hlt, hne, rfl, rfl, by simp only [dispatchIv, ha, dif_pos hne]; rfl, c, hmem, hciv, rfl⟩
  · rw [processPendingInterrupts_of_not_lt hlt] at h
    cases h

/-- A `false` return comes only from the early returns, which change nothing. -/
theorem processPendingInterrupts_false_spec {d d' : Device}
    (h : d.processPendingInterrupts = some (d', false)) :
    d' = d ∧ ¬ (currentIntLvl d.pmicStatus).toNat < (d.ivPending.highestPending d.pmicCtrl).toNat := by
  by_cases hlt : (currentIntLvl d.pmicStatus).toNat < (d.ivPending.highestPending d.pmicCtrl).toNat
  · rw [processPendingInterrupts] at h
    simp only [arbitrate_of_lt hlt, dif_pos (queue_highestPending_nonempty hlt)] at h
    obtain ⟨_, -, h⟩ := Option.bind_eq_some.1 h
    obtain ⟨_, -, he⟩ := Option.map_eq_some'.1 h
    cases he
  · rw [processPendingInterrupts_of_not_lt hlt] at h
    exact ⟨(Prod.mk.inj (Option.some.inj h)).1.symm, hlt⟩

/-- With room for the return address and every pending vector held by a connected block, an
enabled pending level above the current one is served. -/
theorem processPendingInterrupts_of_lt {d : Device}
    (h : (currentIntLvl d.pmicStatus).toNat < (d.ivPending.highestPending d.pmicCtrl).toNat)
    (hroom : d.StackRoom d.conf.retBytes)
    (hown : ∀ L, ∀ v ∈ d.ivPending.queue L, ∃ c ∈ d.blocks.wiring.blocks, c.hasIv v) :
    ∃ d', d.processPendingInterrupts = some (d', true) := by
  have hne := queue_highestPending_nonempty h
  obtain ⟨c, hc, hcv⟩ := hown _ _ (Finset.min'_mem _ hne)
  obtain ⟨d'', hp⟩ := pushRet_isSome (d := { d with
    ivPending := d.ivPending.take (d.ivPending.highestPending d.pmicCtrl),
    pmicStatus := d.pmicStatus ||| (d.ivPending.highestPending d.pmicCtrl).bit,
    ivCalls := d.ivCalls ++ [(c, (d.ivPending.queue (d.ivPending.highestPending d.pmicCtrl)).min' hne -
      c.ivBase)] }) hroom d.cpu.pc
  rw [processPendingInterrupts]
  simp only [arbitrate_of_lt h, dif_pos hne]
  rw [show d.blocks.wiring.ivCall (d.ivPending.first _ hne) = some (c,
      (d.ivPending.queue (d.ivPending.highestPending d.pmicCtrl)).min' hne - c.ivBase) from
    (d.blocks.connected.owns.ivCall_of_hasIv hc hcv).1, Option.some_bind, hp, Option.map_some']
  exact ⟨_, rfl⟩

/-- The PC a dispatch sets, in the 32 bits of the model's PC: `2 * iv_num`, plus
`flash_boot_start_` when IVSEL is set. -/
theorem processPendingInterrupts_pc {d d' : Device} (h : d.processPendingInterrupts = some (d', true)) :
    ∃ iv, d.dispatchIv = some iv ∧ d'.cpu.pc = BitVec.ofNat 32 (2 * iv) +
      (if ivsel d.pmicCtrl then BitVec.ofNat 32 d.conf.flashBootStart else 0) := by
  obtain ⟨hlt, hne, -, -, hiv, -⟩ := processPendingInterrupts_true h
  refine ⟨_, hiv, ?_⟩
  rw [processPendingInterrupts] at h
  simp only [arbitrate_of_lt hlt, dif_pos hne] at h
  obtain ⟨_, -, h⟩ := Option.bind_eq_some.1 h
  obtain ⟨_, -, he⟩ := Option.map_eq_some'.1 h
  cases he
  rfl

/-- An accepted layout starts the boot section above half the flash: the boot section is the
smaller of the two. -/
theorem half_flash_lt_flashBootStart {m : ModelConf} (h : m.Accepted) :
    m.flashSize / 2 < m.flashBootStart := by
  have := h.layout.app_add_boot
  have := h.layout.boot_lt_app
  unfold ModelConf.flashBootStart
  omega

/-- **IVSEL.** With IVSEL set, a dispatch on an accepted configuration sets PC to the byte
address `flash_boot_start_` plus `2 * iv`, as a word address: above half the flash's bytes, so
past the `flash_size / 2` words of `flash_data_`, and not the boot section's vector
`flash_boot_start / 2 + 2 * iv`. -/
theorem dispatch_ivsel_past_flash {d d' : Device} (hacc : d.conf.Accepted)
    (hsz : d.conf.flashSize ≤ 2 ^ 31) (hiv : ∀ L, ∀ v ∈ d.ivPending.queue L, v < IV_MAX_COUNT)
    (hsel : ivsel d.pmicCtrl = true) (h : d.processPendingInterrupts = some (d', true)) :
    ∃ iv, d.dispatchIv = some iv ∧ iv < IV_MAX_COUNT ∧
      d'.cpu.pc.toNat = d.conf.flashBootStart + 2 * iv ∧
      d.conf.flashSize / 2 < d'.cpu.pc.toNat ∧
      d'.cpu.pc.toNat ≠ d.conf.flashBootStart / 2 + 2 * iv := by
  obtain ⟨iv, hd, hpc⟩ := processPendingInterrupts_pc h
  obtain ⟨-, hne, -, -, hmin, -⟩ := processPendingInterrupts_true h
  have hlt : iv < IV_MAX_COUNT := by
    rw [hmin, Option.some.injEq] at hd
    exact hd ▸ hiv _ _ (Finset.min'_mem _ hne)
  have hstart := half_flash_lt_flashBootStart hacc
  have hle : d.conf.flashBootStart ≤ d.conf.flashSize := Nat.sub_le ..
  have hval : d'.cpu.pc.toNat = d.conf.flashBootStart + 2 * iv := by
    rw [hpc, hsel, if_pos rfl, BitVec.toNat_add, BitVec.toNat_ofNat, BitVec.toNat_ofNat]
    unfold IV_MAX_COUNT at hlt
    rw [Nat.mod_eq_of_lt (by omega), Nat.mod_eq_of_lt (by omega), Nat.mod_eq_of_lt (by omega)]
    omega
  exact ⟨iv, hd, hlt, hval, by omega, by omega⟩

/-- A reset device with 128 KiB of application section and 8 KiB of boot section, 16 bytes of
SRAM, a TC block owning vectors 1 to 6, vector 3 pending at level LO, LO enabled and IVSEL
set. -/
def ivselDemo : Device :=
  let d := (create ⟨0x22000, 0x200, 0x2000, 0x800, 0x10, false⟩ .withTc false).reset
  { d with ivPending := ⟨{3}, ∅, ∅, ∅⟩, pmicCtrl := 0x41 }

theorem ivselDemo_past_flash : ∃ d', ivselDemo.processPendingInterrupts = some (d', true) ∧
    ∃ iv, ivselDemo.dispatchIv = some iv ∧ iv < IV_MAX_COUNT ∧
      d'.cpu.pc.toNat = ivselDemo.conf.flashBootStart + 2 * iv ∧
      ivselDemo.conf.flashSize / 2 < d'.cpu.pc.toNat ∧
      d'.cpu.pc.toNat ≠ ivselDemo.conf.flashBootStart / 2 + 2 * iv :=
  ⟨_, rfl, dispatch_ivsel_past_flash (by decide) (by decide)
    (fun L v hv => by cases L <;> simp_all [IvPending.queue, ivselDemo, IV_MAX_COUNT]) rfl rfl⟩

end Device

open Device IvPending in
/-- **Interrupt arbitration.** `processPendingInterrupts` returns `true` exactly when the highest
enabled pending level lies above `currentIntLvl()` (given room for the return address on the
stack and a connected block for every pending vector, it then does return); a `false` return
leaves the device as it was. A `true` return erases the smallest vector of that level's queue
and no other queue entry, sets the level's bit `1 << (L-1)` in PMIC STATUS, and calls
`executeIv(iv_num - iv_base())` on the connected block that holds the vector. -/
theorem processPendingInterrupts_serves_highest (d : Device) :
    ((currentIntLvl d.pmicStatus).toNat < (d.ivPending.highestPending d.pmicCtrl).toNat →
      d.StackRoom d.conf.retBytes →
      (∀ L, ∀ v ∈ d.ivPending.queue L, ∃ c ∈ d.blocks.wiring.blocks, c.hasIv v) →
      ∃ d', d.processPendingInterrupts = some (d', true)) ∧
    (∀ d' b, d.processPendingInterrupts = some (d', b) →
      (b = true ↔
        (currentIntLvl d.pmicStatus).toNat < (d.ivPending.highestPending d.pmicCtrl).toNat)) ∧
    (∀ d', d.processPendingInterrupts = some (d', false) → d' = d) ∧
    ∀ d', d.processPendingInterrupts = some (d', true) →
      ∃ hne : (d.ivPending.queue (d.ivPending.highestPending d.pmicCtrl)).Nonempty,
        (∀ L, d'.ivPending.queue L = if L = d.ivPending.highestPending d.pmicCtrl then
          (d.ivPending.queue (d.ivPending.highestPending d.pmicCtrl)).erase
            ((d.ivPending.queue (d.ivPending.highestPending d.pmicCtrl)).min' hne)
          else d.ivPending.queue L) ∧
        d'.pmicStatus = d.pmicStatus ||| (d.ivPending.highestPending d.pmicCtrl).bit ∧
        ∃ c ∈ d.blocks.wiring.blocks,
          c.hasIv ((d.ivPending.queue (d.ivPending.highestPending d.pmicCtrl)).min' hne) ∧
          d'.ivCalls = d.ivCalls ++
            [(c, (d.ivPending.queue (d.ivPending.highestPending d.pmicCtrl)).min' hne - c.ivBase)] := by
  refine ⟨fun h => processPendingInterrupts_of_lt h, fun d' b hd => ?_, fun d' hd => ?_,
    fun d' hd => ?_⟩
  · cases b
    · exact iff_of_false Bool.false_ne_true (processPendingInterrupts_false_spec hd).2
    · exact iff_of_true rfl (processPendingInterrupts_true hd).1
  · exact (processPendingInterrupts_false_spec hd).1
  · obtain ⟨-, hne, hq, hs, -, hcall⟩ := processPendingInterrupts_true hd
    exact ⟨hne, fun L => by rw [hq, take_queue hne], hs, hcall⟩

open Device in
/-- `loDemo` has vector 3 pending at LO, held by its TC block, LO enabled, nothing in service and
room on its stack: the dispatch happens. -/
theorem loDemo_serves_lo : ∃ d', loDemo.processPendingInterrupts = some (d', true) :=
  (processPendingInterrupts_serves_highest loDemo).1 (by decide) (by unfold StackRoom; decide)
    fun L v hv => ⟨Wiring.tcBlock, by decide, by cases L <;> simp_all [loDemo, IvPending.queue]; decide⟩

end Megumi
