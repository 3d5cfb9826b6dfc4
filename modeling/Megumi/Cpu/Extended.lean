import Megumi.Config
import Megumi.Cpu.Pointer

/-!
# Extended addressing through RAMPX, RAMPY, RAMPZ, RAMPD and EIND

An address above 64 KiB is a 16-bit part in a register pair (or the LDS/STS operand) and a high
byte in an extension register: `LD`/`ST` access `regP_ | (cpu_.rampP_ << 16)`, `LDS`/`STS`
access `k | (cpu_.rampd_ << 16)`, and `EIJMP`/`EICALL` jump to `regz_ | (cpu_.eind_ << 16)`
(`src/device.cpp`). `CPU::setIo` masks what it writes to a RAMP register with `ramp_mask_` and
what it writes to EIND with `eind_mask_` (`src/unnamed/part_000`).

Writing `a >> 16` and `a & 0xFFFF` therefore forms `a` exactly when the mask keeps every bit
of `a >> 16` (`extAddr_eq_iff`), which the masks the CPU computes do not always do: with
external SRAM, `ramp_mask_` is 0 (`rampMask_of_hasExsram`), and `eind_mask_` is
`flash_size >> 9` cut to 8 bits, `0x10` for a flash of `0x22000` bytes.
-/

namespace Megumi

/-- `lo | (hi << 16)` of a 16-bit `lo` is a sum. -/
theorem or_shiftLeft_sixteen {lo : Nat} (h : lo < 2 ^ 16) (hi : Nat) :
    lo ||| hi <<< 16 = 2 ^ 16 * hi + lo := by
  rw [Nat.or_comm, Nat.shiftLeft_eq, Nat.mul_comm, Nat.mul_add_lt_is_or h]

/-- The address formed from `a & 0xFFFF` and the high byte `a >> 16` masked with `M` is `a`
exactly when the mask keeps that byte. -/
theorem extAddr_eq_iff {a : Nat} (ha : a < 2 ^ 24) (M : BitVec 8) :
    (BitVec.ofNat 16 a).toNat ||| (BitVec.ofNat 8 (a >>> 16) &&& M).toNat <<< 16 = a ↔
      BitVec.ofNat 8 (a >>> 16) &&& M = BitVec.ofNat 8 (a >>> 16) := by
  have hhi : (BitVec.ofNat 8 (a >>> 16)).toNat = a / 2 ^ 16 := by
    rw [BitVec.toNat_ofNat, Nat.shiftRight_eq_div_pow]; omega
  rw [or_shiftLeft_sixteen (BitVec.isLt _), BitVec.toNat_ofNat, BitVec.toNat_eq, hhi]
  omega

/-- The 32-bit jump target `regz_ | (eind_ << 16)`, as a number. -/
theorem toNat_eindTarget (z : BitVec 16) (e : BitVec 8) :
    (z.zeroExtend 32 ||| e.zeroExtend 32 <<< 16).toNat = z.toNat ||| e.toNat <<< 16 := by
  have hz : z.toNat % 2 ^ 32 = z.toNat := Nat.mod_eq_of_lt (by have := z.isLt; omega)
  have he : e.toNat % 2 ^ 32 = e.toNat := Nat.mod_eq_of_lt (by have := e.isLt; omega)
  have hs : e.toNat <<< 16 % 2 ^ 32 = e.toNat <<< 16 :=
    Nat.mod_eq_of_lt (by have := e.isLt; rw [Nat.shiftLeft_eq]; omega)
  rw [BitVec.toNat_or, BitVec.toNat_shiftLeft, BitVec.toNat_setWidth, BitVec.toNat_setWidth, hz,
    he, hs]

namespace Device

/-! ## What `CPU::setIo` writes -/

theorem ramp_cpuSetIo_rampIo (d : Device) (p : Ptr) (v : BitVec 8) :
    (d.cpuSetIo p.rampIo v).ramp p = v &&& d.rampMask := by
  cases p <;> rfl

theorem rampd_cpuSetIo (d : Device) (v : BitVec 8) :
    (d.cpuSetIo 0x08 v).cpu.rampd = v &&& d.rampMask := rfl

theorem eind_cpuSetIo (d : Device) (v : BitVec 8) :
    (d.cpuSetIo 0x0C v).cpu.eind = v &&& d.eindMask := rfl

/-- A program's set-up of an extended pointer: `CPU::setIo` writes `a >> 16` to `RAMPP`, then
`a & 0xFFFF` goes to the pair `P`. -/
def pointAt (d : Device) (p : Ptr) (a : Nat) : Device :=
  (d.cpuSetIo p.rampIo (BitVec.ofNat 8 (a >>> 16))).setPair p.reg (BitVec.ofNat 16 a)

theorem ptrAddr_pointAt (d : Device) (p : Ptr) (a : Nat) :
    (d.pointAt p a).ptrAddr p =
      (BitVec.ofNat 16 a).toNat ||| (BitVec.ofNat 8 (a >>> 16) &&& d.rampMask).toNat <<< 16 := by
  rw [pointAt, ptrAddr, getPair_setPair, ramp_setPair, ramp_cpuSetIo_rampIo]

/-! ## EIJMP and EICALL -/

theorem execute_eijmp {d : Device} (h : d.conf.smallFlash = false) :
    d.execute .eijmp =
      some (d.setPc (d.regz.zeroExtend 32 ||| (d.cpu.eind.zeroExtend 32 <<< 16)), 2) := by
  show (if d.conf.smallFlash then _ else _) = _
  rw [h, if_neg Bool.false_ne_true]

/-- A successful EICALL jumps where EIJMP does. -/
theorem execute_eicall_pc {d d' : Device} {c : Nat} (h : d.conf.smallFlash = false)
    (hc : d.execute .eicall = some (d', c)) :
    d'.cpu.pc = d.regz.zeroExtend 32 ||| (d.cpu.eind.zeroExtend 32 <<< 16) := by
  change (if d.conf.smallFlash then _ else _) = _ at hc
  rw [h, if_neg Bool.false_ne_true] at hc
  obtain ⟨_, -, he⟩ := Option.map_eq_some'.1 hc
  cases he
  rfl

/-- A program's set-up of an EIJMP/EICALL target: `CPU::setIo` writes `w >> 16` to EIND, then
`w & 0xFFFF` goes to Z. -/
def eindAt (d : Device) (w : Nat) : Device :=
  (d.cpuSetIo 0x0C (BitVec.ofNat 8 (w >>> 16))).setPair 30 (BitVec.ofNat 16 w)

theorem eindTarget_eindAt (d : Device) (w : Nat) :
    ((d.eindAt w).regz.zeroExtend 32 ||| ((d.eindAt w).cpu.eind.zeroExtend 32 <<< 16)).toNat =
      (BitVec.ofNat 16 w).toNat ||| (BitVec.ofNat 8 (w >>> 16) &&& d.eindMask).toNat <<< 16 := by
  rw [toNat_eindTarget, eindAt, regz, getPair_setPair, setPair_cpu, eind_cpuSetIo]

theorem eindAt_conf (d : Device) (w : Nat) : (d.eindAt w).conf = d.conf := rfl

end Device

open Device in
/-- **Extended addressing.** On an accepted configuration, writing `a >> 16` to a RAMP register
through `CPU::setIo` and `a & 0xFFFF` to its pair (or as the LDS/STS operand) makes `LD`/`ST`
(`LDS`/`STS`) access `a` exactly when `ramp_mask_` keeps the bits of `a >> 16`, for every data
address `a`; on a flash above `0x20000` bytes, writing `w >> 16` to EIND and `w & 0xFFFF` to Z
makes EIJMP and EICALL jump to a word address `w` below `2 ^ 24` exactly when `eind_mask_` keeps
the bits of `w >> 16`. -/
theorem extended_addresses_iff (d : Device) (hacc : d.conf.Accepted) :
    (∀ p a, a < d.conf.memExsramStart + d.conf.memExsramSize →
      ((d.pointAt p a).ptrAddr p = a ↔
        BitVec.ofNat 8 (a >>> 16) &&& d.rampMask = BitVec.ofNat 8 (a >>> 16))) ∧
    (∀ a, a < d.conf.memExsramStart + d.conf.memExsramSize →
      ((BitVec.ofNat 16 a).toNat |||
          (d.cpuSetIo 0x08 (BitVec.ofNat 8 (a >>> 16))).cpu.rampd.toNat <<< 16 = a ↔
        BitVec.ofNat 8 (a >>> 16) &&& d.rampMask = BitVec.ofNat 8 (a >>> 16))) ∧
    (d.conf.smallFlash = false → ∀ w, w < d.conf.flashSize / 2 → w < 2 ^ 24 →
      (∃ d', (d.eindAt w).execute .eijmp = some (d', 2) ∧
        (d'.cpu.pc.toNat = w ↔
          BitVec.ofNat 8 (w >>> 16) &&& d.eindMask = BitVec.ofNat 8 (w >>> 16))) ∧
      ∀ d' c, (d.eindAt w).execute .eicall = some (d', c) →
        (d'.cpu.pc.toNat = w ↔
          BitVec.ofNat 8 (w >>> 16) &&& d.eindMask = BitVec.ofNat 8 (w >>> 16))) := by
  have hend := hacc.layout.exsram_end
  have h24 : ∀ a, a < d.conf.memExsramStart + d.conf.memExsramSize → a < 2 ^ 24 := fun a ha => by
    unfold MEM_MAX_SIZE at hend; omega
  refine ⟨fun p a ha => ?_, fun a ha => ?_, fun hs w _ hw => ⟨⟨_, execute_eijmp
    (by rw [eindAt_conf]; exact hs), ?_⟩, fun d' c hc => ?_⟩⟩
  · rw [ptrAddr_pointAt]; exact extAddr_eq_iff (h24 a ha) _
  · rw [rampd_cpuSetIo]; exact extAddr_eq_iff (h24 a ha) _
  · rw [setPc_pc, eindTarget_eindAt]; exact extAddr_eq_iff hw _
  · rw [execute_eicall_pc (by rw [eindAt_conf]; exact hs) hc, eindTarget_eindAt]
    exact extAddr_eq_iff hw _

namespace Device

/-- A reset device with `0x22000` bytes of flash, 8 KiB of internal SRAM and external SRAM up
to `MEM_MAX_SIZE`. -/
def extDemo : Device := (create ⟨0x22000, 0x200, 0x2000, 0x800, 0x2000, true⟩ .core false).reset

/-- On `extDemo`, `ramp_mask_` is 0 and `eind_mask_` is `0x10`: RAMPX:X set up for the data
address `0x10000` forms 0, and EIJMP set up for the flash word `0x10000` jumps to 0. -/
theorem extDemo_misses_64k :
    extDemo.conf.Accepted ∧ extDemo.rampMask = 0 ∧ extDemo.eindMask = 0x10 ∧
      (extDemo.pointAt .x 0x10000).ptrAddr .x ≠ 0x10000 ∧
      ∃ d', (extDemo.eindAt 0x10000).execute .eijmp = some (d', 2) ∧ d'.cpu.pc.toNat ≠ 0x10000 := by
  have h := extended_addresses_iff extDemo (by decide)
  obtain ⟨⟨d', hj, hpc⟩, -⟩ := h.2.2 rfl 0x10000 (by decide) (by decide)
  exact ⟨by decide, by decide, by decide,
    fun e => absurd ((h.1 .x 0x10000 (by decide)).1 e) (by decide), d', hj,
    fun e => absurd (hpc.1 e) (by decide)⟩

end Device

end Megumi
