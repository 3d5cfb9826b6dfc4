import Megumi.Cpu.Chain

/-!
# Flash images, LPM and ELPM

`Device::loadFlash` (`src/device.cpp`) writes an image over the first words of `flash_data_`,
two bytes to a word, low byte first. LPM reads the word `Z >> 1` and takes its high byte when
bit 0 of `Z` is set, so the byte LPM reads at `Z` is the image's byte `Z`
(`loadFlash_lpmByte`), and LPM Rd,Z+ walks the image one byte after another
(`lpm_inc_loads_image`).

ELPM reads the word `(z >> 1) | (cpu_.rampz_ << 7)`. Both halves sit in the low 15 bits, so
the byte ELPM reads is below 64 KiB whatever RAMPZ holds (`elpmAddr_lt`), and it is not the
byte `RAMPZ:Z` once RAMPZ is set (`elpm_misses_rampz`).
-/

namespace Megumi

/-- `*itsrc + (*(itsrc+1) << 8)`: a flash word from its low and high bytes. -/
def pack (lo hi : BitVec 8) : BitVec 16 := lo.zeroExtend 16 + (hi.zeroExtend 16 <<< 8)

/-- The words the loop of `loadFlash` writes, one for each two bytes of the image. -/
def packWords : List (BitVec 8) → List (BitVec 16)
  | lo :: hi :: rest => pack lo hi :: packWords rest
  | _ => []

theorem toNat_pack (lo hi : BitVec 8) : (pack lo hi).toNat = lo.toNat + 256 * hi.toNat := by
  have := lo.isLt; have := hi.isLt
  simp only [pack, BitVec.toNat_add, BitVec.toNat_shiftLeft, BitVec.toNat_setWidth, Nat.shiftLeft_eq]
  omega

/-- The byte LPM and ELPM take from a packed word is the image's byte of the same parity. -/
theorem lpmByte_pack (z : BitVec 16) (lo hi : BitVec 8) :
    lpmByte z (pack lo hi) = if z.getLsbD 0 then hi else lo := by
  have := lo.isLt; have := hi.isLt
  unfold lpmByte
  split <;> apply BitVec.eq_of_toNat_eq <;>
    simp only [BitVec.toNat_setWidth, BitVec.toNat_and, BitVec.toNat_ushiftRight, toNat_pack,
      Nat.shiftRight_eq_div_pow, show (0xFF : BitVec 16).toNat = 2 ^ 8 - 1 from rfl,
      Nat.and_pow_two_sub_one_eq_mod] <;> omega

theorem length_packWords : ∀ l : List (BitVec 8), (packWords l).length = l.length / 2
  | [] => rfl
  | [_] => by simp [packWords]
  | _ :: _ :: rest => by simp only [packWords, List.length_cons, length_packWords rest]; omega

/-- Word `i` of `packWords l` is packed from the bytes `2 i` and `2 i + 1`, when both exist. -/
theorem getElem?_packWords : ∀ (l : List (BitVec 8)) (i : Nat),
    (packWords l)[i]? = l[2 * i]?.bind fun lo => l[2 * i + 1]?.map (pack lo)
  | [], _ => rfl
  | [_], i => by cases i <;> simp [packWords]
  | _ :: _ :: _, 0 => by simp [packWords]
  | _ :: _ :: rest, i + 1 => by
    rw [packWords, List.getElem?_cons_succ, getElem?_packWords rest i,
      show 2 * (i + 1) = 2 * i + 1 + 1 by omega]
    simp only [List.getElem?_cons_succ]

namespace Device

/-- The loop of `loadFlash`: the image's words over the first words of `flash_data_`. -/
def writeFlash (d : Device) (data : List (BitVec 8)) (h : data.length ≤ 2 * d.flash.length) :
    Device :=
  { d with
    flash := packWords data ++ d.flash.drop (data.length / 2)
    flash_length := by
      rw [List.length_append, List.length_drop, length_packWords, ← d.flash_length]
      omega }

/-- `Device::loadFlash`. -/
def loadFlash (d : Device) (data : List (BitVec 8)) : Except String Device :=
  if h : data.length > 2 * d.flash.length then .error "flash data to load is too large"
  else if data.length % 2 ≠ 0 then .error "flash data not aligned on words"
  else .ok (d.writeFlash data (Nat.le_of_not_gt h))

theorem loadFlash_ok {d d' : Device} {data : List (BitVec 8)} (h : d.loadFlash data = .ok d') :
    data.length ≤ 2 * d.flash.length ∧ data.length % 2 = 0 ∧
      d'.flash = packWords data ++ d.flash.drop (data.length / 2) := by
  unfold loadFlash at h
  split at h
  · cases h
  · split at h
    · cases h
    · cases h; exact ⟨by omega, by omega, rfl⟩

/-- **loadFlash and LPM agree.** In the loaded flash, the byte of the word `a / 2` that LPM
takes for a `Z` of the parity of `a` is the image's byte `a`. -/
theorem loadFlash_lpmByte {d d' : Device} {data : List (BitVec 8)} (h : d.loadFlash data = .ok d')
    {a : Nat} (ha : a < data.length) (z : BitVec 16) (hz : z.toNat % 2 = a % 2) :
    (d'.flashAt (a / 2)).map (lpmByte z) = data[a]? := by
  obtain ⟨-, heven, hfl⟩ := loadFlash_ok h
  have hlo := List.getElem?_eq_getElem (show 2 * (a / 2) < data.length by omega)
  have hhi := List.getElem?_eq_getElem (show 2 * (a / 2) + 1 < data.length by omega)
  have hbit : z.getLsbD 0 = decide (a % 2 = 1) := by
    rw [show z.getLsbD 0 = z.toNat.testBit 0 from rfl, Nat.testBit_zero, hz]
  rw [flashAt, hfl, List.getElem?_append_left (by rw [length_packWords]; omega),
    getElem?_packWords, hlo, hhi, Option.some_bind, Option.map_some', Option.map_some',
    lpmByte_pack, hbit]
  rcases Nat.mod_two_eq_zero_or_one a with h2 | h2
  · rw [if_neg (by simp [h2]), ← hlo, show 2 * (a / 2) = a by omega]
  · rw [if_pos (by simp [h2]), ← hhi, show 2 * (a / 2) + 1 = a by omega]

/-! ## LPM Rd,Z+ -/

theorem regz_setReg {d : Device} {rd : Fin 32} (hrd : rd.val < 30) (v : BitVec 8) :
    (d.setReg rd v).regz = d.regz :=
  getPair_setReg (by omega) (by omega) v

theorem toNat_ushiftRight_one (z : BitVec 16) : (z >>> 1).toNat = z.toNat / 2 := by
  simp [BitVec.toNat_ushiftRight, Nat.shiftRight_eq_div_pow]

/-- One LPM Rd,Z+ with `Rd` outside `Z`: `Rd` gets the byte at `Z`, `Z` moves on by one, and
the flash is kept. -/
theorem execute_lpm_inc {e : Device} {rd : Fin 32} (hrd : rd.val < 30) {v : BitVec 16}
    (hv : e.flashAt (e.regz.toNat / 2) = some v) :
    ∃ e', e.execute (.lpm rd true) = some (e', 3) ∧ e'.regfile rd = lpmByte e.regz v ∧
      e'.regz = e.regz + 1 ∧ e'.flash = e.flash := by
  let e1 := e.setReg rd (lpmByte e.regz v)
  refine ⟨(e1.setPair 30 (e1.regz + 1)).advance 1,
    show (e.flashAt _).map _ = _ by rw [toNat_ushiftRight_one, hv]; rfl, ?_, ?_, rfl⟩
  · exact (setPair_regfile_of_ne (by omega) (by omega) _).trans (Function.update_same _ _ _)
  · show (e1.setPair 30 (e1.regz + 1)).getPair 30 = _
    rw [getPair_setPair, regz_setReg hrd]

/-- One LPM Rd,Z+ on a loaded image, with `Z` inside it, loads the image's byte `Z`. -/
theorem lpm_inc_step {d d' e : Device} {data : List (BitVec 8)} (h : d.loadFlash data = .ok d')
    (he : e.flash = d'.flash) {rd : Fin 32} (hrd : rd.val < 30) (ha : e.regz.toNat < data.length) :
    ∃ e1, e.execute (.lpm rd true) = some (e1, 3) ∧ data[e.regz.toNat]? = some (e1.regfile rd) ∧
      e1.regz = e.regz + 1 ∧ e1.flash = e.flash := by
  have hb := loadFlash_lpmByte h ha e.regz rfl
  rw [show d'.flashAt = e.flashAt by unfold flashAt; rw [he]] at hb
  obtain ⟨v, hv, hval⟩ := Option.map_eq_some'.1 (hb.trans (List.getElem?_eq_getElem ha))
  obtain ⟨e1, hx, hr, hz, hf⟩ := execute_lpm_inc hrd hv
  exact ⟨e1, hx, by rw [hr, hval, List.getElem?_eq_getElem ha], hz, hf⟩

theorem toNat_add_one_of_lt {z : BitVec 16} (h : z.toNat + 1 < 2 ^ 16) :
    (z + 1).toNat = z.toNat + 1 := by
  rw [BitVec.toNat_add, Nat.mod_eq_of_lt (by simpa using h)]; rfl

/-- `j + 1` successive LPM Rd,Z+ from a `Z` with the image's bytes `Z` to `Z + j` inside it
and below 64 KiB: the last loads the byte `Z + j` and leaves `Z + j + 1` in `Z`. -/
theorem lpm_inc_run {d d' : Device} {data : List (BitVec 8)} (h : d.loadFlash data = .ok d')
    {rd : Fin 32} (hrd : rd.val < 30) : ∀ (j : Nat) (e : Device), e.flash = d'.flash →
    e.regz.toNat + j < data.length → e.regz.toNat + j < 2 ^ 16 →
    ∃ e', e.runInstrs (List.replicate (j + 1) (.lpm rd true)) = some e' ∧
      data[e.regz.toNat + j]? = some (e'.regfile rd) ∧
      e'.regz.toNat = (e.regz.toNat + j + 1) % 2 ^ 16
  | 0, e, he, hn, _ => by
    obtain ⟨e1, hx, hr, hz, -⟩ := lpm_inc_step h he hrd hn
    exact ⟨e1, by rw [List.replicate, runInstrs, hx]; rfl, hr, by rw [hz, BitVec.toNat_add]; rfl⟩
  | j + 1, e, he, hn, hw => by
    obtain ⟨e1, hx, -, hz, hf⟩ := lpm_inc_step h he hrd (by omega)
    have hz1 : e1.regz.toNat = e.regz.toNat + 1 := by rw [hz, toNat_add_one_of_lt (by omega)]
    obtain ⟨e', hrun, hr, hz'⟩ := lpm_inc_run h hrd j e1 (hf.trans he) (by omega) (by omega)
    refine ⟨e', by rw [List.replicate, runInstrs, hx]; exact hrun, ?_, ?_⟩
    · rw [← hr, hz1, Nat.add_right_comm, Nat.add_assoc]
    · rw [hz', hz1]; omega

/-- **LPM Rd,Z+ reads a loaded image byte after byte.** On the flash `loadFlash` wrote, from
`Z = a`, for every `j < k` with `a + k` within the image and within 64 KiB, the `j+1`-th of
successive LPM Rd,Z+ (with `Rd` outside `r30:r31`) loads the image's byte `a + j`. -/
theorem lpm_inc_loads_image {d d' e : Device} {data : List (BitVec 8)}
    (h : d.loadFlash data = .ok d') (he : e.flash = d'.flash) {rd : Fin 32} (hrd : rd.val < 30)
    {a k : Nat} (hz : e.regz.toNat = a) (hk : a + k ≤ data.length) (hk' : a + k ≤ 2 ^ 16) :
    ∀ j < k, ∃ e', e.runInstrs (List.replicate (j + 1) (.lpm rd true)) = some e' ∧
      data[a + j]? = some (e'.regfile rd) ∧ e'.regz.toNat = (a + j + 1) % 2 ^ 16 := by
  intro j hj
  subst hz
  exact lpm_inc_run h hrd j e he (by omega) (by omega)

theorem lpm_inc_loads_four_bytes :
    ∃ d', (create ⟨4, 2, 0, 0, 0x10, false⟩ .core false).loadFlash [0x12, 0x34, 0x56, 0x78] = .ok d' ∧
      ∀ j < 4, ∃ e', d'.reset.runInstrs (List.replicate (j + 1) (.lpm 0 true)) = some e' ∧
        [(0x12 : BitVec 8), 0x34, 0x56, 0x78][0 + j]? = some (e'.regfile 0) ∧
        e'.regz.toNat = (0 + j + 1) % 2 ^ 16 :=
  have h : (create ⟨4, 2, 0, 0, 0x10, false⟩ .core false).loadFlash [0x12, 0x34, 0x56, 0x78] =
      .ok ((create ⟨4, 2, 0, 0, 0x10, false⟩ .core false).writeFlash [0x12, 0x34, 0x56, 0x78] (by decide)) := by
    unfold loadFlash; rw [dif_neg (by decide), if_neg (by decide)]
  ⟨_, h, lpm_inc_loads_image h (reset_flash _) (by decide) rfl (by decide) (by decide)⟩

/-! ## ELPM -/

/-- The byte address ELPM reads: the word `(z >> 1) | (cpu_.rampz_ << 7)`, its high byte when
`z` is odd. -/
def elpmAddr (d : Device) : Nat :=
  2 * ((d.regz >>> 1).toNat ||| d.cpu.rampz.toNat <<< 7) + d.regz.toNat % 2

/-- The word ELPM reads is below `2^15`: the byte is in the first 64 KiB of flash. -/
theorem elpmAddr_lt (d : Device) : d.elpmAddr < 2 ^ 16 := by
  have hz := d.regz.isLt; have hr := d.cpu.rampz.isLt
  have : (d.regz >>> 1).toNat ||| d.cpu.rampz.toNat <<< 7 < 2 ^ 15 :=
    Nat.or_lt_two_pow (by rw [toNat_ushiftRight_one]; omega) (by rw [Nat.shiftLeft_eq]; omega)
  unfold elpmAddr; omega

/-- **ELPM misses RAMPZ.** On a loaded image, ELPM Rd,Z (and Rd,Z+) with `Rd` outside `Z`
loads the image's byte `elpmAddr`, which is below 64 KiB; once RAMPZ is set, that is not the
byte `RAMPZ:Z`. -/
theorem elpm_misses_rampz {d d' e : Device} {data : List (BitVec 8)}
    (h : d.loadFlash data = .ok d') (he : e.flash = d'.flash) {rd : Fin 32} (hrd : rd.val < 30)
    (inc : Bool) (hn : e.elpmAddr < data.length) :
    ∃ e', e.execute (.elpm rd inc) = some (e', 3) ∧ data[e.elpmAddr]? = some (e'.regfile rd) ∧
        e.elpmAddr < 2 ^ 16 ∧
      (e.cpu.rampz ≠ 0 → e.elpmAddr ≠ e.cpu.rampz.toNat * 2 ^ 16 + e.regz.toNat) := by
  have hb := loadFlash_lpmByte h hn e.regz (by unfold elpmAddr; omega)
  rw [show d'.flashAt = e.flashAt by unfold flashAt; rw [he],
    show e.elpmAddr / 2 = (e.regz >>> 1).toNat ||| e.cpu.rampz.toNat <<< 7 by unfold elpmAddr; omega,
    List.getElem?_eq_getElem hn] at hb
  obtain ⟨v, hv, hval⟩ := Option.map_eq_some'.1 hb
  let e1 := e.setReg rd (lpmByte e.regz v)
  refine ⟨(if inc then e1.incPtr .z else e1).advance 1, show (e.flashAt _).map _ = _ by
    rw [hv]; rfl, ?_,
    elpmAddr_lt e, fun hr => ?_⟩
  · have hreg : ((if inc then e1.incPtr .z else e1).advance 1).regfile rd = e1.regfile rd := by
      cases inc
      · rfl
      · exact (congrFun (incPtr_regfile e1 .z) rd).trans
          (setPair_regfile_of_ne (by simp [Ptr.reg]; omega) (by simp [Ptr.reg]; omega) _)
    rw [hreg, List.getElem?_eq_getElem hn, ← hval]
    exact congrArg some (Function.update_same rd _ e.regfile).symm
  · have : 0 < e.cpu.rampz.toNat := Nat.pos_of_ne_zero (by simpa [BitVec.toNat_eq] using hr)
    have := elpmAddr_lt e
    omega

theorem elpm_rampz_one_reads_byte_256 :
    ∃ d', (create ⟨0x200, 2, 0, 0, 0x100, false⟩ .core false).loadFlash (List.replicate 258 0) = .ok d' ∧
      ∃ e', (d'.reset.cpuSetIo 0x0B 1).execute (.elpm 0 true) = some (e', 3) ∧
        (List.replicate 258 0)[(d'.reset.cpuSetIo 0x0B 1).elpmAddr]? = some (e'.regfile 0) ∧
        (d'.reset.cpuSetIo 0x0B 1).elpmAddr < 2 ^ 16 ∧
        ((d'.reset.cpuSetIo 0x0B 1).cpu.rampz ≠ 0 →
          (d'.reset.cpuSetIo 0x0B 1).elpmAddr ≠
            (d'.reset.cpuSetIo 0x0B 1).cpu.rampz.toNat * 2 ^ 16 +
              (d'.reset.cpuSetIo 0x0B 1).regz.toNat) :=
  have h : (create ⟨0x200, 2, 0, 0, 0x100, false⟩ .core false).loadFlash (List.replicate 258 0) =
      .ok ((create ⟨0x200, 2, 0, 0, 0x100, false⟩ .core false).writeFlash (List.replicate 258 0)
        (by rw [List.length_replicate, flash_length]; decide)) := by
    unfold loadFlash
    rw [dif_neg (by rw [List.length_replicate, flash_length]; decide),
      if_neg (by rw [List.length_replicate]; decide)]
  ⟨_, h, elpm_misses_rampz h ((cpuSetIo_flash _ _ _).trans (reset_flash _)) (by decide) true
    (Nat.lt_of_lt_of_eq (by decide) (List.length_replicate _ _).symm)⟩

end Device

end Megumi
