import Megumi.Cpu.Interrupt
import Megumi.Cpu.Chain

/-!
# Calls, returns, PUSH and POP

The call branches of `executeNextInstruction` (CALL, RCALL, ICALL, and EICALL on a flash above
128 KiB) store the return address with `stack_set` in a frame of `retBytes` bytes below the
stack pointer, and RET reads a frame of the same size with `stack_get`. With SP and the frame as
the call left them, RET brings SP back and returns to the word after the call, cut to the
`8 * retBytes` bits of the frame (`call_ret`); the cut is lost only for a return address that
does not fit the frame (`call_ret_returns`, `rcall_ret_truncates_pc`).

PUSH stores `regfile_[r]` at `stack()` and decrements SP; POP increments SP and loads
`stack()`. Pushes followed by pops in reverse order move the registers last in, first out and
touch only their slots of SRAM (`push_pop_restores`).
-/

namespace Megumi

namespace Device

/-! ## Stack room -/

/-- The `n` bytes at and below the stack pointer are in internal SRAM. -/
def StackRoom (d : Device) (n : Nat) : Prop :=
  ∀ k < n, MEM_SRAM_START + k ≤ d.cpu.sp.toNat ∧ d.cpu.sp.toNat < MEM_SRAM_START + d.sram.length + k

@[simp] theorem stackRoom_setSram {d : Device} {n i : Nat} {v : BitVec 8} :
    (d.setSram i v).StackRoom n ↔ d.StackRoom n := by
  simp only [StackRoom, setSram_cpu, setSram_length]

/-- `stack()` at a stack pointer inside internal SRAM is the index `sp - MEM_SRAM_START`. -/
theorem stackIndex_of_sp {d : Device} (h0 : MEM_SRAM_START ≤ d.cpu.sp.toNat)
    (h1 : d.cpu.sp.toNat < MEM_SRAM_START + d.sram.length) :
    d.stackIndex = some (d.cpu.sp.toNat - MEM_SRAM_START) := by
  have := d.cpu.sp.isLt
  have he : (d.cpu.sp.toNat + 2 ^ 32 - MEM_SRAM_START) % 2 ^ 32 = d.cpu.sp.toNat - MEM_SRAM_START := by
    unfold MEM_SRAM_START at *; omega
  rw [stackIndex, he, if_pos (by omega)]

theorem stackByte_of_room {d : Device} {n k : Nat} (h : d.StackRoom n) (hk : k < n) :
    d.stackByte k = some (d.cpu.sp.toNat - MEM_SRAM_START - k) := by
  obtain ⟨h0, h1⟩ := h 0 (by omega)
  rw [stackByte_of (stackIndex_of_sp (by omega) (by omega)) (by have := (h k hk).1; omega)]

theorem stackSet_isSome {d : Device} {n : Nat} (h : d.StackRoom n) (v : BitVec 32) :
    ∃ d', d.stackSet n v = some d' := by
  induction n generalizing d with
  | zero => exact ⟨d, rfl⟩
  | succ n ih =>
    rw [stackSet, stackByte_of_room h (Nat.lt_succ_self n), Option.some_bind]
    exact ih (stackRoom_setSram.2 fun k hk => h k (by omega))

theorem pushRet_isSome {d : Device} (h : d.StackRoom d.conf.retBytes) (ret : BitVec 32) :
    ∃ d1, d.pushRet ret = some d1 := by
  obtain ⟨d', hs⟩ := stackSet_isSome h ret
  exact ⟨_, by rw [pushRet_eq, hs]; rfl⟩

/-! ## Calls and RET -/

/-- The call branches on a flash that is small (`small`) or not, with the number of words from
the call's PC to its return address. -/
inductive IsCall (small : Bool) : Instr → Nat → Prop
  | call (hi : BitVec 16) : IsCall small (.call hi) 2
  | rcall (k : BitVec 16) : IsCall small (.rcall k) 1
  | icall : IsCall small .icall 1
  | eicall : small = false → IsCall small .eicall 1

/-- A call branch is its push of the return address, then a jump. -/
theorem execute_call {d d1 : Device} {i : Instr} {n : Nat} (hi : IsCall d.conf.smallFlash i n)
    (hpc : d.cpu.pc.toNat + n ≤ d.flash.length)
    (hp : d.pushRet (d.cpu.pc + BitVec.ofNat 32 n) = some d1) :
    ∃ t c, d.execute i = some (d1.setPc t, c) := by
  cases hi with
  | call hi =>
    have h1 : (d.cpu.pc + 1).toNat < d.flash.length := by
      have := Nat.mod_le (d.cpu.pc.toNat + 1) (2 ^ 32)
      rw [BitVec.toNat_add, show (1 : BitVec 32).toNat = 1 from rfl]; omega
    obtain ⟨op2, hop⟩ : ∃ op2, d.flashAt (d.cpu.pc + 1).toNat = some op2 :=
      ⟨_, List.getElem?_eq_getElem h1⟩
    exact ⟨_, _, show (d.flashAt _).bind _ = _ by
      rw [hop, Option.some_bind, pushPc, show d.pushRet (d.cpu.pc + 2) = some d1 from hp]; rfl⟩
  | rcall k =>
    exact ⟨_, _, show (d.pushPc _ 2 3).map _ = _ by
      rw [pushPc, show d.pushRet (d.cpu.pc + 1) = some d1 from hp]; rfl⟩
  | icall =>
    exact ⟨_, _, show (d.pushPc _ 2 3).map _ = _ by
      rw [pushPc, show d.pushRet (d.cpu.pc + 1) = some d1 from hp]; rfl⟩
  | eicall hs =>
    rw [pushRet, if_neg (by rw [hs]; decide)] at hp
    obtain ⟨d', hs', rfl⟩ := Option.map_eq_some'.1 hp
    exact ⟨_, _, show (if d.conf.smallFlash then _ else _) = _ by
      rw [hs, if_neg Bool.false_ne_true, show d.stackSet 3 (d.cpu.pc + 1) = some d' from hs']; rfl⟩

/-- **A call, then RET.** A call branch with its words in flash and room for its frame runs; a
RET run later, with the configuration, SP and the frame's bytes as the call left them, brings SP
back and returns to the word after the call, cut to the `8 * retBytes` bits of the frame. -/
theorem call_ret {d : Device} {i : Instr} {n : Nat} (hi : IsCall d.conf.smallFlash i n)
    (hpc : d.cpu.pc.toNat + n ≤ d.flash.length) (hroom : d.StackRoom d.conf.retBytes) :
    ∃ d1 c, d.execute i = some (d1, c) ∧ d1.conf = d.conf ∧
      d1.cpu.sp = d.cpu.sp - BitVec.ofNat 16 d.conf.retBytes ∧ ∀ d2 : Device, d2.conf = d.conf → d2.cpu.sp = d1.cpu.sp →
        (∀ k < d.conf.retBytes, ∀ j, d.stackByte k = some j →
          d2.sram.getD j 0 = d1.sram.getD j 0) →
        ∃ d3 c', d2.execute .ret = some (d3, c') ∧ d3.cpu.sp = d.cpu.sp ∧
          d3.cpu.pc.toNat = (d.cpu.pc.toNat + n) % 2 ^ (8 * d.conf.retBytes) := by
  obtain ⟨d1, hp⟩ := pushRet_isSome hroom (d.cpu.pc + BitVec.ofNat 32 n)
  obtain ⟨t, c, hx⟩ := execute_call hi hpc hp
  obtain ⟨⟨sram, hl, hd1⟩, hb⟩ := pushRet_spec hp
  have hsp1 : (d1.setPc t).cpu.sp = d.cpu.sp - BitVec.ofNat 16 d.conf.retBytes := by rw [hd1]; rfl
  refine ⟨_, c, hx, by rw [hd1]; rfl, hsp1, fun d2 hconf hsp hbytes => ?_⟩
  obtain ⟨d3, c', hpop, hd3, hpc3⟩ := popPc_of_frame hsp1 hb hconf hsp hbytes
  have hw : 8 * d.conf.retBytes ≤ 32 := by unfold ModelConf.retBytes; split <;> omega
  refine ⟨d3, c', hpop, by rw [hd3]; rfl, ?_⟩
  rw [hpc3, BitVec.toNat_add, BitVec.toNat_ofNat, Nat.add_mod_mod,
    Nat.mod_mod_of_dvd _ (Nat.pow_dvd_pow 2 hw)]

/-- **A call, then RET, returns to the word after the call** when that address fits the
frame: SP comes back and PC is the call's PC plus its words. -/
theorem call_ret_returns {d : Device} {i : Instr} {n : Nat} (hi : IsCall d.conf.smallFlash i n)
    (hpc : d.cpu.pc.toNat + n ≤ d.flash.length) (hroom : d.StackRoom d.conf.retBytes)
    (hfit : d.cpu.pc.toNat + n < 2 ^ (8 * d.conf.retBytes)) :
    ∃ d1 c, d.execute i = some (d1, c) ∧
      ∀ d2 : Device, d2.conf = d.conf → d2.cpu.sp = d1.cpu.sp →
        (∀ k < d.conf.retBytes, ∀ j, d.stackByte k = some j →
          d2.sram.getD j 0 = d1.sram.getD j 0) →
        ∃ d3 c', d2.execute .ret = some (d3, c') ∧ d3.cpu.sp = d.cpu.sp ∧
          d3.cpu.pc.toNat = d.cpu.pc.toNat + n := by
  obtain ⟨d1, c, hx, -, -, hret⟩ := call_ret hi hpc hroom
  refine ⟨d1, c, hx, fun d2 hconf hsp hbytes => ?_⟩
  obtain ⟨d3, c', hr, hsp3, hpc3⟩ := hret d2 hconf hsp hbytes
  exact ⟨d3, c', hr, hsp3, hpc3.trans (Nat.mod_eq_of_lt hfit)⟩

theorem rcall_ret_returns_loDemo :
    ∃ d1 c, loDemo.execute (.rcall 5) = some (d1, c) ∧
      ∀ d2 : Device, d2.conf = loDemo.conf → d2.cpu.sp = d1.cpu.sp →
        (∀ k < loDemo.conf.retBytes, ∀ j, loDemo.stackByte k = some j →
          d2.sram.getD j 0 = d1.sram.getD j 0) →
        ∃ d3 c', d2.execute .ret = some (d3, c') ∧ d3.cpu.sp = loDemo.cpu.sp ∧
          d3.cpu.pc.toNat = loDemo.cpu.pc.toNat + 1 :=
  call_ret_returns (.rcall 5) (by rw [flash_length]; decide) (by unfold StackRoom; decide)
    (by decide)

/-- The frame of a flash above 128 KiB holds 24 bits: on a flash of 64 MiB, which the
constructor accepts, RCALL at the word `2 ^ 24` and RET right after it return to word 1. -/
theorem rcall_ret_truncates_pc :
    bigDemo.conf.Accepted ∧ bigDemo.cpu.pc.toNat < bigDemo.conf.flashSize / 2 ∧
      bigDemo.StackRoom bigDemo.conf.retBytes ∧
      ∃ d1 c, bigDemo.execute (.rcall 0) = some (d1, c) ∧
        ∃ d3 c', d1.execute .ret = some (d3, c') ∧ d3.cpu.sp = bigDemo.cpu.sp ∧
          d3.cpu.pc.toNat ≠ bigDemo.cpu.pc.toNat + 1 := by
  have hroom : bigDemo.StackRoom bigDemo.conf.retBytes := by unfold StackRoom; decide
  obtain ⟨d1, c, hx, hc, -, hret⟩ := call_ret (.rcall 0) (by rw [flash_length]; decide) hroom
  obtain ⟨d3, c', hr, hsp, hpc⟩ := hret d1 hc rfl fun _ _ _ _ => rfl
  refine ⟨by decide, by decide, hroom, d1, c, hx, d3, c', hr, hsp, ?_⟩
  rw [hpc]
  decide

/-! ## PUSH and POP -/

theorem toNat_sp_sub_one {sp : BitVec 16} (h : 1 ≤ sp.toNat) : (sp - 1).toNat = sp.toNat - 1 := by
  rw [BitVec.toNat_sub, show (1 : BitVec 16).toNat = 1 from rfl]; omega

theorem toNat_sp_add_one {sp : BitVec 16} (h : sp.toNat + 1 < 2 ^ 16) :
    (sp + 1).toNat = sp.toNat + 1 := by
  rw [BitVec.toNat_add, show (1 : BitVec 16).toNat = 1 from rfl, Nat.mod_eq_of_lt h]

/-- PUSH with SP in internal SRAM: the register goes to the byte at SP, SP moves down by one,
and nothing else of SRAM and the register file changes. -/
theorem push_spec {d : Device} (rr : Fin 32) (h : d.StackRoom 1) :
    ∃ d1, d.execute (.push rr) = some (d1, 1) ∧ d1.cpu.sp.toNat = d.cpu.sp.toNat - 1 ∧
      d1.regfile = d.regfile ∧ d1.conf = d.conf ∧
      ∀ j, d1.sram.getD j 0 =
        if d.cpu.sp.toNat - MEM_SRAM_START = j then d.regfile rr else d.sram.getD j 0 := by
  obtain ⟨h0, h1⟩ := h 0 Nat.one_pos
  have hM : MEM_SRAM_START = 0x2000 := rfl
  refine ⟨((d.setSram (d.cpu.sp.toNat - MEM_SRAM_START) (d.regfile rr)).setSp (d.cpu.sp - 1)).advance 1,
    show (d.stackByte 0).map _ = _ by rw [stackByte_of_room h Nat.one_pos, Nat.sub_zero]; rfl,
    toNat_sp_sub_one (by omega),
    rfl, rfl, setSram_getD _ (by omega) _⟩

/-- POP with the byte above SP in internal SRAM: SP moves up by one and the register gets that
byte; SRAM is kept. -/
theorem pop_spec {d : Device} (rd : Fin 32) (h0 : MEM_SRAM_START ≤ d.cpu.sp.toNat + 1)
    (h1 : d.cpu.sp.toNat + 1 < MEM_SRAM_START + d.sram.length) (hw : d.cpu.sp.toNat + 1 < 2 ^ 16) :
    ∃ d1, d.execute (.pop rd) = some (d1, 1) ∧ d1.cpu.sp.toNat = d.cpu.sp.toNat + 1 ∧
      d1.regfile = Function.update d.regfile rd
        (d.sram.getD (d.cpu.sp.toNat + 1 - MEM_SRAM_START) 0) ∧ d1.sram = d.sram ∧
      d1.conf = d.conf := by
  have hsp := toNat_sp_add_one hw
  let d' := d.setSp (d.cpu.sp + 1)
  have hI : d'.stackIndex = some (d.cpu.sp.toNat + 1 - MEM_SRAM_START) := by
    rw [stackIndex_of_sp (show MEM_SRAM_START ≤ (d.cpu.sp + 1).toNat by omega)
      (show (d.cpu.sp + 1).toNat < MEM_SRAM_START + d.sram.length by omega)]
    exact congrArg (some <| · - MEM_SRAM_START) hsp
  refine ⟨(d'.setReg rd (d.sram.getD (d.cpu.sp.toNat + 1 - MEM_SRAM_START) 0)).advance 1,
    show (d'.stackByte 0).map _ = _ by rw [stackByte_of hI (Nat.zero_le _), Nat.sub_zero]; rfl,
    hsp, rfl, rfl, rfl⟩

/-- **PUSH then POP in reverse order.** With `n` bytes of internal SRAM at and below SP,
PUSH `r₁`, …, PUSH `rₙ`, then POP `r'ₙ`, …, POP `r'₁` with distinct `r'ᵢ` runs, leaves SP as it
was, gives each `r'ᵢ` the value `rᵢ` held before the pushes, and keeps every SRAM byte outside
the `n` stack slots. -/
theorem push_pop_restores {d : Device} {rs rs' : List (Fin 32)} (hlen : rs'.length = rs.length)
    (hnd : rs'.Nodup) (hroom : d.StackRoom rs.length) :
    ∃ d', d.runInstrs (rs.map .push ++ (rs'.map .pop).reverse) = some d' ∧
      d'.cpu.sp = d.cpu.sp ∧ (∀ p ∈ rs'.zip rs, d'.regfile p.1 = d.regfile p.2) ∧
      (∀ j, (∀ k < rs.length, d.stackByte k ≠ some j) → d'.sram.getD j 0 = d.sram.getD j 0) ∧
      d'.conf = d.conf := by
  induction rs generalizing rs' d with
  | nil =>
    obtain rfl := List.length_eq_zero.1 hlen
    exact ⟨d, rfl, rfl, nofun, fun _ _ => rfl, rfl⟩
  | cons r rs ih =>
    obtain ⟨r', rs', rfl⟩ := List.exists_cons_of_length_eq_add_one hlen
    obtain ⟨hr', hnd'⟩ := List.nodup_cons.1 hnd
    have hn : (r :: rs).length = rs.length + 1 := rfl
    have hM : MEM_SRAM_START = 0x2000 := rfl
    have htop := hroom rs.length (by omega)
    have hbot := hroom 0 (by omega)
    obtain ⟨d1, hx1, hsp1, hreg1, hc1, hsram1⟩ := push_spec r fun k hk => hroom k (by omega)
    have hl1 : d1.sram.length = d.sram.length := by rw [d1.sram_length, d.sram_length, hc1]
    have hroom1 : d1.StackRoom rs.length := fun k hk => by
      have := hroom (k + 1) (by omega)
      omega
    obtain ⟨d2, hrun, hsp2, hreg2, hsram2, hc2⟩ := ih (by simpa using hlen) hnd' hroom1
    have hl2 : d2.sram.length = d.sram.length := by rw [d2.sram_length, d.sram_length, hc2, hc1]
    -- the slots of the inner run are those of the outer run below the top one
    have hslot : ∀ k < rs.length, d1.stackByte k = d.stackByte (k + 1) := fun k hk =>
      (stackByte_of_room hroom1 hk).trans <| (congrArg some (by omega)).trans
        (stackByte_of_room hroom (by omega)).symm
    have hsp2' : d2.cpu.sp.toNat = d.cpu.sp.toNat - 1 := by rw [hsp2, hsp1]
    obtain ⟨d3, hx3, hsp3, hreg3, hsram3, hc3⟩ := pop_spec r' (d := d2) (by omega) (by omega)
      (by have := d.cpu.sp.isLt; omega)
    have htopv : d2.sram.getD (d2.cpu.sp.toNat + 1 - MEM_SRAM_START) 0 = d.regfile r := by
      rw [hsram2 _ fun k hk e => ?_, hsram1, if_pos (by omega)]
      rw [hslot k hk, stackByte_of_room hroom (by omega), Option.some.injEq] at e
      omega
    refine ⟨d3, ?_, BitVec.eq_of_toNat_eq (by omega), ?_, fun j hj => ?_, hc3.trans (hc2.trans hc1)⟩
    · rw [List.map_cons, List.map_cons, List.reverse_cons, List.cons_append, runInstrs, hx1,
        Option.some_bind, ← List.append_assoc, runInstrs_append, hrun, Option.some_bind,
        runInstrs, hx3]
      rfl
    · rintro p hp
      rcases List.mem_cons.1 (List.zip_cons_cons ▸ hp) with rfl | hp
      · show d3.regfile r' = d.regfile r
        rw [hreg3, Function.update_same, htopv]
      · have hne : p.1 ≠ r' := fun e => hr' (e ▸ (List.of_mem_zip hp).1)
        rw [hreg3, Function.update_noteq hne, hreg2 p hp, hreg1]
    · have hj0 : d.cpu.sp.toNat - MEM_SRAM_START ≠ j := fun e =>
        hj 0 (by omega) ((stackByte_of_room hroom (by omega)).trans (congrArg some (by omega)))
      rw [hsram3, hsram2 j fun k hk e => hj (k + 1) (by omega) ((hslot k hk).symm.trans e), hsram1,
        if_neg hj0]

theorem push_pop_two_loDemo :
    ∃ d', loDemo.runInstrs ([1, 2].map .push ++ ([3, 4].map .pop).reverse) = some d' ∧
      d'.cpu.sp = loDemo.cpu.sp ∧
      (∀ p ∈ [(3 : Fin 32), 4].zip [1, 2], d'.regfile p.1 = loDemo.regfile p.2) ∧
      (∀ j, (∀ k < [(1 : Fin 32), 2].length, loDemo.stackByte k ≠ some j) →
        d'.sram.getD j 0 = loDemo.sram.getD j 0) ∧
      d'.conf = loDemo.conf :=
  push_pop_restores rfl (by decide) (by unfold StackRoom; decide)

end Device

end Megumi
