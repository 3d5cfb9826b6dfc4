import Megumi.Cpu.Interrupt

/-!
# The updates of a branch

Every branch of `Device::executeNextInstruction` (`src/device.cpp`) is a sequence of a few kinds
of update: a write of a register or a register pair, a rewrite of SREG, a move of the PC or of
SP, a step of a pointer pair, a store to SRAM, the I/O space or the data space, a `stack_set`
of return-address bytes, RETI's chain on PMIC STATUS, and BREAK's `breaked_`. `Update i` names
them with what each may touch for the instruction `i`: only the registers of `Instr.writes`,
SREG rewrites that keep the I bit unless `i` is SEI or CLI, and I/O and data-space stores only
for the instructions that store (`Instr.stores`).

`execute_updates` is the one case analysis over the branches: every branch is a sequence of such
updates (`Updates`). What one update keeps, a whole branch keeps (`Updates.lift`), which is how
the frame, the masks, the registers an instruction writes and SREG's I bit are carried through
`execute`.
-/

namespace Megumi

open Sreg

/-- The registers the branch of an instruction may write. -/
def Instr.writes : Instr → List (Fin 32)
  | .com r | .neg r | .swap r | .inc r | .asr r | .lsr r | .ror r | .dec r => [r]
  | .add rd _ | .adc rd _ | .sub rd _ | .sbc rd _ | .and rd _ | .eor rd _ | .or rd _
  | .mov rd _ => [rd]
  | .subi rd _ | .sbci rd _ | .andi rd _ | .ori rd _ | .ldi rd _ | .bld rd _ => [rd]
  | .mul .. | .muls .. | .mulsu .. | .fmul .. | .fmuls .. | .fmulsu .. => [0, 1]
  | .movw rd _ | .adiw rd _ | .sbiw rd _ => [rd, rd + 1]
  | .lds rd | .ldX rd | .ldd _ rd _ | .xch rd | .las rd | .lat rd | .pop rd | .ioIn rd _ => [rd]
  | .ldInc p rd | .ldDec p rd => [rd, p.reg, p.reg + 1]
  | .stInc p _ | .stDec p _ => [p.reg, p.reg + 1]
  | .lpm0 | .elpm0 => [0]
  | .lpm rd true | .elpm rd true => [rd, 30, 31]
  | .lpm rd false | .elpm rd false => [rd]
  | _ => []

/-- Whether the branch of an instruction stores to the data space or the I/O space. -/
def Instr.stores : Instr → Bool
  | .sbi .. | .cbi .. | .ioOut .. | .sts _ | .stX _ | .stInc .. | .stDec .. | .std ..
  | .xch _ | .lac _ | .las _ | .lat _ => true
  | _ => false

theorem flag_or_shiftLeft_ne (x : BitVec 8) {s j : Nat} (h : s ≠ j) :
    flag (x ||| 1#8 <<< s) j = flag x j := by
  rw [flag_or, flag, flag, getLsbD_one_shiftLeft_ne h, Bool.or_false]

theorem flag_and_not_shiftLeft_ne (x : BitVec 8) {s j : Nat} (h : s ≠ j) (hj : j < 8) :
    flag (x &&& ~~~(1#8 <<< s)) j = flag x j := by
  rw [flag, flag, BitVec.getLsbD_and, BitVec.getLsbD_not, getLsbD_one_shiftLeft_ne h]
  simp [hj]

namespace Device

/-- One update of the branch of `i`. -/
inductive Update (i : Instr) : Device → Device → Prop
  | setReg (d : Device) {r : Fin 32} (hr : r ∈ i.writes) (v : BitVec 8) : Update i d (d.setReg r v)
  | setPair (d : Device) {r : Fin 32} (hr : r ∈ i.writes) (hr1 : r + 1 ∈ i.writes) (v : BitVec 16) :
      Update i d (d.setPair r v)
  | modifySreg (d : Device) {f : BitVec 8 → BitVec 8}
      (hf : i ≠ .bset I → i ≠ .bclr I → ∀ s, flag (f s) I = flag s I) : Update i d (d.modifySreg f)
  | setPc (d : Device) (pc : BitVec 32) : Update i d (d.setPc pc)
  | setSp (d : Device) (sp : BitVec 16) : Update i d (d.setSp sp)
  | incPtr (d : Device) {p : Ptr} (hp : p.reg ∈ i.writes) (hp1 : p.reg + 1 ∈ i.writes) :
      Update i d (d.incPtr p)
  | decPtr (d : Device) {p : Ptr} (hp : p.reg ∈ i.writes) (hp1 : p.reg + 1 ∈ i.writes) :
      Update i d (d.decPtr p)
  | setIoMem (d : Device) (hs : i.stores = true) (a : Nat) (v : BitVec 8) : Update i d (d.setIoMem a v)
  | setDataMem (d : Device) (hs : i.stores = true) (a : Nat) (v : BitVec 8) :
      Update i d (d.setDataMem a v)
  | setSram (d : Device) (k : Nat) (v : BitVec 8) : Update i d (d.setSram k v)
  | stackSet {d d' : Device} {n : Nat} {v : BitVec 32} (hs : d.stackSet n v = some d') : Update i d d'
  | reti (d : Device) : Update i d { d with pmicStatus := retiStatus d.pmicStatus }
  | brk (d : Device) : Update i d { d with breaked := true }

/-- The updates of the branch of `i` from `d`, in order. -/
inductive Updates (i : Instr) (d : Device) : Device → Prop
  | refl : Updates i d d
  | tail {e e' : Device} : Updates i d e → Update i e e' → Updates i d e'

namespace Updates

variable {i : Instr} {d e e' : Device}

/-- What every update keeps, every sequence of updates keeps. -/
theorem lift {R : Device → Prop} (hstep : ∀ {e e'}, R e → Update i e e' → R e')
    (h : Updates i d e) (hd : R d) : R e := by
  induction h with
  | refl => exact hd
  | tail _ hu ih => exact hstep ih hu

theorem setReg (h : Updates i d e) {r : Fin 32} (hr : r ∈ i.writes) (v : BitVec 8) :
    Updates i d (e.setReg r v) := .tail h (.setReg e hr v)
theorem setPair (h : Updates i d e) {r : Fin 32} (hr : r ∈ i.writes) (hr1 : r + 1 ∈ i.writes)
    (v : BitVec 16) : Updates i d (e.setPair r v) := .tail h (.setPair e hr hr1 v)
theorem modifySreg (h : Updates i d e) {f : BitVec 8 → BitVec 8}
    (hf : i ≠ .bset I → i ≠ .bclr I → ∀ s, flag (f s) I = flag s I) :
    Updates i d (e.modifySreg f) := .tail h (.modifySreg e hf)
theorem setPc (h : Updates i d e) (pc : BitVec 32) : Updates i d (e.setPc pc) := .tail h (.setPc e pc)
theorem advance (h : Updates i d e) (n : BitVec 32) : Updates i d (e.advance n) := h.setPc _
theorem setSp (h : Updates i d e) (sp : BitVec 16) : Updates i d (e.setSp sp) := .tail h (.setSp e sp)
theorem incPtr (h : Updates i d e) {p : Ptr} (hp : p.reg ∈ i.writes) (hp1 : p.reg + 1 ∈ i.writes) :
    Updates i d (e.incPtr p) := .tail h (.incPtr e hp hp1)
theorem decPtr (h : Updates i d e) {p : Ptr} (hp : p.reg ∈ i.writes) (hp1 : p.reg + 1 ∈ i.writes) :
    Updates i d (e.decPtr p) := .tail h (.decPtr e hp hp1)
theorem setIoMem (h : Updates i d e) (hs : i.stores = true) (a : Nat) (v : BitVec 8) :
    Updates i d (e.setIoMem a v) := .tail h (.setIoMem e hs a v)
theorem setDataMem (h : Updates i d e) (hs : i.stores = true) (a : Nat) (v : BitVec 8) :
    Updates i d (e.setDataMem a v) := .tail h (.setDataMem e hs a v)
theorem setSram (h : Updates i d e) (k : Nat) (v : BitVec 8) : Updates i d (e.setSram k v) :=
  .tail h (.setSram e k v)
theorem stackSet (h : Updates i d e) {n : Nat} {v : BitVec 32} (hs : e.stackSet n v = some e') :
    Updates i d e' := .tail h (.stackSet hs)
theorem reti (h : Updates i d e) : Updates i d { e with pmicStatus := retiStatus e.pmicStatus } :=
  .tail h (.reti e)
theorem brk (h : Updates i d e) : Updates i d { e with breaked := true } := .tail h (.brk e)

/-- A call's push is a `stack_set` of the return address, then SP moved below it. -/
theorem pushPc (h : Updates i d e) {ret : BitVec 32} {small large c : Nat}
    (hs : e.pushPc ret small large = some (e', c)) : Updates i d e' := by
  obtain ⟨_, hp, he⟩ := Option.map_eq_some'.1 hs
  cases he
  rw [pushRet_eq] at hp
  obtain ⟨_, h1, rfl⟩ := Option.map_eq_some'.1 hp
  exact (h.stackSet h1).setSp _

/-- A return moves SP above the return address, then the PC to it. -/
theorem popPc (h : Updates i d e) {c : Nat} (hs : e.popPc = some (e', c)) : Updates i d e' := by
  rw [popPc_eq] at hs
  obtain ⟨_, -, he⟩ := Option.map_eq_some'.1 hs
  cases he
  exact (h.setSp _).setPc _

/-- A skip moves the PC. -/
theorem skip (h : Updates i d e) {long short c : Nat} (hs : e.skip long short = some (e', c)) :
    Updates i d e' := by
  obtain ⟨_, -, he⟩ := Option.map_eq_some'.1 hs
  split at he <;> cases he <;> exact h.advance _

end Updates

/-- **The branches as updates.** Every branch of `executeNextInstruction` is a sequence of
updates: it writes registers of `Instr.writes` only, rewrites SREG keeping the I bit unless it
is SEI or CLI, stores to the I/O and data space only when `Instr.stores` says so, and otherwise
moves the PC and SP, steps pointer pairs, writes the stack, and changes PMIC STATUS (RETI) or
`breaked_` (BREAK). -/
theorem execute_updates {d d' : Device} {i : Instr} {c : Nat} (h : d.execute i = some (d', c)) :
    Updates i d d' := by
  have r : Updates i d d := .refl
  cases i
  case bset s =>
    cases h
    exact (r.modifySreg fun hne _ x => flag_or_shiftLeft_ne x fun e => hne (e ▸ rfl)).advance 1
  case bclr s =>
    cases h
    exact (r.modifySreg fun _ hne x =>
      flag_and_not_shiftLeft_ne x (fun e => hne (e ▸ rfl)) (by decide)).advance 1
  case' lpm _ inc => cases inc
  case' elpm _ inc => cases inc
  all_goals
    dsimp only [execute] at h
    try simp only [Option.map_eq_some', Option.bind_eq_some, Option.some.injEq, Prod.mk.injEq,
      Bool.false_eq_true, if_false, if_true] at h
    (try split at h) <;> try simp only [Option.map_eq_some', Option.some.injEq, Prod.mk.injEq] at h
  all_goals first
    | exact r.skip h
    | exact r.popPc h
    | exact r.reti.popPc h
    | (first | obtain ⟨rfl, -⟩ := h | obtain ⟨_, hp, rfl, -⟩ := h | obtain ⟨_, -, _, hp, rfl, -⟩ := h)
      with_reducible repeat first
        | exact r | exact r.brk | exact r.pushPc hp | exact r.stackSet hp
        | refine Updates.advance ?_ _ | refine Updates.setPc ?_ _ | refine Updates.setSp ?_ _
        | refine Updates.setSram ?_ _ _ | refine Updates.setIoMem ?_ ?_ _ _
        | refine Updates.setDataMem ?_ ?_ _ _ | refine Updates.setReg ?_ ?_ _
        | refine Updates.setPair ?_ ?_ ?_ _ | refine Updates.incPtr ?_ ?_ ?_
        | refine Updates.decPtr ?_ ?_ ?_ | refine Updates.modifySreg ?_ ?_
      all_goals first
        | rfl
        | exact List.Mem.head _
        | exact .tail _ (.head _)
        | exact .tail _ (.tail _ (.head _))
        | (intro _ _ s
           simp (disch := decide) only [subFlags, addFlags, logicFlags, znvs, shiftFlags, mulFlags,
             wordFlags, flag_setFlag_ne])

end Device

end Megumi
