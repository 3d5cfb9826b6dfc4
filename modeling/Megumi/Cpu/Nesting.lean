import Megumi.Cpu.Interrupt

/-!
# Nested interrupt handlers

PMIC STATUS records the handlers that are executing. `processPendingInterrupts`
(`src/device.cpp`) enters a handler only at a level above `currentIntLvl()`, the highest set
bit, and sets that level's bit; RETI clears the highest set bit. Read from the highest, the set
bits (`active`) are a stack of strictly decreasing levels whose top is `currentIntLvl()`: an
entry pushes its level and RETI pops the innermost handler, in every interleaving of entries and
RETIs (`status_nests`). `Nest` is that stack machine, stated on lists of levels.
-/

namespace Megumi

/-- What changes PMIC STATUS: a handler entry at a level, or RETI. -/
inductive NestEvent
  | enter (L : IntLvl)
  | reti
  deriving DecidableEq, Repr

namespace Nest

/-- A handler is entered only above the innermost one, and RETI ends the innermost one; RETI with
no handler active leaves the stack empty. -/
def step (st : List IntLvl) : NestEvent → Option (List IntLvl)
  | .enter L => if (st.headD .none).toNat < L.toNat then some (L :: st) else none
  | .reti => some st.tail

def run (st : List IntLvl) : List NestEvent → Option (List IntLvl)
  | [] => some st
  | e :: es => (step st e).bind fun st' => run st' es

end Nest

/-- The levels whose handler is executing, innermost first: the bits `nmiex`, `hilvlex`,
`medlvlex` and `lolvlex` of PMIC STATUS, from the highest. -/
def active (s : BitVec 8) : List IntLvl :=
  [IntLvl.nmi, .hi, .med, .lo].filter fun L => flag s (L.toNat - 1)

/-- The STATUS update of an entry by `processPendingInterrupts`, and that of RETI. -/
def statusStep (s : BitVec 8) : NestEvent → Option (BitVec 8)
  | .enter L => if (currentIntLvl s).toNat < L.toNat then some (s ||| L.bit) else none
  | .reti => some (retiStatus s)

def statusRun (s : BitVec 8) : List NestEvent → Option (BitVec 8)
  | [] => some s
  | e :: es => (statusStep s e).bind fun s' => statusRun s' es

example : statusRun 0 [.enter .lo, .enter .hi, .enter .med, .reti] = none := by decide
example : statusRun 0 [.enter .lo, .enter .hi, .reti, .enter .med] = some 3 := by decide

/-! ## The stack read off the byte -/

theorem active_pairwise (s : BitVec 8) : (active s).Pairwise fun a b => b.toNat < a.toNat :=
  List.Pairwise.sublist (List.filter_sublist _) (by decide)

/-- `active` on the bits `lolvlex`, `medlvlex`, `hilvlex` and `nmiex`. -/
def stackOf (b0 b1 b2 b3 : Bool) : List IntLvl :=
  [IntLvl.nmi, .hi, .med, .lo].filter fun L => [b0, b1, b2, b3].getD (L.toNat - 1) false

theorem active_eq (s : BitVec 8) : active s = stackOf (flag s 0) (flag s 1) (flag s 2) (flag s 3) :=
  rfl

theorem stackOf_headD : ∀ b0 b1 b2 b3 : Bool, (stackOf b0 b1 b2 b3).headD .none =
    if b3 then .nmi else if b2 then .hi else if b1 then .med else if b0 then .lo else .none := by
  decide

theorem stackOf_tail : ∀ b0 b1 b2 b3 : Bool, (stackOf b0 b1 b2 b3).tail =
    if b3 then stackOf b0 b1 b2 false else if b2 then stackOf b0 b1 false b3
    else if b1 then stackOf b0 false b2 b3 else if b0 then stackOf false b1 b2 b3
    else stackOf b0 b1 b2 b3 := by
  decide

theorem stackOf_push (L : IntLvl) : ∀ b0 b1 b2 b3 : Bool,
    ((stackOf b0 b1 b2 b3).headD .none).toNat < L.toNat →
    stackOf (b0 || decide (0 = L.toNat - 1)) (b1 || decide (1 = L.toNat - 1))
      (b2 || decide (2 = L.toNat - 1)) (b3 || decide (3 = L.toNat - 1)) = L :: stackOf b0 b1 b2 b3 := by
  cases L <;> decide

theorem currentIntLvl_active (s : BitVec 8) : currentIntLvl s = (active s).headD .none := by
  rw [currentIntLvl_eq, active_eq, stackOf_headD]

/-- RETI pops the innermost handler. -/
theorem active_retiStatus (s : BitVec 8) : active (retiStatus s) = (active s).tail := by
  rw [active_eq, active_eq, stackOf_tail, retiStatus]
  simp only [PmicStatus.nmiex, PmicStatus.hilvlex, PmicStatus.medlvlex, PmicStatus.lolvlex]
  split_ifs <;> simp (disch := decide) only [flag_setFlag_same, flag_setFlag_ne, *]

/-- An entry above the innermost handler pushes its level. -/
theorem active_enter {s : BitVec 8} {L : IntLvl} (h : (currentIntLvl s).toNat < L.toNat) :
    active (s ||| L.bit) = L :: active s := by
  rw [currentIntLvl_active, active_eq] at h
  rw [active_eq, active_eq]
  simp only [flag_or, IntLvl.bit, flag_one_shiftLeft (show L.toNat - 1 < 8 by cases L <;> decide)]
  exact stackOf_push L _ _ _ _ h

/-! ## The byte refines the stack -/

theorem statusStep_active (s : BitVec 8) (e : NestEvent) :
    (statusStep s e).map active = Nest.step (active s) e := by
  cases e with
  | enter L =>
    rw [statusStep, Nest.step, ← currentIntLvl_active]
    split
    · rw [Option.map_some', active_enter ‹_›]
    · rfl
  | reti => rw [statusStep, Nest.step, Option.map_some', active_retiStatus]

theorem statusRun_active (s : BitVec 8) (es : List NestEvent) :
    (statusRun s es).map active = Nest.run (active s) es := by
  induction es generalizing s with
  | nil => rfl
  | cons e es ih =>
    have hs := statusStep_active s e
    rw [statusRun, Nest.run]
    cases h : statusStep s e with
    | none => rw [h] at hs; rw [← hs]; rfl
    | some s' => rw [h] at hs; rw [← hs]; exact ih s'

namespace Device

/-- A dispatch of `processPendingInterrupts` is an entry. -/
theorem processPendingInterrupts_enters {d d1 : Device}
    (h : d.processPendingInterrupts = some (d1, true)) :
    ∃ L, statusStep d.pmicStatus (.enter L) = some d1.pmicStatus := by
  obtain ⟨L, -, hlt, hst, -⟩ := processPendingInterrupts_dispatch h
  exact ⟨L, by rw [statusStep, if_pos hlt, hst]⟩

/-- RETI's branch of `executeNextInstruction` is a RETI of the stack. -/
theorem execute_reti_status {d d1 : Device} {c : Nat} (h : d.execute .reti = some (d1, c)) :
    statusStep d.pmicStatus .reti = some d1.pmicStatus := by
  dsimp only [execute] at h
  rw [popPc_eq] at h
  obtain ⟨_, -, he⟩ := Option.map_eq_some'.1 h
  cases he
  rfl

/-- **PMIC STATUS is a stack of nested handlers.** Every dispatch of
`processPendingInterrupts` is an entry and every RETI of `executeNextInstruction` a RETI; for
every STATUS byte and every sequence of entries and RETIs, the set bits read from the highest
follow the stack machine `Nest`: an entry is taken exactly when `Nest` takes it, pushing its
level, and RETI pops the innermost handler. The stack is strictly decreasing and
`currentIntLvl()` is its top. -/
theorem status_nests :
    (∀ d d1 : Device, d.processPendingInterrupts = some (d1, true) →
      ∃ L, statusStep d.pmicStatus (.enter L) = some d1.pmicStatus) ∧
    (∀ (d d1 : Device) (c : Nat), d.execute .reti = some (d1, c) →
      statusStep d.pmicStatus .reti = some d1.pmicStatus) ∧
    ∀ (s : BitVec 8) (es : List NestEvent), (statusRun s es).map active = Nest.run (active s) es ∧
      (active s).Pairwise (fun a b => b.toNat < a.toNat) ∧ currentIntLvl s = (active s).headD .none :=
  ⟨fun _ _ => processPendingInterrupts_enters, fun _ _ _ => execute_reti_status,
    fun s es => ⟨statusRun_active s es, active_pairwise s, currentIntLvl_active s⟩⟩

end Device

end Megumi
