import Mathlib.Data.Finset.Max

/-!
# Pending interrupt vectors

`Device::iv_pending_` (`src/unnamed/part_001`), four `std::set<ivnum_t>` queues, one per level,
with `Device::setIvLvl` and the part of `Device::processPendingInterrupts` that picks a queue and
takes its first vector (`src/device.cpp`). `IntLvl` and the PMIC registers are declared in
`common.h` and `block/pmic.h`, which are not in the repository; their encodings are the ones
`currentIntLvl` and `processPendingInterrupts` rely on (`1 << (lvl-1)` is a level's status bit).

Under the invariant that a vector sits in at most one queue, `setIvLvl` is a pointwise update of
the map `pend` from vectors to levels (`setIvLvl_pend`), and the early `break`s of its erase
chains lose nothing.
-/

namespace Megumi

/-- `IntLvl`, in the order of its values `INTLVL_NONE = 0` to `INTLVL_NMI = 4`. -/
inductive IntLvl
  | none | lo | med | hi | nmi
  deriving DecidableEq, Repr

namespace IntLvl

/-- The value of the enumerator. -/
def toNat : IntLvl → Nat
  | none => 0
  | lo => 1
  | med => 2
  | hi => 3
  | nmi => 4

/-- The levels with a queue, in the order `setIvLvl` visits them. -/
def queued : List IntLvl := [lo, med, hi, nmi]

theorem mem_queued {l : IntLvl} (h : l ≠ none) : l ∈ queued := by
  cases l <;> simp_all [queued]

theorem nodup_queued : queued.Nodup := by decide

theorem none_not_mem_erase (l : IntLvl) : none ∉ queued.erase l :=
  fun h => absurd (List.mem_of_mem_erase h) (by decide)

theorem mem_erase_queued {l m : IntLvl} (hm : m ≠ none) : m ∈ queued.erase l ↔ m ≠ l := by
  rw [nodup_queued.mem_erase_iff, and_iff_left (mem_queued hm)]

end IntLvl

open IntLvl

/-- `iv_pending_`. -/
structure IvPending where
  lo : Finset Nat
  med : Finset Nat
  hi : Finset Nat
  nmi : Finset Nat
  deriving DecidableEq

namespace IvPending

/-- No vector pending, as the `Device` constructor leaves `iv_pending_`; `Device::reset` does
not clear it. -/
def empty : IvPending := ⟨∅, ∅, ∅, ∅⟩

/-- The queue of a level; `INTLVL_NONE` has none. -/
def queue (p : IvPending) : IntLvl → Finset Nat
  | .none => ∅
  | .lo => p.lo
  | .med => p.med
  | .hi => p.hi
  | .nmi => p.nmi

/-- Replace the queue of a level. -/
def setQueue (p : IvPending) (q : Finset Nat) : IntLvl → IvPending
  | .none => p
  | .lo => { p with lo := q }
  | .med => { p with med := q }
  | .hi => { p with hi := q }
  | .nmi => { p with nmi := q }

@[simp] theorem queue_none (p : IvPending) : p.queue .none = ∅ := rfl

@[simp] theorem queue_setQueue (p : IvPending) (q : Finset Nat) {l : IntLvl} (hl : l ≠ .none)
    (m : IntLvl) : (p.setQueue q l).queue m = if m = l then q else p.queue m := by
  cases l <;> cases m <;> simp_all [setQueue, queue]

@[ext] theorem ext' {p p' : IvPending} (h : ∀ l, l ≠ .none → p.queue l = p'.queue l) : p = p' := by
  cases p; cases p'
  simp only [mk.injEq]
  exact ⟨h .lo nofun, h .med nofun, h .hi nofun, h .nmi nofun⟩

/-- `if(iv_pending_.X.erase(iv)) break;` for the queues `ls` in turn: `iv` is erased from the
first of them that holds it. -/
def eraseFirst (p : IvPending) (iv : Nat) : List IntLvl → IvPending
  | [] => p
  | l :: ls => if iv ∈ p.queue l then p.setQueue ((p.queue l).erase iv) l else p.eraseFirst iv ls

/-- `Device::setIvLvl`. For a level with a queue, `if(!iv_pending_.X.insert(iv).second) break;`
then the erase chain over the other queues, in the order `lo`, `med`, `hi`, `nmi`. -/
def setIvLvl (p : IvPending) (iv : Nat) : IntLvl → IvPending
  | .none => p.eraseFirst iv queued
  | l => if iv ∈ p.queue l then p
    else (p.setQueue (insert iv (p.queue l)) l).eraseFirst iv (queued.erase l)

/-- A vector lies in at most one queue. -/
def AtMostOne (p : IvPending) : Prop :=
  ∀ iv l m, iv ∈ p.queue l → iv ∈ p.queue m → l = m

/-- `iv` moved to the queue of `l`, out of every other queue. -/
def assign (p : IvPending) (iv : Nat) (l : IntLvl) : IvPending :=
  ⟨if l = .lo then insert iv p.lo else p.lo.erase iv,
   if l = .med then insert iv p.med else p.med.erase iv,
   if l = .hi then insert iv p.hi else p.hi.erase iv,
   if l = .nmi then insert iv p.nmi else p.nmi.erase iv⟩

theorem assign_queue (p : IvPending) (iv : Nat) (l : IntLvl) {m : IntLvl} (hm : m ≠ .none) :
    (p.assign iv l).queue m = if l = m then insert iv (p.queue m) else (p.queue m).erase iv := by
  cases m <;> first | exact absurd rfl hm | rfl

theorem mem_assign_queue {p : IvPending} {iv l j m} :
    j ∈ (p.assign iv l).queue m ↔ m ≠ .none ∧ (l = m ∧ j = iv ∨ j ≠ iv ∧ j ∈ p.queue m) := by
  by_cases hm : m = .none
  · subst hm; simp
  · rw [assign_queue p iv l hm]
    split_ifs with h
    · by_cases hj : j = iv <;> simp [hm, h, hj]
    · simp [hm, h, and_comm]

theorem AtMostOne.assign {p : IvPending} (h : p.AtMostOne) (iv : Nat) (l : IntLvl) :
    (p.assign iv l).AtMostOne := by
  intro j m m' hj hj'
  rw [mem_assign_queue] at hj hj'
  rcases hj with ⟨-, ⟨rfl, rfl⟩ | ⟨hne, hj⟩⟩ <;> rcases hj' with ⟨-, ⟨rfl, hj'⟩ | ⟨hne', hj'⟩⟩
  · rfl
  · exact absurd rfl hne'
  · exact absurd hj' hne
  · exact h j m m' hj hj'

/-- The erase chain removes `iv` from every queue of `ls` when at most one of them holds it. -/
theorem eraseFirst_queue (p : IvPending) (iv : Nat) {ls : List IntLvl} (hnd : ls.Nodup)
    (hone : ∀ l ∈ ls, ∀ m ∈ ls, iv ∈ p.queue l → iv ∈ p.queue m → l = m) (hn : .none ∉ ls)
    (m : IntLvl) :
    (p.eraseFirst iv ls).queue m = if m ∈ ls then (p.queue m).erase iv else p.queue m := by
  induction ls with
  | nil => rfl
  | cons l ls ih =>
    have hl : l ≠ .none := fun e => hn (e ▸ List.mem_cons_self _ _)
    obtain ⟨hl_ls, hnd⟩ := List.nodup_cons.1 hnd
    have ih' := ih hnd (fun a ha b hb => hone a (List.mem_cons_of_mem _ ha) b
      (List.mem_cons_of_mem _ hb)) fun h => hn (List.mem_cons_of_mem _ h)
    have hmem : m ∈ l :: ls ↔ m = l ∨ m ∈ ls := List.mem_cons
    rw [eraseFirst]
    by_cases hiv : iv ∈ p.queue l
    · rw [if_pos hiv, queue_setQueue _ _ hl]
      by_cases hml : m = l
      · rw [if_pos hml, if_pos (hmem.2 (.inl hml)), hml]
      · rw [if_neg hml]
        by_cases hm : m ∈ ls
        · rw [if_pos (hmem.2 (.inr hm))]
          exact (Finset.erase_eq_of_not_mem fun h =>
            hml (hone m (List.mem_cons_of_mem _ hm) l (List.mem_cons_self _ _) h hiv)).symm
        · rw [if_neg fun h => (hmem.1 h).elim hml hm]
    · rw [if_neg hiv, ih']
      by_cases hml : m = l
      · subst hml; rw [if_neg hl_ls, if_pos (List.mem_cons_self _ _), Finset.erase_eq_of_not_mem hiv]
      · simp only [hmem, hml, false_or]

/-- **`setIvLvl` moves the vector.** When no vector sits in two queues, the early `break`s of
`setIvLvl` lose nothing: it erases `iv` from every queue but the one of `lvl`, where it inserts
it. -/
theorem setIvLvl_eq_assign {p : IvPending} (h : p.AtMostOne) (iv : Nat) (lvl : IntLvl) :
    p.setIvLvl iv lvl = p.assign iv lvl := by
  have hone : ∀ ls : List IntLvl, ∀ l ∈ ls, ∀ m ∈ ls, iv ∈ p.queue l → iv ∈ p.queue m → l = m :=
    fun _ l _ m _ => h iv l m
  ext1 l hl
  rw [assign_queue _ _ _ hl]
  by_cases hlvl : lvl = .none
  · subst hlvl
    rw [setIvLvl, eraseFirst_queue _ _ nodup_queued (hone _) (by decide), if_pos (mem_queued hl),
      if_neg (Ne.symm hl)]
  · have hset : p.setIvLvl iv lvl = if iv ∈ p.queue lvl then p
        else (p.setQueue (insert iv (p.queue lvl)) lvl).eraseFirst iv (queued.erase lvl) := by
      cases lvl <;> first | exact absurd rfl hlvl | rfl
    have hq : ∀ a ∈ queued.erase lvl, (p.setQueue (insert iv (p.queue lvl)) lvl).queue a = p.queue a :=
      fun a ha => by
        rw [queue_setQueue _ _ hlvl,
          if_neg ((mem_erase_queued (ne_of_mem_of_not_mem ha (none_not_mem_erase _))).1 ha)]
    rw [hset]
    split_ifs with hiv hll hll
    · rw [← hll, Finset.insert_eq_of_mem hiv]
    · exact (Finset.erase_eq_of_not_mem fun h' => hll (h iv lvl l hiv h')).symm
    all_goals rw [eraseFirst_queue _ _ (nodup_queued.erase _) (fun a ha b hb => by
      rw [hq a ha, hq b hb]; exact h iv a b) (none_not_mem_erase _), queue_setQueue _ _ hlvl]
    · rw [if_neg (by rw [mem_erase_queued hl]; exact not_not.2 hll.symm), if_pos hll.symm, hll]
    · rw [if_pos ((mem_erase_queued hl).2 fun e => hll e.symm), if_neg fun e => hll e.symm]

theorem ne_none_of_mem {p : IvPending} {iv : Nat} {l : IntLvl} (h : iv ∈ p.queue l) : l ≠ .none :=
  fun e => by subst e; simp at h

theorem AtMostOne.setIvLvl {p : IvPending} (h : p.AtMostOne) (iv : Nat) (lvl : IntLvl) :
    (p.setIvLvl iv lvl).AtMostOne := by
  rw [setIvLvl_eq_assign h]; exact h.assign iv lvl

/-! ## The map from vectors to levels -/

/-- The level whose queue holds `iv`, or `INTLVL_NONE`. -/
def pend (p : IvPending) (iv : Nat) : IntLvl :=
  (queued.find? fun l => iv ∈ p.queue l).getD .none

theorem pend_eq_iff {p : IvPending} (h : p.AtMostOne) (iv : Nat) {l : IntLvl} (hl : l ≠ .none) :
    p.pend iv = l ↔ iv ∈ p.queue l := by
  unfold pend
  cases hf : queued.find? fun l => iv ∈ p.queue l with
  | none =>
    have := List.find?_eq_none.1 hf l (mem_queued hl)
    simp only [Option.getD_none, decide_eq_true_eq] at this ⊢
    exact ⟨fun e => absurd e.symm hl, fun h' => absurd h' this⟩
  | some m =>
    have hm : iv ∈ p.queue m := by simpa using List.find?_some hf
    exact ⟨fun e => e ▸ hm, h iv m l hm⟩

/-- Two states where no vector sits in two queues are equal when they pend the same levels. -/
theorem pend_injective {p q : IvPending} (hp : p.AtMostOne) (hq : q.AtMostOne)
    (e : p.pend = q.pend) : p = q := by
  ext1 l hl
  ext iv
  rw [← pend_eq_iff hp iv hl, ← pend_eq_iff hq iv hl, e]

theorem pend_assign (p : IvPending) (iv : Nat) (l : IntLvl) :
    (p.assign iv l).pend = Function.update p.pend iv l := by
  funext j
  by_cases hj : j = iv
  · subst hj
    have : (fun m => decide (j ∈ (p.assign j l).queue m)) = fun m => decide (m ≠ .none ∧ l = m) :=
      funext fun m => by simp [mem_assign_queue]
    rw [Function.update_same, pend, this]
    cases l <;> rfl
  · have : (fun m => decide (j ∈ (p.assign iv l).queue m)) = fun m => decide (j ∈ p.queue m) :=
      funext fun m => by
        simp only [mem_assign_queue, hj, and_false, false_or, ne_eq, not_false_eq_true, true_and]
        exact decide_eq_decide.2 ⟨And.right, fun h => ⟨ne_none_of_mem h, h⟩⟩
    rw [Function.update_noteq hj, pend, pend, this]

/-- **`setIvLvl` updates the map pointwise** in every state where no vector sits in two
queues. -/
theorem setIvLvl_pend {p : IvPending} (h : p.AtMostOne) (iv : Nat) (lvl : IntLvl) :
    (p.setIvLvl iv lvl).pend = Function.update p.pend iv lvl := by
  rw [setIvLvl_eq_assign h, pend_assign]

/-! ## `processPendingInterrupts` and the PMIC registers -/

/-- Modelled from the spec: PMIC CTRL's `lolvlen`, `medlvlen`, `hilvlen` and `ivsel` bits, as in
the XMEGA manual (bits 0, 1, 2 and 6). -/
def lolvlen (ctrl : BitVec 8) : Bool := ctrl.getLsbD 0

def medlvlen (ctrl : BitVec 8) : Bool := ctrl.getLsbD 1

def hilvlen (ctrl : BitVec 8) : Bool := ctrl.getLsbD 2

def ivsel (ctrl : BitVec 8) : Bool := ctrl.getLsbD 6

end IvPending

/-- The bit of a level in PMIC STATUS, `1 << (lvl-1)`, as `currentIntLvl` and
`processPendingInterrupts` compute it. -/
def IntLvl.bit (l : IntLvl) : BitVec 8 := 1#8 <<< (l.toNat - 1)

/-- `Device::currentIntLvl`, on the PMIC STATUS byte. -/
def currentIntLvl (status : BitVec 8) : IntLvl :=
  if status = 0 then .none
  else ([IntLvl.nmi, .hi, .med, .lo].find? fun l => status &&& l.bit ≠ 0).getD .none

namespace IvPending

open IntLvl

/-- The level `processPendingInterrupts` serves, from `currentIntLvl()` and PMIC CTRL, or
`INTLVL_NONE` when it returns `false` before taking a vector. -/
def arbitrate (p : IvPending) (intlvl : IntLvl) (ctrl : BitVec 8) : IntLvl :=
  if IntLvl.nmi.toNat ≤ intlvl.toNat then .none
  else if p.nmi.Nonempty then .nmi
  else if IntLvl.hi.toNat ≤ intlvl.toNat then .none
  else if hilvlen ctrl ∧ p.hi.Nonempty then .hi
  else if IntLvl.med.toNat ≤ intlvl.toNat then .none
  else if medlvlen ctrl ∧ p.med.Nonempty then .med
  else if IntLvl.lo.toNat ≤ intlvl.toNat then .none
  else if lolvlen ctrl ∧ p.lo.Nonempty then .lo
  else .none

/-- A served level is above the current one and its queue holds a vector. -/
theorem arbitrate_spec {p : IvPending} {intlvl : IntLvl} {ctrl : BitVec 8}
    (h : p.arbitrate intlvl ctrl ≠ .none) :
    intlvl.toNat < (p.arbitrate intlvl ctrl).toNat ∧ (p.queue (p.arbitrate intlvl ctrl)).Nonempty := by
  generalize hL : p.arbitrate intlvl ctrl = L at h ⊢
  simp only [arbitrate, ite_eq_iff] at hL
  -- one case per branch: four served levels, five `INTLVL_NONE` returns
  rcases hL with ⟨-, rfl⟩ | ⟨h1, ⟨h2, rfl⟩ | ⟨-, ⟨-, rfl⟩ | ⟨h3, ⟨⟨-, h4⟩, rfl⟩ | ⟨-, ⟨-, rfl⟩ |
    ⟨h5, ⟨⟨-, h6⟩, rfl⟩ | ⟨-, ⟨-, rfl⟩ | ⟨h7, ⟨⟨-, h8⟩, rfl⟩ | ⟨-, rfl⟩⟩⟩⟩⟩⟩⟩⟩
  all_goals first
    | exact absurd rfl h
    | exact ⟨by simp only [IntLvl.toNat] at *; omega, ‹_›⟩

/-- `*iv_queue->begin()`: the smallest vector of the served queue. -/
def first (p : IvPending) (l : IntLvl) (h : (p.queue l).Nonempty) : Nat := (p.queue l).min' h

/-- What `processPendingInterrupts` does to `iv_pending_` when it serves level `l`: the first
vector of its queue is erased. -/
def take (p : IvPending) (l : IntLvl) : IvPending :=
  if h : (p.queue l).Nonempty then p.setQueue ((p.queue l).erase (p.first l h)) l else p

theorem take_queue_subset (p : IvPending) (l m : IntLvl) : (p.take l).queue m ⊆ p.queue m := by
  unfold IvPending.take
  split_ifs with hl
  · have ⟨_, hiv⟩ := hl
    rw [queue_setQueue _ _ (ne_none_of_mem hiv)]
    split_ifs with hm
    · subst hm; exact Finset.erase_subset _ _
    · exact Finset.Subset.refl _
  · exact Finset.Subset.refl _

theorem AtMostOne.take {p : IvPending} (h : p.AtMostOne) (l : IntLvl) : (p.take l).AtMostOne :=
  fun iv a b ha hb => h iv a b (take_queue_subset p l a ha) (take_queue_subset p l b hb)

/-- The states of `iv_pending_` from the `Device` constructor on, through `setIvLvl` and
`processPendingInterrupts` with any PMIC STATUS and CTRL. -/
inductive Reachable : IvPending → Prop
  | empty : Reachable empty
  | setIvLvl {p : IvPending} (iv : Nat) (lvl : IntLvl) : Reachable p → Reachable (p.setIvLvl iv lvl)
  | serve {p : IvPending} (status ctrl : BitVec 8) : Reachable p →
      Reachable (p.take (p.arbitrate (currentIntLvl status) ctrl))

theorem Reachable.atMostOne {p : IvPending} (r : Reachable p) : p.AtMostOne := by
  induction r with
  | empty => intro iv l m hl; cases l <;> exact absurd hl (Finset.not_mem_empty iv)
  | setIvLvl iv lvl _ ih => exact ih.setIvLvl iv lvl
  | serve status ctrl _ ih => exact ih.take _

/-- **`iv_pending_` refines a map from vectors to levels.** In every reachable state a vector
sits in at most one queue, and `setIvLvl` updates the map `pend` at its vector only; so
setting a level then `INTLVL_NONE` is setting `INTLVL_NONE`, a repeated call changes nothing,
and calls on distinct vectors commute. -/
theorem reachable_setIvLvl_pointwise {p : IvPending} (r : Reachable p) :
    p.AtMostOne ∧ ∀ iv lvl, (p.setIvLvl iv lvl).pend = Function.update p.pend iv lvl ∧
      (p.setIvLvl iv lvl).setIvLvl iv .none = p.setIvLvl iv .none ∧
      (p.setIvLvl iv lvl).setIvLvl iv lvl = p.setIvLvl iv lvl ∧
      ∀ j lvl', j ≠ iv →
        (p.setIvLvl iv lvl).setIvLvl j lvl' = (p.setIvLvl j lvl').setIvLvl iv lvl := by
  have h := r.atMostOne
  have h2 : ∀ iv lvl j lvl', ((p.setIvLvl iv lvl).setIvLvl j lvl').pend =
      Function.update (Function.update p.pend iv lvl) j lvl' := fun iv lvl j lvl' => by
    rw [setIvLvl_pend (h.setIvLvl iv lvl), setIvLvl_pend h]
  refine ⟨h, fun iv lvl => ⟨setIvLvl_pend h iv lvl, ?_, ?_, fun j lvl' hj => ?_⟩⟩
  · exact pend_injective ((h.setIvLvl _ _).setIvLvl _ _) (h.setIvLvl _ _) (by
      rw [h2, setIvLvl_pend h, Function.update_idem])
  · exact pend_injective ((h.setIvLvl _ _).setIvLvl _ _) (h.setIvLvl _ _) (by
      rw [h2, setIvLvl_pend h, Function.update_idem])
  · exact pend_injective ((h.setIvLvl _ _).setIvLvl _ _) ((h.setIvLvl _ _).setIvLvl _ _) (by
      rw [h2, h2, Function.update_comm hj])

theorem empty_setIvLvl_pointwise :
    empty.AtMostOne ∧ ∀ iv lvl, (empty.setIvLvl iv lvl).pend = Function.update empty.pend iv lvl ∧
      (empty.setIvLvl iv lvl).setIvLvl iv .none = empty.setIvLvl iv .none ∧
      (empty.setIvLvl iv lvl).setIvLvl iv lvl = empty.setIvLvl iv lvl ∧
      ∀ j lvl', j ≠ iv →
        (empty.setIvLvl iv lvl).setIvLvl j lvl' = (empty.setIvLvl j lvl').setIvLvl iv lvl :=
  reachable_setIvLvl_pointwise .empty

end IvPending

end Megumi
