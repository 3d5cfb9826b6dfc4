import Megumi.Heap.Basic

/-!
# The heap algorithms build heaps

A vector is a heap from `top` on when no position whose parent is at or after `top` orders
after its parent. `__push_heap` and `__adjust_heap` both move a hole; the invariant `Hole`
says every parent/child pair off the hole is in order and the hole's children are in order
with the hole's parent. Moving the hole up (`Hole.up`) or down (`Hole.down`) keeps it, and
filling it (`Hole.finish`) leaves a heap.

`popHeap_heap` needs the pairs below the root only: `Device::step` raises the tick of the
event at the root and then calls `pop_heap` on a vector that is no longer a heap.
-/

namespace Megumi.Heap

open Function

variable {α : Type} {cmp : α → α → Bool}

/-- What the algorithms need of `cmp`: a strict weak order, given by negative transitivity. -/
structure StrictWeak (cmp : α → α → Bool) : Prop where
  irrefl : ∀ a, cmp a a = false
  trans : ∀ {a b c}, cmp a b = true → cmp b c = true → cmp a c = true
  ntrans : ∀ {a b c}, cmp a b = false → cmp b c = false → cmp a c = false

theorem StrictWeak.asymm (o : StrictWeak cmp) {a b : α} (h : cmp a b = true) : cmp b a = false := by
  cases hba : cmp b a
  · rfl
  · simpa [o.irrefl] using o.trans h hba

variable (cmp) in
/-- No position whose parent is at or after `top` orders after its parent. -/
def HeapFrom (d : Nat → α) (top len : Nat) : Prop :=
  ∀ i, 0 < i → i < len → top ≤ parent i → cmp (d (parent i)) (d i) = false

variable (cmp) in
/-- `[0, len)` is a heap. -/
def IsHeap (d : Nat → α) (len : Nat) : Prop := HeapFrom cmp d 0 len

/-- Position `h` is in the subtree at `top`. -/
inductive Desc (top : Nat) : Nat → Prop
  | refl : Desc top top
  | child {h c : Nat} : Desc top h → 0 < c → parent c = h → Desc top c

theorem Desc.le {top h : Nat} (d : Desc top h) : top ≤ h := by
  induction d with
  | refl => exact le_rfl
  | child _ hc hp ih => unfold parent at hp; omega

theorem Desc.up {top h : Nat} (d : Desc top h) (hne : h ≠ top) :
    top ≤ parent h ∧ Desc top (parent h) := by
  cases d with
  | refl => exact absurd rfl hne
  | child d _ hp => rw [hp]; exact ⟨d.le, d⟩

theorem desc_zero (h : Nat) : Desc 0 h := by
  induction h using Nat.strong_induction_on with
  | _ h ih =>
    rcases Nat.eq_zero_or_pos h with rfl | hpos
    · exact .refl
    · exact .child (ih (parent h) (by unfold parent; omega)) hpos rfl

theorem child_eq {h c : Nat} (hc : 0 < c) (hp : parent c = h) : c = 2 * h + 1 ∨ c = 2 * h + 2 := by
  unfold parent at hp; omega

variable (cmp) in
/-- The order around a hole at `hole`, for the subtree at `top` in `[0, len)`. -/
structure Hole (d : Nat → α) (hole top len : Nat) : Prop where
  desc : Desc top hole
  except : ∀ i, 0 < i → i < len → top ≤ parent i → i ≠ hole → parent i ≠ hole →
    cmp (d (parent i)) (d i) = false
  grand : hole ≠ top → ∀ c, 0 < c → c < len → parent c = hole →
    cmp (d (parent hole)) (d c) = false

section Sift

variable (o : StrictWeak cmp) {d : Nat → α} {hole top len : Nat} {value : α}
include o

/-- One iteration of `__push_heap`: the parent moves down into the hole. -/
theorem Hole.up (H : Hole cmp d hole top len)
    (hmove : top < hole ∧ cmp (d (parent hole)) value = true) (hl : hole < len) :
    Hole cmp (update d hole (d (parent hole))) (parent hole) top len ∧
      ∀ c, 0 < c → c < len → parent c = parent hole →
        cmp value (update d hole (d (parent hole)) c) = false := by
  have hp : parent hole < hole := by unfold parent; omega
  obtain ⟨htp, dp⟩ := H.desc.up (by omega)
  have hpp : parent (parent hole) < hole := by unfold parent at *; omega
  have sib : ∀ c, 0 < c → c < len → parent c = parent hole → c ≠ hole →
      cmp (d (parent hole)) (d c) = false := fun c hc0 hcl hcp hch => by
    have := H.except c hc0 hcl (hcp ▸ htp) hch (by omega)
    rwa [hcp] at this
  refine ⟨⟨dp, fun i hi0 hil hti hip hpi => ?_, fun hpt c hc0 hcl hcp => ?_⟩, fun c hc0 hcl hcp => ?_⟩
  · have hih : i ≠ hole := fun e => hpi (e ▸ rfl)
    rw [update_noteq hih]
    by_cases hph : parent i = hole
    · rw [hph, update_same]; exact H.grand (by omega) i hi0 hil hph
    · rw [update_noteq hph]; exact H.except i hi0 hil hti hih hph
  · have pp := H.except (parent hole) (by have := (dp.up hpt).1; unfold parent at *; omega)
      (by omega) (dp.up hpt).1 hp.ne (by omega)
    rw [update_noteq hpp.ne]
    by_cases hch : c = hole
    · rw [hch, update_same]; exact pp
    · rw [update_noteq hch]; exact o.ntrans pp (sib c hc0 hcl hcp hch)
  · by_cases hch : c = hole
    · rw [hch, update_same]; exact o.asymm hmove.2
    · rw [update_noteq hch]
      cases hv : cmp value (d c)
      · rfl
      · simpa [sib c hc0 hcl hcp hch] using o.trans hmove.2 hv

omit o in
/-- The end of `__push_heap`: `value` fills the hole. -/
theorem Hole.finish (H : Hole cmp d hole top len)
    (below : ∀ c, 0 < c → c < len → parent c = hole → cmp value (d c) = false)
    (hstop : ¬(top < hole ∧ cmp (d (parent hole)) value = true)) :
    HeapFrom cmp (update d hole value) top len := by
  intro i hi0 hil hti
  by_cases hih : i = hole
  · subst hih
    have hp : parent i ≠ i := by unfold parent; omega
    rw [update_same, update_noteq hp]
    cases hc : cmp (d (parent i)) value
    · rfl
    · exact absurd ⟨by unfold parent at hti; omega, hc⟩ hstop
  · rw [update_noteq hih]
    by_cases hph : parent i = hole
    · rw [hph, update_same]; exact below i hi0 hil hph
    · rw [update_noteq hph]; exact H.except i hi0 hil hti hih hph

omit o in
/-- One iteration of `__adjust_heap`'s descent: a child no sibling orders after moves up. -/
theorem Hole.down {s : Nat} (H : Hole cmp d hole top len) (hs0 : 0 < s) (hsl : s < len)
    (hsp : parent s = hole)
    (max : ∀ c, 0 < c → c < len → parent c = hole → cmp (d s) (d c) = false) :
    Hole cmp (update d hole (d s)) s top len := by
  have hhs : hole < s := by unfold parent at hsp; omega
  refine ⟨.child H.desc hs0 hsp, fun i hi0 hil hti his hpis => ?_, fun _ c hc0 hcl hcs => ?_⟩
  · by_cases hih : i = hole
    · subst hih
      have hne : i ≠ top := fun e => by subst e; unfold parent at hti; omega
      rw [update_same, update_noteq (by unfold parent; omega)]
      exact H.grand hne s hs0 hsl hsp
    · rw [update_noteq hih]
      by_cases hph : parent i = hole
      · rw [hph, update_same]; exact max i hi0 hil hph
      · rw [update_noteq hph]; exact H.except i hi0 hil hti hih hph
  · have hc : c ≠ hole := by unfold parent at hcs; omega
    rw [hsp, update_same, update_noteq hc]
    have := H.except c hc0 hcl (by rw [hcs]; exact (H.desc.le).trans hhs.le) hc (by omega)
    rwa [hcs] at this

theorem bigChild_max :
    ∀ c, 0 < c → c < len → parent c = hole → cmp (d (bigChild cmp d hole)) (d c) = false := by
  intro c hc0 _ hcp
  unfold bigChild
  split <;> rename_i hb <;> rcases child_eq hc0 hcp with rfl | rfl
  · rw [show 2 * (hole + 1) - 1 = 2 * hole + 1 by omega]; exact o.irrefl _
  · rw [show 2 * (hole + 1) - 1 = 2 * hole + 1 by omega, show 2 * hole + 2 = 2 * (hole + 1) by omega]
    exact o.asymm hb
  · rw [show 2 * hole + 1 = 2 * (hole + 1) - 1 by omega]; simpa using hb
  · rw [show 2 * hole + 2 = 2 * (hole + 1) by omega]; exact o.irrefl _

end Sift

variable (o : StrictWeak cmp)
include o

theorem pushUp_heap (d : Nat → α) (hole top len : Nat) (value : α) (H : Hole cmp d hole top len)
    (below : ∀ c, 0 < c → c < len → parent c = hole → cmp value (d c) = false) (hl : hole < len) :
    HeapFrom cmp (pushUp cmp d hole top value) top len := by
  induction hole using Nat.strong_induction_on generalizing d with
  | _ hole ih =>
    rw [pushUp]
    split
    · rename_i hmove
      obtain ⟨H', below'⟩ := H.up o hmove hl
      exact ih _ (by unfold parent; omega) _ H' below' (by unfold parent; omega)
    · exact H.finish below ‹_›

theorem siftHole_hole_order (d : Nat → α) (hole top len : Nat) (H : Hole cmp d hole top len)
    (hl : hole < len) :
    Hole cmp (siftHole cmp d hole len).1 (siftHole cmp d hole len).2 top len := by
  induction d, hole, len using siftHole.induct cmp with
  | case1 d hole len h1 ih =>
    have := bigChild_cases cmp d hole
    rw [siftHole, if_pos h1]
    exact ih (H.down (by omega) (by omega) (by unfold parent; omega) (bigChild_max o))
      (by omega)
  | case2 d hole h1 =>
    rw [siftHole, if_neg h1, if_pos rfl]
    refine H.down (by omega) (by omega) (by unfold parent; omega) fun c hc0 hcl hcp => ?_
    rcases child_eq hc0 hcp with rfl | rfl
    · rw [show 2 * (hole + 1) - 1 = 2 * hole + 1 by omega]; exact o.irrefl _
    · omega
  | case3 d hole len h1 h2 =>
    rw [siftHole, if_neg h1, if_neg h2]
    exact H

theorem adjustHeap_heap (d : Nat → α) (top len : Nat) (value : α) (H : HeapFrom cmp d (top + 1) len)
    (hl : top < len) : HeapFrom cmp (adjustHeap cmp d top len value) top len := by
  have start : Hole cmp d top top len :=
    ⟨.refl, fun i hi0 hil hti hit hpt => H i hi0 hil (by omega), fun h => absurd rfl h⟩
  have room := siftHole_hole cmp d top len hl
  refine pushUp_heap o _ _ _ _ _ (siftHole_hole_order o d top top len start hl)
    (fun c hc0 hcl hcp => ?_) room.1
  rcases child_eq hc0 hcp with rfl | rfl <;> omega

theorem makeHeapFrom_heap (d : Nat → α) (len p : Nat) (H : HeapFrom cmp d (p + 1) len)
    (hp : p < len) : IsHeap cmp (makeHeapFrom cmp d len p) len := by
  induction p generalizing d with
  | zero => exact adjustHeap_heap o d 0 len _ H hp
  | succ p ih => exact ih _ (adjustHeap_heap o d (p + 1) len _ H hp) (by omega)

theorem makeHeap_heap (d : Nat → α) (len : Nat) : IsHeap cmp (makeHeap cmp d len) len := by
  unfold makeHeap
  split
  · intro i hi0 hil; omega
  · exact makeHeapFrom_heap o d len _ (fun i _ hil hpi => by unfold parent at hpi; omega) (by omega)

/-- `pop_heap` needs no order between the root and its children. -/
theorem popHeap_heap (d : Nat → α) (len : Nat) (H : HeapFrom cmp d 1 len) :
    IsHeap cmp (popHeap cmp d len) (len - 1) := by
  unfold popHeap
  split
  · refine adjustHeap_heap o _ 0 _ _ (fun i hi0 hil hpi => ?_) (by omega)
    have hp : parent i < i := by unfold parent; omega
    rw [update_noteq (by omega), update_noteq (by omega)]
    exact H i hi0 (by omega) hpi
  · intro i hi0 hil; omega

theorem pushHeap_heap (d : Nat → α) (len : Nat) (H : IsHeap cmp d (len - 1)) (hn : 0 < len) :
    IsHeap cmp (pushHeap cmp d len) len := by
  refine pushUp_heap o _ _ _ _ _ ⟨desc_zero _, fun i hi0 hil _ hin _ => ?_, fun _ c hc0 hcl hcp => ?_⟩
    (fun c hc0 hcl hcp => ?_) ?_
  · exact H i hi0 (by omega) (Nat.zero_le _)
  all_goals first | (rcases child_eq hc0 hcp with rfl | rfl <;> omega) | omega

/-- The front of a heap is below no element: `cmp (d 0) (d i)` fails for every `i < len`. -/
theorem IsHeap.front {d : Nat → α} {len : Nat} (H : IsHeap cmp d len) :
    ∀ i, i < len → cmp (d 0) (d i) = false := by
  intro i
  induction i using Nat.strong_induction_on with
  | _ i ih =>
    intro hi
    rcases Nat.eq_zero_or_pos i with rfl | hpos
    · exact o.irrefl _
    · exact o.ntrans (ih (parent i) (by unfold parent; omega) (by unfold parent; omega))
        (H i hpos hi (Nat.zero_le _))

end Megumi.Heap
