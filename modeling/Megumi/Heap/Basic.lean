import Mathlib.Data.Multiset.Range
import Mathlib.Logic.Function.Basic

/-!
# The heap algorithms behind `clk_sys_queue_`

`Device` keeps its clock events in a `std::vector` and orders it with `std::push_heap`,
`std::pop_heap` and `std::make_heap` (`src/device.cpp`, `Device::step`, `schedule`,
`unschedule`, `onClockConfigChange`). Those algorithms are not in the repository: this is
libstdc++'s `bits/stl_heap.h` (`__push_heap`, `__adjust_heap`, `__pop_heap`, `make_heap`),
on a vector seen as `Nat → α` and a length, with `cmp` for `clock_queue_cmp`. The front of
the vector is the element no other element orders after.

This module holds the algorithms, what they leave alone, and that they permute the
vector's contents; `Megumi.Heap.Order` proves they build heaps.
-/

namespace Megumi.Heap

open Function

variable {α : Type} (cmp : α → α → Bool)

/-- Position of the parent of heap position `i`. -/
def parent (i : Nat) : Nat := (i - 1) / 2

/-- `__push_heap(first, holeIndex, topIndex, value)`: move the hole up while its parent
orders before `value`, but not above `top`, then store `value` in it. -/
def pushUp (d : Nat → α) (hole top : Nat) (value : α) : Nat → α :=
  if top < hole ∧ cmp (d (parent hole)) value = true then
    pushUp (update d hole (d (parent hole))) (parent hole) top value
  else update d hole value
termination_by hole
decreasing_by unfold parent; omega

/-- The child `__adjust_heap` moves into the hole: the right child `2 * (hole + 1)`, unless it
orders before the left one. -/
def bigChild (d : Nat → α) (hole : Nat) : Nat :=
  if cmp (d (2 * (hole + 1))) (d (2 * (hole + 1) - 1)) then 2 * (hole + 1) - 1 else 2 * (hole + 1)

theorem bigChild_cases (d : Nat → α) (hole : Nat) :
    bigChild cmp d hole = 2 * hole + 1 ∨ bigChild cmp d hole = 2 * hole + 2 := by
  unfold bigChild; split <;> omega

/-- The first half of `__adjust_heap`: move the hole down to a leaf, pulling the bigger child
up each time. The last `if` is libstdc++'s `(len & 1) == 0 && secondChild == (len - 2) / 2`
(a hole whose only child is the last element), written without the signed division. Returns
the vector and the hole. -/
def siftHole (d : Nat → α) (hole len : Nat) : (Nat → α) × Nat :=
  if hole < (len - 1) / 2 then
    siftHole (update d hole (d (bigChild cmp d hole))) (bigChild cmp d hole) len
  else if 2 * (hole + 1) = len then
    (update d hole (d (2 * (hole + 1) - 1)), 2 * (hole + 1) - 1)
  else (d, hole)
termination_by len - hole
decreasing_by have := bigChild_cases cmp d hole; omega

/-- `__adjust_heap(first, holeIndex, len, value)`. -/
def adjustHeap (d : Nat → α) (hole len : Nat) (value : α) : Nat → α :=
  pushUp cmp (siftHole cmp d hole len).1 (siftHole cmp d hole len).2 hole value

/-- `std::push_heap(first, first + len)`: the last element joins the heap before it. -/
def pushHeap (d : Nat → α) (len : Nat) : Nat → α :=
  pushUp cmp d (len - 1) 0 (d (len - 1))

/-- `std::pop_heap(first, first + len)`: the front goes to the last position and the rest is
made a heap again by `__adjust_heap` from the root, with the old last element as the value. -/
def popHeap (d : Nat → α) (len : Nat) : Nat → α :=
  if 1 < len then adjustHeap cmp (update d (len - 1) (d 0)) 0 (len - 1) (d (len - 1)) else d

/-- The loop of `std::make_heap`: `__adjust_heap` at `parent`, then at every position before
it, down to the root. -/
def makeHeapFrom (d : Nat → α) (len : Nat) : Nat → Nat → α
  | 0 => adjustHeap cmp d 0 len (d 0)
  | p + 1 => makeHeapFrom (adjustHeap cmp d (p + 1) len (d (p + 1))) len p

/-- `std::make_heap(first, first + len)`. -/
def makeHeap (d : Nat → α) (len : Nat) : Nat → α :=
  if len < 2 then d else makeHeapFrom cmp d len ((len - 2) / 2)

/-- `vector::erase` at position `i`: every later element moves down one place. -/
def eraseAt (d : Nat → α) (i : Nat) : Nat → α := fun j => if j < i then d j else d (j + 1)

/-! ## What the algorithms leave alone -/

theorem pushUp_frame (d : Nat → α) (hole top : Nat) (value : α) :
    ∀ j, hole < j → pushUp cmp d hole top value j = d j := by
  induction hole using Nat.strong_induction_on generalizing d with
  | _ hole ih =>
    intro j hj
    rw [pushUp]
    split
    · rw [ih _ (by unfold parent; omega) _ j (by unfold parent; omega), update_noteq (by omega)]
    · exact update_noteq (by omega) _ _

theorem siftHole_frame (d : Nat → α) (hole len : Nat) :
    ∀ j, len ≤ j → (siftHole cmp d hole len).1 j = d j := by
  induction d, hole, len using siftHole.induct cmp with
  | case1 d hole len h ih =>
    intro j hj
    rw [siftHole, if_pos h, ih j hj, update_noteq (by omega)]
  | case2 d hole h =>
    intro j hj
    rw [siftHole, if_neg h, if_pos rfl]
    exact update_noteq (by omega) _ _
  | case3 d hole len h h2 =>
    intro j _
    rw [siftHole, if_neg h, if_neg h2]

/-- The hole `siftHole` stops at stays inside the vector and has no child there. -/
theorem siftHole_hole (d : Nat → α) (hole len : Nat) (h : hole < len) :
    (siftHole cmp d hole len).2 < len ∧ len ≤ 2 * (siftHole cmp d hole len).2 + 1 := by
  induction d, hole, len using siftHole.induct cmp with
  | case1 d hole len h1 ih =>
    have := bigChild_cases cmp d hole
    rw [siftHole, if_pos h1]
    exact ih (by omega)
  | case2 d hole h1 =>
    rw [siftHole, if_neg h1, if_pos rfl]
    dsimp only
    omega
  | case3 d hole len h1 h2 =>
    rw [siftHole, if_neg h1, if_neg h2]
    dsimp only
    omega

theorem adjustHeap_frame (d : Nat → α) (hole len : Nat) (value : α) (h : hole < len) :
    ∀ j, len ≤ j → adjustHeap cmp d hole len value j = d j := by
  intro j hj
  rw [adjustHeap, pushUp_frame _ _ _ _ _ j (by have := siftHole_hole cmp d hole len h; omega),
    siftHole_frame _ _ _ _ j hj]

theorem pushUp_zero (d : Nat → α) (top : Nat) (value : α) :
    pushUp cmp d 0 top value = update d 0 value := by
  rw [pushUp, if_neg (by omega)]

/-- On a vector of one element the heap algorithms do nothing. -/
theorem pushHeap_one (d : Nat → α) : pushHeap cmp d 1 = d := by
  rw [pushHeap, Nat.sub_self, pushUp_zero, update_eq_self]

theorem popHeap_one (d : Nat → α) : popHeap cmp d 1 = d := by
  rw [popHeap, if_neg (by omega)]

theorem makeHeap_one (d : Nat → α) : makeHeap cmp d 1 = d := by
  rw [makeHeap, if_pos (by omega)]

theorem popHeap_last (d : Nat → α) (len : Nat) (h : 1 < len) :
    popHeap cmp d len (len - 1) = d 0 := by
  rw [popHeap, if_pos h, adjustHeap_frame _ _ _ _ _ (by omega) _ le_rfl, update_same]

/-! ## Evaluation

`pushUp` and `siftHole` recurse on a measure, which `decide` and `rfl` do not unfold. The
versions below count their steps instead; with as much fuel as the measure they are the same
function, so a run on a concrete vector is evaluated through them. -/

/-- The elements at the first `len` positions. -/
def contents (d : Nat → α) (len : Nat) : Multiset α := (Multiset.range len).map d

theorem contents_succ (d : Nat → α) (n : Nat) : contents d (n + 1) = contents d n + {d n} := by
  rw [contents, Multiset.range_succ, Multiset.map_cons, ← Multiset.singleton_add, add_comm]; rfl

theorem contents_congr {d e : Nat → α} {n : Nat} (h : ∀ j, j < n → d j = e j) :
    contents d n = contents e n :=
  Multiset.map_congr rfl fun j hj => h j (Multiset.mem_range.1 hj)

/-- Exchanging one element for another, twice. -/
theorem trade {A B C : Multiset α} {x y z : α} (h1 : A + {y} = B + {z}) (h2 : B + {x} = C + {y}) :
    A + {x} = C + {z} := by
  apply add_right_cancel (b := ({y} : Multiset α))
  rw [add_right_comm, h1, add_right_comm, h2, add_right_comm]

theorem contents_update (d : Nat → α) {j n : Nat} (x : α) (hj : j < n) :
    contents (update d j x) n + {d j} = contents d n + {x} := by
  induction n with
  | zero => omega
  | succ n ih =>
    rw [contents_succ, contents_succ]
    rcases Nat.lt_succ_iff_lt_or_eq.1 hj with h | rfl
    · rw [update_noteq (by omega), add_right_comm, ih h, add_right_comm]
    · rw [update_same, contents_congr fun i hi => update_noteq (by omega) x d, add_right_comm]

theorem eraseAt_contents (d : Nat → α) {i n : Nat} (h : i ≤ n) :
    contents (eraseAt d i) n + {d i} = contents d (n + 1) := by
  induction n with
  | zero => rw [Nat.le_zero.1 h]; rfl
  | succ n ih =>
    rcases Nat.lt_or_eq_of_le h with h | rfl
    · rw [contents_succ, add_right_comm, ih (by omega), contents_succ d (n + 1), eraseAt,
        if_neg (by omega)]
    · rw [contents_congr (d := eraseAt d (n + 1)) (e := d) fun j hj => if_pos hj,
        contents_succ d (n + 1)]

theorem pushUp_contents (d : Nat → α) (hole top len : Nat) (value : α) (h : hole < len) :
    contents (pushUp cmp d hole top value) len + {d hole} = contents d len + {value} := by
  induction hole using Nat.strong_induction_on generalizing d with
  | _ hole ih =>
    rw [pushUp]
    split
    · have hp : parent hole < hole := by unfold parent; omega
      have up := ih _ hp (update d hole (d (parent hole))) (by omega)
      rw [update_noteq hp.ne] at up
      exact trade up (contents_update d _ h)
    · exact contents_update d value h

theorem siftHole_contents (d : Nat → α) (hole len : Nat) (h : hole < len) :
    contents (siftHole cmp d hole len).1 len + {d hole} =
      contents d len + {(siftHole cmp d hole len).1 (siftHole cmp d hole len).2} := by
  induction d, hole, len using siftHole.induct cmp with
  | case1 d hole len h1 ih =>
    have := bigChild_cases cmp d hole
    rw [siftHole, if_pos h1]
    have down := ih (by omega)
    rw [update_noteq (by omega)] at down
    exact trade down (contents_update d _ h)
  | case2 d hole h1 =>
    rw [siftHole, if_neg h1, if_pos rfl]
    exact (contents_update d _ h).trans (by dsimp only; rw [update_noteq (by omega)])
  | case3 d hole len h1 h2 =>
    rw [siftHole, if_neg h1, if_neg h2]

theorem adjustHeap_contents (d : Nat → α) (hole len : Nat) (value : α) (h : hole < len) :
    contents (adjustHeap cmp d hole len value) len + {d hole} = contents d len + {value} :=
  trade (pushUp_contents cmp _ _ _ _ _ (siftHole_hole cmp d hole len h).1)
    (siftHole_contents cmp d hole len h)

theorem makeHeapFrom_contents (d : Nat → α) (len p : Nat) (h : p < len) :
    contents (makeHeapFrom cmp d len p) len = contents d len := by
  induction p generalizing d with
  | zero => exact add_right_cancel (adjustHeap_contents cmp d 0 len _ h)
  | succ p ih =>
    rw [makeHeapFrom, ih _ (by omega)]
    exact add_right_cancel (adjustHeap_contents cmp d _ len _ h)

theorem makeHeap_contents (d : Nat → α) (len : Nat) :
    contents (makeHeap cmp d len) len = contents d len := by
  unfold makeHeap
  split
  · rfl
  · exact makeHeapFrom_contents cmp d len _ (by omega)

theorem pushHeap_contents (d : Nat → α) (len : Nat) (h : 0 < len) :
    contents (pushHeap cmp d len) len = contents d len :=
  add_right_cancel (pushUp_contents cmp d _ 0 len _ (by omega))

/-- `pop_heap` then `pop_back`: the vector loses its front. -/
theorem popHeap_contents_init (d : Nat → α) (len : Nat) (h : 1 < len) :
    contents (popHeap cmp d len) (len - 1) + {d 0} = contents d len := by
  obtain ⟨n, rfl⟩ : ∃ n, len = n + 1 := ⟨len - 1, by omega⟩
  have adj := adjustHeap_contents cmp (update d n (d 0)) 0 n (d n) (by omega)
  rw [update_noteq (by omega), contents_congr (e := d) fun j hj => update_noteq (by omega) _ d] at adj
  rw [popHeap, if_pos h, Nat.add_sub_cancel, adj, contents_succ]

theorem popHeap_contents (d : Nat → α) (len : Nat) (h : 1 < len) :
    contents (popHeap cmp d len) len = contents d len := by
  obtain ⟨n, rfl⟩ : ∃ n, len = n + 1 := ⟨len - 1, by omega⟩
  have init := popHeap_contents_init cmp d (n + 1) h
  have last := popHeap_last cmp d (n + 1) h
  rw [Nat.add_sub_cancel] at init last
  rw [contents_succ, last, init]

end Megumi.Heap
