import Mathlib.Data.List.Basic

/-!
# The protocol of `stepCPU` calls

What `Device::stepCPU` is for, stated without the device: each call either runs nothing and
counts down the cycles of the current instruction or interrupt entry, or, at an instruction
boundary, runs one instruction of `c ≥ 1` cycles (then `c - 1` calls run nothing) or enters an
interrupt (then 4 calls run nothing). An interrupt is entered only once an instruction has run
since the last entry or since reset. `Proto` is one call over `(k, w)`, with `k` the calls left
to the next boundary and `w` set while no instruction has run since the last entry or reset.

`ProtoRun.countdown` reads the `k` idle calls off a run, and `ProtoRun.exec_before` finds the
instruction that ran since the last entry.
-/

namespace Megumi

/-- What one `stepCPU` call did. -/
inductive Call
  | idle
  | exec (c : Nat)
  | dispatch
  deriving DecidableEq, Repr

/-- One call of the protocol, over `(k, w)`. -/
inductive Proto : Nat × Bool → Call → Nat × Bool → Prop
  | idle (k : Nat) (w : Bool) : Proto (k + 1, w) .idle (k, w)
  | exec (c : Nat) (w : Bool) : 1 ≤ c → Proto (0, w) (.exec c) (c - 1, false)
  | dispatch : Proto (0, false) .dispatch (4, true)

/-- Runs of the protocol, first call first. -/
inductive ProtoRun : Nat × Bool → List Call → Nat × Bool → Prop
  | nil (s : Nat × Bool) : ProtoRun s [] s
  | cons {s t u : Nat × Bool} {e : Call} {es : List Call} :
      Proto s e t → ProtoRun t es u → ProtoRun s (e :: es) u

namespace ProtoRun

theorem snoc {s t u : Nat × Bool} {es : List Call} {e : Call} (r : ProtoRun s es t)
    (h : Proto t e u) : ProtoRun s (es ++ [e]) u := by
  induction r with
  | nil => exact .cons h (.nil u)
  | cons h' _ ih => exact .cons h' (ih h)

theorem split {s u : Nat × Bool} {pre post : List Call} (r : ProtoRun s (pre ++ post) u) :
    ∃ t, ProtoRun s pre t ∧ ProtoRun t post u := by
  induction pre generalizing s with
  | nil => exact ⟨s, .nil s, r⟩
  | cons e pre ih =>
    cases r with
    | cons h r =>
      obtain ⟨t, r1, r2⟩ := ih r
      exact ⟨t, .cons h r1, r2⟩

/-- From `k` calls before a boundary, the next `k` calls run nothing, and the one after them
does not idle. -/
theorem countdown {k : Nat} {w : Bool} {post : List Call} {u : Nat × Bool}
    (r : ProtoRun (k, w) post u) :
    (∀ e ∈ post.take k, e = .idle) ∧ ∀ e ∈ (post.drop k).head?, e ≠ .idle := by
  induction k generalizing post with
  | zero =>
    refine ⟨by simp, ?_⟩
    cases r with
    | nil => simp
    | cons h _ => cases h <;> simp
  | succ k ih =>
    cases r with
    | nil => simp
    | cons h r =>
      cases h
      obtain ⟨h1, h2⟩ := ih r
      exact ⟨by simpa using h1, by simpa using h2⟩

/-- A run that ends with `w` clear either started with it clear and enters no interrupt, or
ran an instruction after its last interrupt entry. -/
theorem exec_since {s u : Nat × Bool} {es : List Call} (r : ProtoRun s es u) (hu : u.2 = false) :
    (s.2 = false ∧ Call.dispatch ∉ es) ∨
      ∃ a c b, es = a ++ Call.exec c :: b ∧ Call.dispatch ∉ b := by
  induction r with
  | nil => exact .inl ⟨hu, List.not_mem_nil _⟩
  | @cons s t u e es h _ ih =>
    rcases ih hu with ⟨ht, hd⟩ | ⟨a, c, b, rfl, hb⟩
    · cases h with
      | idle => exact .inl ⟨ht, by simpa using hd⟩
      | exec c => exact .inr ⟨[], c, es, rfl, hd⟩
      | dispatch => cases ht
    · exact .inr ⟨e :: a, c, b, rfl, hb⟩

/-- In a run from reset, an interrupt entry comes after an instruction that ran since the
previous entry. -/
theorem exec_before {u : Nat × Bool} {pre post : List Call}
    (r : ProtoRun (0, true) (pre ++ Call.dispatch :: post) u) :
    ∃ a c b, pre = a ++ Call.exec c :: b ∧ Call.dispatch ∉ b := by
  obtain ⟨t, r1, r2⟩ := r.split
  cases r2 with
  | cons h _ =>
    cases h
    rcases r1.exec_since rfl with ⟨h, -⟩ | h
    · cases h
    · exact h

end ProtoRun

end Megumi
