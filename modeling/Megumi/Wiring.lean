import Megumi.Interrupts

/-!
# Block wiring

`Device::connectBlock` (`src/device.cpp`) records a block in `io_blocks_` for each I/O address
of its range and in `iv_blocks_` for each of its interrupt vectors (when its `iv_base()` is not
zero), after checking the ranges against `MEM_IO_SIZE` and `IV_MAX_COUNT`, and throws on the
first address or vector another block holds. `getIoMem` and `setIoMem` call the block of
`io_blocks_[addr]` at `addr - block->io_addr()`, and `processPendingInterrupts` calls
`executeIv(iv_num - block->iv_base())` on `iv_blocks_[iv_num]`.

A block is its identity (the object `Block*` points to) and the ranges it declares; its
registers and vectors act on its own state, which is not modelled. The tables are a `Wiring`,
the part of a `Device` that `connectBlock` writes; a throw ends `Device::Device`, so only
successful calls build a wiring (`Connected`). Along them each table entry is exactly the
connected block whose range holds it, and the ranges are disjoint (`Connected.owns`).
-/

namespace Megumi

/-- `MEM_IO_SIZE`. -/
def MEM_IO_SIZE : Nat := 0x1000

/-- `IV_MAX_COUNT`: the number of entries of `iv_blocks_`. -/
def IV_MAX_COUNT : Nat := 0x80

/-- The CPU block's I/O base and size. -/
def CPU_IO_ADDR : Nat := 0x0030
def CPU_IO_SIZE : Nat := 0x10
/-- The CLK block's I/O base and size. -/
def CLK_IO_ADDR : Nat := 0x0040
def CLK_IO_SIZE : Nat := 0x08

/-- A block as `connectBlock` sees it: which object it is, its name, and its ranges. -/
structure Block where
  id : Nat
  name : String
  ioAddr : Nat
  ioSize : Nat
  ivBase : Nat
  ivCount : Nat
  deriving DecidableEq, Repr

namespace Block

/-- I/O address `a` is in the block's range. -/
def hasIo (b : Block) (a : Nat) : Prop := b.ioAddr ≤ a ∧ a < b.ioAddr + b.ioSize

/-- Vector `v` is one of the block's, which needs a non-zero `iv_base()`. -/
def hasIv (b : Block) (v : Nat) : Prop := b.ivBase ≠ 0 ∧ b.ivBase ≤ v ∧ v < b.ivBase + b.ivCount

instance (b : Block) (a : Nat) : Decidable (b.hasIo a) := inferInstanceAs (Decidable (_ ∧ _))
instance (b : Block) (v : Nat) : Decidable (b.hasIv v) := inferInstanceAs (Decidable (_ ∧ _))

theorem mem_range'_iff_hasIo (b : Block) (a : Nat) :
    a ∈ List.range' b.ioAddr b.ioSize ↔ b.hasIo a := List.mem_range'_1

theorem mem_range'_iff_hasIv (b : Block) (hb : b.ivBase ≠ 0) (v : Nat) :
    v ∈ List.range' b.ivBase b.ivCount ↔ b.hasIv v := by
  rw [List.mem_range'_1, hasIv]; exact ⟨fun h => ⟨hb, h⟩, fun h => h.2⟩

end Block

/-- `blocks_`, `io_blocks_` and `iv_blocks_`. -/
structure Wiring where
  blocks : List Block
  ioBlocks : Nat → Option Block
  ivBlocks : Nat → Option Block

namespace Wiring

/-- The tables before the first `connectBlock`. -/
def empty : Wiring := ⟨[], fun _ => none, fun _ => none⟩

/-- The loops of `connectBlock` over a range: each entry, in order, must be free (else the
error names the block holding it) and is given to `b`. -/
def claim (tbl : Nat → Option Block) (b : Block) (msg : String) :
    List Nat → Except String (Nat → Option Block)
  | [] => .ok tbl
  | a :: rest => match tbl a with
    | some other => .error (msg ++ other.name)
    | none => claim (Function.update tbl a (some b)) b msg rest

/-- `Device::connectBlock`. -/
def connectBlock (t : Wiring) (b : Block) : Except String Wiring :=
  if b.ioAddr + b.ioSize > MEM_IO_SIZE then .error "I/O memory out of range"
  else (claim t.ioBlocks b "I/O memory space overlaps with block "
      (List.range' b.ioAddr b.ioSize)).bind fun io =>
    (if b.ivBase ≠ 0 then
      if b.ivBase + b.ivCount > IV_MAX_COUNT then .error "IVs out of range"
      else claim t.ivBlocks b "interrupt vectors overlap with block "
        (List.range' b.ivBase b.ivCount)
    else .ok t.ivBlocks).bind fun iv =>
    .ok ⟨t.blocks ++ [b], io, iv⟩

/-- The call `getIoMem` and `setIoMem` make for `addr`: the block of `io_blocks_[addr]` and
the local address `addr - block->io_addr()`; `none` where no block holds `addr`. -/
def ioCall (t : Wiring) (addr : Nat) : Option (Block × Nat) :=
  (t.ioBlocks addr).map fun b => (b, addr - b.ioAddr)

/-- The call `processPendingInterrupts` makes for vector `iv`: `executeIv(iv - iv_base())` on
`iv_blocks_[iv]`; `none` where the `assert(block)` fails. -/
def ivCall (t : Wiring) (iv : Nat) : Option (Block × Nat) :=
  (t.ivBlocks iv).map fun b => (b, iv - b.ivBase)

/-! ## The loops -/

section Claim

variable {tbl : Nat → Option Block} {b : Block} {msg : String}

/-- A loop over free, distinct entries gives them all to `b`. -/
theorem claim_eq : ∀ {tbl : Nat → Option Block} {l : List Nat}, l.Nodup →
    (∀ a ∈ l, tbl a = none) → claim tbl b msg l = .ok fun a => if a ∈ l then some b else tbl a
  | tbl, [], _, _ => rfl
  | tbl, a :: rest, hnd, hfree => by
    obtain ⟨ha, hnd⟩ := List.nodup_cons.1 hnd
    rw [claim, hfree a (List.mem_cons_self _ _)]
    dsimp only
    rw [claim_eq hnd fun a' h' => ?_]
    · congr 1; funext x
      by_cases hx : x = a
      · subst hx; simp [ha]
      · simp [hx, Function.update_noteq hx]
    · rw [Function.update_noteq (fun e => ha (by rw [← e]; exact h'))]
      exact hfree a' (List.mem_cons_of_mem _ h')

/-- A loop that meets a held entry throws. -/
theorem claim_error : ∀ {tbl : Nat → Option Block} {l : List Nat}, (∃ a ∈ l, tbl a ≠ none) →
    ∃ e, claim tbl b msg l = .error e
  | _, [], ⟨_, ha, _⟩ => absurd ha (List.not_mem_nil _)
  | tbl, a :: rest, ⟨a', ha', hne⟩ => by
    rw [claim]
    cases hta : tbl a with
    | some other => exact ⟨_, rfl⟩
    | none =>
      rcases List.mem_cons.1 ha' with rfl | ha'
      · exact absurd hta hne
      · exact claim_error ⟨a', ha', by
          rwa [Function.update_noteq fun e => hne (by rw [e]; exact hta)]⟩

theorem claim_ok {l : List Nat} {r : Nat → Option Block} (h : claim tbl b msg l = .ok r) :
    ∀ a ∈ l, tbl a = none := by
  intro a ha
  by_contra hne
  obtain ⟨e, he⟩ : ∃ e, claim tbl b msg l = .error e := claim_error ⟨a, ha, hne⟩
  rw [h] at he; cases he

end Claim

/-! ## connectBlock -/

theorem bind_eq_ok {ε α β : Type} {x : Except ε α} {f : α → Except ε β} {y : β} :
    x.bind f = .ok y ↔ ∃ a, x = .ok a ∧ f a = .ok y := by
  cases x <;> simp [Except.bind]

/-- What a successful `connectBlock` needed and did: the ranges fit the tables and were free,
and `b` holds them now and is appended to `blocks_`. -/
theorem connectBlock_ok {t t' : Wiring} {b : Block} (h : t.connectBlock b = .ok t') :
    b.ioAddr + b.ioSize ≤ MEM_IO_SIZE ∧ (b.ivBase ≠ 0 → b.ivBase + b.ivCount ≤ IV_MAX_COUNT) ∧
      (∀ a, b.hasIo a → t.ioBlocks a = none) ∧ (∀ v, b.hasIv v → t.ivBlocks v = none) ∧
      t'.blocks = t.blocks ++ [b] ∧
      (∀ a, t'.ioBlocks a = if b.hasIo a then some b else t.ioBlocks a) ∧
      ∀ v, t'.ivBlocks v = if b.hasIv v then some b else t.ivBlocks v := by
  unfold connectBlock at h
  split at h
  · cases h
  obtain ⟨io, hio, h⟩ := bind_eq_ok.1 h
  obtain ⟨iv, hiv, h⟩ := bind_eq_ok.1 h
  cases h
  have hfree := claim_ok hio
  rw [claim_eq (List.nodup_range' _ _) hfree] at hio
  cases hio
  have hio : ∀ a, (if a ∈ List.range' b.ioAddr b.ioSize then some b else t.ioBlocks a) =
      if b.hasIo a then some b else t.ioBlocks a := fun a => by
    simp only [Block.mem_range'_iff_hasIo]
  by_cases hb : b.ivBase = 0
  · rw [if_neg (not_not.2 hb)] at hiv
    cases hiv
    exact ⟨by omega, fun h => absurd hb h, fun a ha => hfree a ((b.mem_range'_iff_hasIo a).2 ha),
      fun v hv => absurd hb hv.1, rfl, hio, fun v => by simp [Block.hasIv, hb]⟩
  · rw [if_pos hb] at hiv
    split at hiv
    · cases hiv
    have hfree' := claim_ok hiv
    rw [claim_eq (List.nodup_range' _ _) hfree'] at hiv
    cases hiv
    exact ⟨by omega, fun _ => by omega, fun a ha => hfree a ((b.mem_range'_iff_hasIo a).2 ha),
      fun v hv => hfree' v ((b.mem_range'_iff_hasIv hb v).2 hv), rfl, hio,
      fun v => by simp only [b.mem_range'_iff_hasIv hb]⟩

/-- The loops of `connectBlock` over a range, with the table they leave: each free entry, in
order, is given to `b`, up to the first held one, where the loop throws. -/
def claimState (tbl : Nat → Option Block) (b : Block) (msg : String) :
    List Nat → (Nat → Option Block) × Option String
  | [] => (tbl, none)
  | a :: rest => match tbl a with
    | some other => (tbl, some (msg ++ other.name))
    | none => claimState (Function.update tbl a (some b)) b msg rest

/-- `Device::connectBlock` with the tables it leaves, also when it throws: the wiring after the
call, and the `BlockError` message when it throws. -/
def connectBlockState (t : Wiring) (b : Block) : Wiring × Option String :=
  if b.ioAddr + b.ioSize > MEM_IO_SIZE then (t, some "I/O memory out of range")
  else match claimState t.ioBlocks b "I/O memory space overlaps with block "
      (List.range' b.ioAddr b.ioSize) with
    | (io, some e) => ({ t with ioBlocks := io }, some e)
    | (io, none) =>
      if b.ivBase ≠ 0 then
        if b.ivBase + b.ivCount > IV_MAX_COUNT then ({ t with ioBlocks := io }, some "IVs out of range")
        else match claimState t.ivBlocks b "interrupt vectors overlap with block "
            (List.range' b.ivBase b.ivCount) with
          | (iv, some e) => ({ t with ioBlocks := io, ivBlocks := iv }, some e)
          | (iv, none) => (⟨t.blocks ++ [b], io, iv⟩, none)
      else (⟨t.blocks ++ [b], io, t.ivBlocks⟩, none)

/-- The result `connectBlock` reports for a call that leaves `r`. -/
def result (r : Wiring × Option String) : Except String Wiring :=
  match r with
  | (t, none) => .ok t
  | (_, some e) => .error e

section ClaimState

variable {b : Block} {msg : String}

theorem claim_eq_claimState : ∀ (tbl : Nat → Option Block) (l : List Nat),
    claim tbl b msg l = match claimState tbl b msg l with
      | (r, none) => .ok r
      | (_, some e) => .error e
  | _, [] => rfl
  | tbl, a :: rest => by
    rw [claim, claimState]
    cases tbl a with
    | some other => rfl
    | none => exact claim_eq_claimState _ rest

/-- An entry after the loop is as it was, or was free, lies in the range and is `b`'s now. -/
theorem claimState_entry : ∀ (tbl : Nat → Option Block) (l : List Nat) (a : Nat),
    (claimState tbl b msg l).1 a = tbl a ∨
      (tbl a = none ∧ (claimState tbl b msg l).1 a = some b ∧ a ∈ l)
  | _, [], _ => .inl rfl
  | tbl, x :: rest, a => by
    rw [claimState]
    cases hx : tbl x with
    | some other => exact .inl rfl
    | none =>
      dsimp only
      rcases claimState_entry (Function.update tbl x (some b)) rest a with h | ⟨hfree, hb, ha⟩
      · by_cases hax : a = x
        · subst hax; exact .inr ⟨hx, by rw [h, Function.update_same], List.mem_cons_self _ _⟩
        · rw [Function.update_noteq hax] at h; exact .inl h
      · by_cases hax : a = x
        · subst hax; rw [Function.update_same] at hfree; cases hfree
        · rw [Function.update_noteq hax] at hfree
          exact .inr ⟨hfree, hb, List.mem_cons_of_mem _ ha⟩

end ClaimState

theorem connectBlock_eq_state (t : Wiring) (b : Block) :
    t.connectBlock b = result (t.connectBlockState b) := by
  unfold connectBlock connectBlockState
  by_cases hr : b.ioAddr + b.ioSize > MEM_IO_SIZE
  · rw [if_pos hr, if_pos hr]; rfl
  rw [if_neg hr, if_neg hr, claim_eq_claimState]
  rcases claimState t.ioBlocks b _ (List.range' b.ioAddr b.ioSize) with ⟨io, _ | e⟩
  · by_cases hb : b.ivBase ≠ 0
    · by_cases hv : b.ivBase + b.ivCount > IV_MAX_COUNT
      · simp only [if_pos hb, if_pos hv]; rfl
      · simp only [if_pos hb, if_neg hv, claim_eq_claimState]
        rcases claimState t.ivBlocks b _ (List.range' b.ivBase b.ivCount) with ⟨iv, _ | e⟩ <;> rfl
    · simp only [if_neg hb]; rfl
  · rfl

/-- **What a throw leaves.** A `connectBlock` call that throws (`connectBlock` reports the
error) leaves `blocks_` as it was; every entry of `io_blocks_` and `iv_blocks_` is as it was, or
was free, lies in the block's range and now holds the block. -/
theorem connectBlockState_error {t t' : Wiring} {b : Block} {e : String}
    (h : t.connectBlockState b = (t', some e)) :
    t.connectBlock b = .error e ∧ t'.blocks = t.blocks ∧
      (∀ a, t'.ioBlocks a = t.ioBlocks a ∨
        (t.ioBlocks a = none ∧ t'.ioBlocks a = some b ∧ b.hasIo a)) ∧
      ∀ v, t'.ivBlocks v = t.ivBlocks v ∨
        (t.ivBlocks v = none ∧ t'.ivBlocks v = some b ∧ b.hasIv v) := by
  have hio := @claimState_entry b "I/O memory space overlaps with block " t.ioBlocks
    (List.range' b.ioAddr b.ioSize)
  have hiv := @claimState_entry b "interrupt vectors overlap with block " t.ivBlocks
    (List.range' b.ivBase b.ivCount)
  refine ⟨by rw [connectBlock_eq_state, h]; rfl, ?_⟩
  unfold connectBlockState at h
  split at h
  · cases h; exact ⟨rfl, fun _ => .inl rfl, fun _ => .inl rfl⟩
  generalize claimState t.ioBlocks b "I/O memory space overlaps with block "
    (List.range' b.ioAddr b.ioSize) = r at h hio
  -- the I/O loop's entries, once it has run
  have io : ∀ a, r.1 a = t.ioBlocks a ∨ (t.ioBlocks a = none ∧ r.1 a = some b ∧ b.hasIo a) :=
    fun a => (hio a).imp_right fun ⟨h1, h2, h3⟩ => ⟨h1, h2, (b.mem_range'_iff_hasIo a).1 h3⟩
  obtain ⟨io', _ | e'⟩ := r <;> dsimp only at h io
  · by_cases hb : b.ivBase ≠ 0
    · rw [if_pos hb] at h
      split at h
      · cases h; exact ⟨rfl, io, fun _ => .inl rfl⟩
      generalize claimState t.ivBlocks b "interrupt vectors overlap with block "
        (List.range' b.ivBase b.ivCount) = s at h hiv
      obtain ⟨iv', _ | e''⟩ := s <;> dsimp only at h
      · cases h
      · cases h
        exact ⟨rfl, io, fun v => (hiv v).imp_right fun ⟨h1, h2, h3⟩ =>
          ⟨h1, h2, (b.mem_range'_iff_hasIv hb v).1 h3⟩⟩
    · rw [if_neg hb] at h; cases h
  · cases h; exact ⟨rfl, io, fun _ => .inl rfl⟩

theorem connectBlockState_error_gpior :
    let t := (empty.connectBlockState ⟨0, "CPU", 0x30, 0x10, 0, 0⟩).1
    let b : Block := ⟨2, "GPIOR", 0x28, 0x10, 0, 0⟩
    let t' := (t.connectBlockState b).1
    t.connectBlockState b = (t', some "I/O memory space overlaps with block CPU") ∧
      t.connectBlock b = .error "I/O memory space overlaps with block CPU" ∧ t'.blocks = t.blocks ∧
      (∀ a, t'.ioBlocks a = t.ioBlocks a ∨
        (t.ioBlocks a = none ∧ t'.ioBlocks a = some b ∧ b.hasIo a)) ∧
      ∀ v, t'.ivBlocks v = t.ivBlocks v ∨
        (t.ivBlocks v = none ∧ t'.ivBlocks v = some b ∧ b.hasIv v) :=
  ⟨rfl, connectBlockState_error rfl⟩

/-! ## Ownership -/

/-- The tables hold exactly the connected blocks on their ranges, the ranges fit the tables,
and no two connected blocks share an I/O address or a vector. -/
structure Owns (t : Wiring) : Prop where
  io : ∀ a c, t.ioBlocks a = some c ↔ c ∈ t.blocks ∧ c.hasIo a
  iv : ∀ v c, t.ivBlocks v = some c ↔ c ∈ t.blocks ∧ c.hasIv v
  bounds : ∀ c ∈ t.blocks, c.ioAddr + c.ioSize ≤ MEM_IO_SIZE ∧
    (c.ivBase ≠ 0 → c.ivBase + c.ivCount ≤ IV_MAX_COUNT)
  disjoint : t.blocks.Pairwise fun c c' =>
    (∀ a, ¬ (c.hasIo a ∧ c'.hasIo a)) ∧ ∀ v, ¬ (c.hasIv v ∧ c'.hasIv v)

theorem empty_owns : empty.Owns :=
  ⟨fun _ _ => by simp [empty], fun _ _ => by simp [empty], nofun, .nil⟩

/-- A table that holds exactly the blocks of `bs` on their ranges, with the range of `b` free,
holds exactly those of `bs ++ [b]` once `b` is written over its range. -/
theorem table_add {tbl : Nat → Option Block} {bs : List Block} {b : Block}
    {P : Block → Nat → Prop} [∀ c a, Decidable (P c a)]
    (hinv : ∀ a c, tbl a = some c ↔ c ∈ bs ∧ P c a) (hfree : ∀ a, P b a → tbl a = none) (a : Nat)
    (c : Block) : (if P b a then some b else tbl a) = some c ↔ c ∈ bs ++ [b] ∧ P c a := by
  rw [List.mem_append, List.mem_singleton]
  by_cases hb : P b a
  · rw [if_pos hb, Option.some.injEq]
    refine ⟨fun e => ⟨.inr e.symm, e ▸ hb⟩, fun ⟨hc, hca⟩ => ?_⟩
    rcases hc with hc | rfl
    · have := (hinv a c).2 ⟨hc, hca⟩; rw [hfree a hb] at this; cases this
    · rfl
  · rw [if_neg hb, hinv]
    exact ⟨fun ⟨hc, hca⟩ => ⟨.inl hc, hca⟩,
      fun ⟨hc, hca⟩ => ⟨hc.resolve_right fun e => hb (e ▸ hca), hca⟩⟩

/-- A successful `connectBlock` keeps the ownership of the tables. -/
theorem Owns.connectBlock {t t' : Wiring} {b : Block} (h : t.Owns) (hc : t.connectBlock b = .ok t') :
    t'.Owns := by
  obtain ⟨hio, hiv, hfio, hfiv, hbl, hio', hiv'⟩ := connectBlock_ok hc
  refine ⟨fun a c => ?_, fun v c => ?_, ?_, ?_⟩
  · rw [hio', hbl]; exact table_add h.io hfio a c
  · rw [hiv', hbl]; exact table_add h.iv hfiv v c
  · rw [hbl]
    intro c hc
    rcases List.mem_append.1 hc with hc | hc
    · exact h.bounds c hc
    · rw [List.mem_singleton.1 hc]; exact ⟨hio, hiv⟩
  · rw [hbl, List.pairwise_append]
    refine ⟨h.disjoint, List.pairwise_singleton _ _, fun c hc b' hb' => ?_⟩
    rw [List.mem_singleton.1 hb']
    refine ⟨fun a ⟨hca, hba⟩ => ?_, fun v ⟨hcv, hbv⟩ => ?_⟩
    · have := (h.io a c).2 ⟨hc, hca⟩; rw [hfio a hba] at this; cases this
    · have := (h.iv v c).2 ⟨hc, hcv⟩; rw [hfiv v hbv] at this; cases this

/-- The wirings `Device::Device` can build: `connectBlock` calls that succeed, from empty
tables. -/
inductive Connected : Wiring → Prop
  | empty : Connected empty
  | connect {t t' : Wiring} {b : Block} : Connected t → t.connectBlock b = .ok t' → Connected t'

theorem Connected.owns {t : Wiring} (h : Connected t) : t.Owns := by
  induction h with
  | empty => exact empty_owns
  | connect _ hc ih => exact ih.connectBlock hc

/-- `getIoMem` and `setIoMem` call a connected block, at a local address below its
`io_size()`, for an address of `io_blocks_`. -/
theorem Owns.ioCall_lt {t : Wiring} (h : t.Owns) {addr l : Nat} {c : Block}
    (hc : t.ioCall addr = some (c, l)) :
    c ∈ t.blocks ∧ c.ioAddr + l = addr ∧ l < c.ioSize ∧ addr < MEM_IO_SIZE := by
  obtain ⟨c', hc', he⟩ := Option.map_eq_some'.1 hc
  cases he
  obtain ⟨hmem, hlo, hhi⟩ := (h.io addr c).1 hc'
  have := (h.bounds c hmem).1
  exact ⟨hmem, by omega, by omega, by omega⟩

/-- A vector of a connected block leads `processPendingInterrupts` to that block, at a local
index below its `iv_count()`. -/
theorem Owns.ivCall_of_hasIv {t : Wiring} (h : t.Owns) {iv : Nat} {c : Block}
    (hc : c ∈ t.blocks) (hv : c.hasIv iv) :
    t.ivCall iv = some (c, iv - c.ivBase) ∧ iv - c.ivBase < c.ivCount ∧ iv < IV_MAX_COUNT := by
  have := (h.bounds c hc).2 hv.1
  refine ⟨by rw [ivCall, (h.iv iv c).2 ⟨hc, hv⟩]; rfl, by have := hv.2; omega, by
    have := hv.2; omega⟩

/-- A throw part-way through the I/O loop keeps the writes made before it. With the CPU block
connected at 0x30..0x3F, a block asking for 0x28..0x37 throws at 0x30, and the eight entries
0x28..0x2F it wrote first are left pointing at it. -/
theorem connectBlock_throw_keeps_writes : ∃ t : Wiring, Connected t ∧
    t.connectBlock ⟨2, "GPIOR", 0x28, 0x10, 0, 0⟩ =
      .error "I/O memory space overlaps with block CPU" ∧
    ∃ t', t.connectBlockState ⟨2, "GPIOR", 0x28, 0x10, 0, 0⟩ =
        (t', some "I/O memory space overlaps with block CPU") ∧
      t.ioBlocks 0x28 = none ∧ t'.ioBlocks 0x28 = some ⟨2, "GPIOR", 0x28, 0x10, 0, 0⟩ :=
  ⟨_, .connect (b := ⟨0, "CPU", 0x30, 0x10, 0, 0⟩) .empty rfl, rfl, _, rfl, rfl, rfl⟩

/-! ## The blocks of a device -/

/-- The CPU block: `CPU::CPU` declares `Block(dev, "CPU", 0x0030)`, with sixteen I/O addresses
and no vectors. -/
def cpuBlock : Block := ⟨0, "CPU", CPU_IO_ADDR, CPU_IO_SIZE, 0, 0⟩

/-- The CLK block: `CLK::CLK` declares `Block(dev, "CLK", 0x0040)`, with eight I/O addresses and
no vectors. -/
def clkBlock : Block := ⟨1, "CLK", CLK_IO_ADDR, CLK_IO_SIZE, 0, 0⟩

/-- A PMIC block, as the examples place it: `pmic.h`, which declares its range, is not in the
repository; the XMEGA has the PMIC registers at 0x00A0. -/
def pmicBlock : Block := ⟨2, "PMIC", 0xA0, 0x10, 0, 0⟩

/-- The tables after connecting the CPU block, the CLK block, then the PMIC block. -/
def core : Wiring :=
  match ((empty.connectBlock cpuBlock).bind (·.connectBlock clkBlock)).bind
      (·.connectBlock pmicBlock) with
  | .ok t => t
  | .error _ => empty

theorem core_connected : core.Connected :=
  .connect (b := pmicBlock) (.connect (b := clkBlock) (.connect (b := cpuBlock) .empty rfl) rfl) rfl

/-- A TC block (`src/block/tc.h`: `IO_SIZE` is 0x40 and a type-0 TC has six vectors) at I/O
address 0x800 with vectors 1 to 6. -/
def tcBlock : Block := ⟨3, "TC", 0x800, 0x40, 1, 6⟩

/-- The blocks of `core` and a TC block. -/
def withTc : Wiring :=
  match core.connectBlock tcBlock with
  | .ok t => t
  | .error _ => core

theorem withTc_connected : withTc.Connected := .connect (b := tcBlock) core_connected rfl

end Wiring

/-- The blocks a `Device` is built with: the tables of its `connectBlock` calls (those of
`Device::Device` for CPU, CLK, OSC, PMIC and GPIOR, then those of the device deriving from it),
with the CPU and CLK blocks among them; `pmic`, the block of `pmic_`; and `ioReset`, the bytes
that the `reset()` of the blocks whose code is not in the repository leaves at their I/O
addresses. -/
structure DeviceBlocks where
  wiring : Wiring
  connected : wiring.Connected
  pmic : Block
  pmic_ne : pmic ≠ Wiring.cpuBlock ∧ pmic ≠ Wiring.clkBlock
  has_core : Wiring.cpuBlock ∈ wiring.blocks ∧ Wiring.clkBlock ∈ wiring.blocks ∧ pmic ∈ wiring.blocks
  ioReset : Nat → BitVec 8

namespace DeviceBlocks

/-- The blocks of `Wiring.core`, with every other I/O byte reset to 0. -/
def core : DeviceBlocks :=
  ⟨Wiring.core, Wiring.core_connected, Wiring.pmicBlock, by decide, by decide, fun _ => 0⟩

/-- The blocks of `Wiring.withTc`, with every other I/O byte reset to 0. -/
def withTc : DeviceBlocks :=
  ⟨Wiring.withTc, Wiring.withTc_connected, Wiring.pmicBlock, by decide, by decide, fun _ => 0⟩

end DeviceBlocks

end Megumi
