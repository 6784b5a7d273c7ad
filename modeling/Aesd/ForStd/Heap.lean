import Mathlib

/-!
# A heap of blocks

Blocks of cells under block identifiers. An identifier names an allocation, not
an address: `alloc` never gives out one twice, so a pointer into a freed block
stays distinguishable from every later pointer. Freeing, loading and storing are
partial, with `none` where the access is not to a live block or leaves it: a
program that never yields `none` frees no block twice and never touches memory
it does not hold.
-/

/-- Cells by block identifier. `fresh` is the next identifier to give out. -/
structure Heap (β : Type*) where
  get : Nat → Option (List β)
  fresh : Nat
  unused : ∀ i, fresh ≤ i → get i = none

namespace Heap

variable {β : Type*}

/-- The heap without any block. -/
def empty : Heap β := ⟨fun _ => none, 0, fun _ _ => rfl⟩

/-- The identifiers of the live blocks. -/
def live (h : Heap β) : Finset Nat := (Finset.range h.fresh).filter fun i => (h.get i).isSome

/-- A new block that holds `cells`. -/
def alloc (h : Heap β) (cells : List β) : Nat × Heap β :=
  (h.fresh, {
    get := fun i => if i = h.fresh then some cells else h.get i
    fresh := h.fresh + 1
    unused := fun i hi => by
      rw [if_neg (by omega)]
      exact h.unused i (by omega) })

/-- Gives a live block back; `none` when the block is not live. -/
def free (h : Heap β) (id : Nat) : Option (Heap β) :=
  if (h.get id).isSome then
    some {
      get := fun i => if i = id then none else h.get i
      fresh := h.fresh
      unused := fun i hi => by
        split
        · rfl
        · exact h.unused i hi }
  else none

/-- The `n` cells from offset `off` of a block. -/
def load (h : Heap β) (id off n : Nat) : Option (List β) :=
  (h.get id).bind fun cells =>
    if off + n ≤ cells.length then some ((cells.drop off).take n) else none

/-- Overwrites the cells of a block from offset `off` on. -/
def store (h : Heap β) (id off : Nat) (new : List β) : Option (Heap β) :=
  match hget : h.get id with
  | none => none
  | some cells =>
    if off + new.length ≤ cells.length then
      some {
        get := fun i =>
          if i = id then some (cells.take off ++ new ++ cells.drop (off + new.length))
          else h.get i
        fresh := h.fresh
        unused := fun i hi => by
          have hne : i ≠ id := by
            rintro rfl
            rw [h.unused _ hi] at hget
            cases hget
          rw [if_neg hne]
          exact h.unused i hi }
    else none

@[simp] theorem mem_live {h : Heap β} {i : Nat} : i ∈ h.live ↔ (h.get i).isSome := by
  simp only [live, Finset.mem_filter, Finset.mem_range, and_iff_right_iff_imp]
  intro hi
  by_contra hge
  rw [h.unused i (by omega)] at hi
  cases hi

theorem mem_live_of_get {h : Heap β} {i : Nat} {cells : List β} (hget : h.get i = some cells) :
    i ∈ h.live := by
  rw [mem_live, hget]; rfl

@[simp] theorem live_empty : (empty : Heap β).live = ∅ := rfl

theorem fresh_not_mem_live (h : Heap β) : h.fresh ∉ h.live := by
  rw [mem_live, h.unused _ le_rfl]; simp

theorem ne_fresh_of_get {h : Heap β} {i : Nat} {cells : List β} (hget : h.get i = some cells) :
    i ≠ h.fresh := by
  rintro rfl
  exact h.fresh_not_mem_live (mem_live_of_get hget)

/-! ## Allocation -/

@[simp] theorem alloc_fst (h : Heap β) (cells : List β) : (h.alloc cells).1 = h.fresh := rfl

@[simp] theorem get_alloc_self (h : Heap β) (cells : List β) :
    (h.alloc cells).2.get h.fresh = some cells := by
  simp only [alloc, if_true]

theorem get_alloc_of_ne {h : Heap β} {i : Nat} (cells : List β) (hne : i ≠ h.fresh) :
    (h.alloc cells).2.get i = h.get i := by
  simp only [alloc, hne, if_false]

/-- A block that is live stays as it is when another one is allocated. -/
theorem get_alloc_of_get {h : Heap β} {i : Nat} {old : List β} (cells : List β)
    (hget : h.get i = some old) : (h.alloc cells).2.get i = some old := by
  rw [get_alloc_of_ne cells (ne_fresh_of_get hget), hget]

theorem live_alloc (h : Heap β) (cells : List β) :
    (h.alloc cells).2.live = insert h.fresh h.live := by
  ext i
  by_cases hi : i = h.fresh
  · subst hi; simp
  · rw [mem_live, get_alloc_of_ne cells hi]
    simp [hi]

/-! ## Freeing -/

theorem free_of_get {h : Heap β} {id : Nat} {cells : List β} (hget : h.get id = some cells) :
    ∃ h', h.free id = some h' ∧ h'.fresh = h.fresh ∧ h'.live = h.live.erase id ∧
      ∀ i, i ≠ id → h'.get i = h.get i := by
  have hsome : (h.get id).isSome := by rw [hget]; rfl
  refine ⟨_, if_pos hsome, rfl, ?_, fun i hi => if_neg hi⟩
  ext i
  by_cases hi : i = id <;> simp [hi]

/-! ## Access -/

theorem load_of_get {h : Heap β} {id off n : Nat} {cells : List β} (hget : h.get id = some cells)
    (hlen : off + n ≤ cells.length) : h.load id off n = some ((cells.drop off).take n) := by
  simp only [load, hget, Option.bind_some, if_pos hlen]

theorem store_of_get {h : Heap β} {id off : Nat} {cells new : List β}
    (hget : h.get id = some cells) (hlen : off + new.length ≤ cells.length) :
    ∃ h', h.store id off new = some h' ∧ h'.live = h.live ∧
      h'.get id = some (cells.take off ++ new ++ cells.drop (off + new.length)) ∧
      ∀ i, i ≠ id → h'.get i = h.get i := by
  unfold store
  split
  · next hnone => rw [hget] at hnone; cases hnone
  · next cells' hsome =>
    obtain rfl : cells = cells' := Option.some.inj (hget.symm.trans hsome)
    refine ⟨_, if_pos hlen, ?_, by simp, fun i hi => by simp [hi]⟩
    ext i
    by_cases hi : i = id
    · subst hi; simp [hget]
    · simp [hi]

end Heap
