import Mathlib

/-!
# Descriptor tables

The open files of a process, by their descriptors. A file that is opened gets the lowest
descriptor that is not in use; `dup2` makes one descriptor stand for the file of another and
closes what it stood for, and does nothing when the two are the same. What a table holds is told
by `get`, with one lemma for each operation.
-/

/-- Files by descriptor. No descriptor from `bound` on is in use. -/
structure Descriptors (α : Type*) where
  get : Nat → Option α
  bound : Nat
  unused : ∀ fd, bound ≤ fd → get fd = none

namespace Descriptors

variable {α β : Type*} {d : Descriptors α} {fd : Nat}

/-- The lowest descriptor that is not in use. -/
def lowest (d : Descriptors α) : Nat :=
  ((List.range d.bound).find? fun fd => (d.get fd).isNone).getD d.bound

/-- Descriptor `fd` stands for `a` from now on, or for nothing. -/
def set (d : Descriptors α) (fd : Nat) (a : Option α) : Descriptors α where
  get i := if i = fd then a else d.get i
  bound := max d.bound (fd + 1)
  unused i hi := by
    rw [if_neg (by omega)]
    exact d.unused i (by omega)

/-- A new file, under the lowest descriptor that is not in use. -/
def opened (d : Descriptors α) (a : α) : Descriptors α := d.set d.lowest (some a)

/-- `close(fd)`; one that is not open stays so. -/
def close (d : Descriptors α) (fd : Nat) : Descriptors α := d.set fd none

/-- `dup2(old, new)`; without effect if `old` is not open. -/
def dup2 (d : Descriptors α) (old new : Nat) : Descriptors α :=
  if (d.get old).isSome ∧ old ≠ new then d.set new (d.get old) else d

/-- The same descriptors with other names for the files. -/
def map (f : α → β) (d : Descriptors α) : Descriptors β where
  get fd := (d.get fd).map f
  bound := d.bound
  unused fd hfd := by rw [d.unused fd hfd]; rfl

@[simp] theorem get_set (d : Descriptors α) (fd i : Nat) (a : Option α) :
    (d.set fd a).get i = if i = fd then a else d.get i := rfl

@[simp] theorem get_close (d : Descriptors α) (fd i : Nat) :
    (d.close fd).get i = if i = fd then none else d.get i := rfl

@[simp] theorem get_opened (d : Descriptors α) (a : α) (i : Nat) :
    (d.opened a).get i = if i = d.lowest then some a else d.get i := rfl

@[simp] theorem get_map (f : α → β) (d : Descriptors α) (fd : Nat) :
    (d.map f).get fd = (d.get fd).map f := rfl

/-- What `dup2` of an open descriptor leaves. -/
theorem get_dup2 {a : α} {old new : Nat} (h : d.get old = some a) (i : Nat) :
    (d.dup2 old new).get i = if i = new then some a else d.get i := by
  unfold dup2
  by_cases hne : old = new
  · subst hne
    rw [if_neg (by simp)]
    split
    · next hi => rw [hi, h]
    · rfl
  · rw [if_pos ⟨by rw [h]; rfl, hne⟩, get_set, h]

theorem dup2_of_closed {old : Nat} (h : d.get old = none) (new : Nat) : d.dup2 old new = d := by
  rw [dup2, if_neg (by simp [h])]

/-! ## The lowest descriptor -/

@[simp] theorem get_lowest (d : Descriptors α) : d.get d.lowest = none := by
  unfold lowest
  cases hfind : (List.range d.bound).find? fun fd => (d.get fd).isNone with
  | none => exact d.unused _ le_rfl
  | some fd => simpa using List.find?_some hfind

/-- Below the lowest one every descriptor is in use. -/
theorem lowest_le (h : d.get fd = none) : d.lowest ≤ fd := by
  unfold lowest
  cases hfind : (List.range d.bound).find? fun fd => (d.get fd).isNone with
  | none =>
    by_contra hlt
    have hmem : fd ∈ List.range d.bound := List.mem_range.mpr (by simpa using hlt)
    have hnot := List.find?_eq_none.mp hfind fd hmem
    simp [h] at hnot
  | some n =>
    -- the search goes through the descriptors in their order
    show n ≤ fd
    by_contra hlt
    obtain ⟨-, -, hbefore⟩ := List.find?_range_eq_some.mp hfind
    simpa [h] using hbefore fd (by omega)

/-- The lowest descriptor is told by those in use. -/
theorem lowest_congr {e : Descriptors β} (h : ∀ fd, d.get fd = none ↔ e.get fd = none) :
    d.lowest = e.lowest := by
  apply Nat.le_antisymm
  · exact lowest_le ((h _).mpr e.get_lowest)
  · exact lowest_le ((h _).mp d.get_lowest)

end Descriptors
