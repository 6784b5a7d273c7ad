import Aesd.ForStd.List

/-!
# Bounded logs

A log that keeps the newest `n` items. Where the items are themselves sequences, the log has
contents, the items one after another, and each position in them is named by the item it lies
in and the offset there.
-/

/-- A log of `n` items at most. -/
structure BoundedLog (α : Type*) (n : Nat) where
  items : List α
  length_le : items.length ≤ n

namespace BoundedLog

variable {α : Type*} {n : Nat}

/-- The log without items. -/
def empty : BoundedLog α n := ⟨[], Nat.zero_le n⟩

/-- Adding an item; a full log drops its oldest for it. -/
def push [NeZero n] (log : BoundedLog α n) (a : α) : BoundedLog α n where
  items := (if log.items.length = n then log.items.tail else log.items) ++ [a]
  length_le := by
    have hpos := NeZero.pos n
    have hle := log.length_le
    split
    · rw [List.length_append, List.length_tail, List.length_singleton]; omega
    · rw [List.length_append, List.length_singleton]; omega

/-- Adding an item keeps the newest `n`. -/
theorem items_push [NeZero n] (log : BoundedLog α n) (a : α) :
    (log.push a).items = (log.items ++ [a]).rtake n :=
  (List.rtake_concat_of_length_le log.length_le (NeZero.pos n) a).symm

/-! ## Logs of sequences -/

/-- The items one after another. -/
def contents (log : BoundedLog (List α) n) : List α := log.items.flatten

/-- The contents from offset `y` of item `x` on, if the log has it. -/
def suffixFrom (log : BoundedLog (List α) n) (x y : Nat) : List α :=
  if y < (log.items.getD x []).length then
    log.contents.drop ((log.items.take x).flatten.length + y)
  else []

end BoundedLog
