import Mathlib

/-!
# List lemmas for the standard library

Three families of generic lemmas. The first is about `List.rtake`, read as
"keep the newest `n` items": what a bounded log that drops its oldest item
computes. The second is about statements on every item of a list that grows. The
third is about positions inside a concatenation of segments:
`locate` finds the segment and the offset in it of a position, as a file
position is resolved against records stored one after another.
-/

namespace List

variable {α : Type*}

/-! ## Keeping the newest items -/

@[simp] theorem length_rtake (l : List α) (n : Nat) : (l.rtake n).length = min n l.length := by
  simp only [rtake, length_drop]
  omega

theorem rtake_of_length_le {l : List α} {n : Nat} (h : l.length ≤ n) : l.rtake n = l := by
  simp only [rtake, Nat.sub_eq_zero_of_le h, drop_zero]

/-- Trimming a prefix first does not change what is kept of the whole. -/
theorem rtake_rtake_append (a b : List α) (n : Nat) :
    (a.rtake n ++ b).rtake n = (a ++ b).rtake n := by
  simp only [rtake, length_append, length_drop, drop_append, drop_drop]
  congr 2 <;> omega

/-- One more item pushes out the oldest of a full log and nothing of any other. -/
theorem rtake_concat_of_length_le {l : List α} {n : Nat} (h : l.length ≤ n) (hn : 0 < n) (x : α) :
    (l ++ [x]).rtake n = (if l.length = n then l.tail else l) ++ [x] := by
  split
  · next heq =>
    simp only [rtake, length_append, length_singleton, heq, Nat.add_sub_cancel_left]
    rw [drop_append_of_le_length (by omega), drop_one]
  · next hne =>
    rw [rtake_of_length_le (by simp only [length_append, length_singleton]; omega)]

theorem map_rtake {β : Type*} (f : α → β) (l : List α) (n : Nat) :
    (l.rtake n).map f = (l.map f).rtake n := by
  simp only [rtake, map_drop, length_map]

theorem rtake_suffix (l : List α) (n : Nat) : l.rtake n <:+ l :=
  drop_suffix _ _

/-- Enough new items push out everything older. -/
theorem rtake_append_of_le_length (a : List α) {b : List α} {n : Nat} (h : n ≤ b.length) :
    (a ++ b).rtake n = b.rtake n := by
  simp only [rtake, length_append, Nat.add_sub_assoc h, ← drop_drop, drop_left]

/-- A few new items are all kept. -/
theorem mem_rtake_append_of_length_le (a : List α) {b : List α} {n : Nat} {x : α}
    (h : b.length ≤ n) (hx : x ∈ b) : x ∈ (a ++ b).rtake n := by
  have hdrop : (a ++ b).rtake n = a.drop (a.length + b.length - n) ++ b := by
    rw [rtake, length_append, drop_append_of_le_length (by omega)]
  rw [hdrop]
  exact mem_append_right _ hx

/-! ## What holds of each item and those before it -/

/-- A statement about every item of a list and the items before it, when the list grows. -/
theorem forall_split_concat {P : List α → α → Prop} {l : List α} {a : α} :
    (∀ pre x post, l ++ [a] = pre ++ x :: post → P pre x) ↔
      (∀ pre x post, l = pre ++ x :: post → P pre x) ∧ P l a := by
  constructor
  · intro h
    exact ⟨fun pre x post hl => h pre x (post ++ [a]) (by rw [hl]; simp), h l a [] rfl⟩
  · rintro ⟨h, ha⟩ pre x post hl
    rcases eq_nil_or_concat post with rfl | ⟨post', y, rfl⟩
    · obtain ⟨rfl, rfl⟩ : l = pre ∧ a = x := by simpa using hl
      exact ha
    · rw [concat_eq_append, ← cons_append, ← append_assoc] at hl
      exact h pre x post' (append_inj_left' hl rfl)

/-! ## Positions in a concatenation of segments -/

/-- The segment that holds position `off` when segments of the given sizes are
    laid end to end, and the offset of the position in it. -/
def locate : List Nat → Nat → Option (Nat × Nat)
  | [], _ => none
  | s :: ss, off =>
    if off < s then some (0, off)
    else (locate ss (off - s)).map fun p => (p.1 + 1, p.2)

theorem locate_eq_none {ss : List Nat} {off : Nat} : locate ss off = none ↔ ss.sum ≤ off := by
  induction ss generalizing off with
  | nil => simp [locate]
  | cons s ss ih =>
    simp only [locate, sum_cons]
    split
    · next h => simp only [reduceCtorEq, false_iff]; omega
    · next h => rw [Option.map_eq_none_iff, ih]; omega

/-- `locate` answers with the one segment whose span holds the position. -/
theorem locate_eq_some {ss : List Nat} {off k b : Nat} :
    locate ss off = some (k, b) ↔
      ∃ h : k < ss.length, b < ss[k] ∧ (ss.take k).sum + b = off := by
  induction ss generalizing off k with
  | nil => simp [locate]
  | cons s ss ih =>
    simp only [locate]
    split
    · next h =>
      cases k with
      | zero => simp only [Option.some.injEq, Prod.mk.injEq, true_and]; simp; omega
      | succ k => simp; omega
    · next h =>
      cases k with
      | zero => simp; omega
      | succ k =>
        simp only [Option.map_eq_some_iff, Prod.mk.injEq, Prod.exists, length_cons,
          getElem_cons_succ, take_succ_cons, sum_cons]
        constructor
        · rintro ⟨k', b', hloc, hk, rfl⟩
          obtain rfl : k' = k := by omega
          obtain ⟨hlt, hb, hsum⟩ := ih.mp hloc
          exact ⟨by omega, hb, by omega⟩
        · rintro ⟨hlt, hb, hsum⟩
          exact ⟨k, b, ih.mpr ⟨by omega, hb, by omega⟩, rfl, rfl⟩

/-- Dropping into a concatenation: the rest of the located segment comes first. -/
theorem drop_flatten_of_locate {ls : List (List α)} {off k b : Nat}
    (h : locate (ls.map length) off = some (k, b)) :
    ∃ hk : k < ls.length,
      ls.flatten.drop off = ls[k].drop b ++ (ls.drop (k + 1)).flatten := by
  obtain ⟨hk, hb, hsum⟩ := locate_eq_some.mp h
  have hk' : k < ls.length := by simpa using hk
  refine ⟨hk', ?_⟩
  have hlen : (ls.take k).flatten.length = ((ls.map length).take k).sum := by
    rw [length_flatten, map_take]
  have hb' : b ≤ ls[k].length := by simpa using hb.le
  conv_lhs => rw [← take_append_drop k ls, drop_eq_getElem_cons hk']
  rw [flatten_append, flatten_cons, ← hsum, ← hlen, drop_append, Nat.add_sub_cancel_left,
    drop_eq_nil_of_le (by omega), nil_append, drop_append_of_le_length hb']

end List
