import Mathlib

/-!
# Singly linked lists in memory

A list of nodes linked through a field of their own, as the `SLIST` macros keep
one: the head points to the first node, every node to the one behind it. A node is
allocated before it is put in and freed after it is taken out, and what its link
holds before it is put in is arbitrary. Every operation is partial, with `none`
where it goes through a null pointer or through a node that is not allocated.

`Linked p xs` says that following the links from `p` visits the nodes `xs` and
ends. Each operation gets one lemma: what it does to the nodes so visited.
-/

/-- A head and the nodes: `link n` is `none` where `n` is not allocated, and otherwise what its
    link holds, `some none` being the null pointer. -/
structure Slist (ι : Type*) where
  first : Option ι
  link : ι → Option (Option ι)

namespace Slist

variable {ι : Type*}

/-- No node is in the list, and none is allocated. -/
def empty : Slist ι := ⟨none, fun _ => none⟩

/-- What the link of a node holds. -/
def next (l : Slist ι) (n : ι) : Option (Option ι) := l.link n

/-- Following the links from `p` visits the nodes `xs` and ends. -/
def Linked (l : Slist ι) : Option ι → List ι → Prop
  | p, [] => p = none
  | p, x :: xs => p = some x ∧ ∃ q, l.link x = some q ∧ l.Linked q xs

variable {l l' : Slist ι} {p : Option ι} {n x : ι} {xs : List ι}

@[simp] theorem linked_nil : l.Linked p [] ↔ p = none := Iff.rfl

@[simp] theorem linked_cons :
    l.Linked p (x :: xs) ↔ p = some x ∧ ∃ q, l.link x = some q ∧ l.Linked q xs := Iff.rfl

theorem Linked.head? (h : l.Linked p xs) : p = xs.head? := by
  cases xs with
  | nil => exact h
  | cons x xs => exact h.1

/-- What is visited depends on the links of the nodes visited only. -/
theorem Linked.congr (h : l.Linked p xs) (heq : ∀ x ∈ xs, l'.link x = l.link x) :
    l'.Linked p xs := by
  induction xs generalizing p with
  | nil => exact h
  | cons x xs ih =>
    obtain ⟨rfl, q, hq, hrest⟩ := h
    refine ⟨rfl, q, (heq x List.mem_cons_self).trans hq, ih hrest fun y hy => ?_⟩
    exact heq y (List.mem_cons_of_mem x hy)

/-- Every node visited is allocated. -/
theorem Linked.isSome (h : l.Linked p xs) (hx : x ∈ xs) : (l.link x).isSome := by
  induction xs generalizing p with
  | nil => exact absurd hx List.not_mem_nil
  | cons y xs ih =>
    obtain ⟨-, q, hq, hrest⟩ := h
    rcases List.mem_cons.mp hx with rfl | hx
    · rw [hq]; rfl
    · exact ih hrest hx

/-- The links lead past the front of the list. -/
theorem Linked.drop {pre : List ι} (h : l.Linked p (pre ++ x :: xs)) :
    ∃ q, l.link x = some q ∧ l.Linked q xs := by
  induction pre generalizing p with
  | nil => exact h.2
  | cons y pre ih =>
    obtain ⟨-, q, -, hrest⟩ := h
    exact ih hrest

/-- The link of a node holds the node behind it. -/
theorem Linked.next_eq {pre : List ι} (h : l.Linked p (pre ++ x :: xs)) :
    l.next x = some xs.head? := by
  obtain ⟨q, hq, hrest⟩ := h.drop
  rw [next, hq, hrest.head?]

/-! ## The operations -/

section

variable [DecidableEq ι]

/-- A new node, whose link holds `junk`. -/
def alloc (l : Slist ι) (n : ι) (junk : Option ι) : Option (Slist ι) :=
  if (l.link n).isSome then none else some { l with link := Function.update l.link n (some junk) }

/-- Gives a node back. -/
def free (l : Slist ι) (n : ι) : Option (Slist ι) :=
  if (l.link n).isSome then some { l with link := Function.update l.link n none } else none

/-- Makes a node point to `p`. -/
def setNext (l : Slist ι) (n : ι) (p : Option ι) : Option (Slist ι) :=
  if (l.link n).isSome then some { l with link := Function.update l.link n (some p) } else none

/-- Puts a node in front of the others. -/
def insertHead (l : Slist ι) (n : ι) : Option (Slist ι) := do
  let l ← l.setNext n l.first
  some { l with first := some n }

/-- Takes the first node out. -/
def removeHead (l : Slist ι) : Option (Slist ι) := do
  let n ← l.first
  let p ← l.next n
  some { l with first := p }

/-- Takes out the node behind `n`. -/
def removeAfter (l : Slist ι) (n : ι) : Option (Slist ι) := do
  let m ← ← l.next n
  let p ← l.next m
  l.setNext n p

/-- The node in front of `n`, looked for from `cur` on along at most `fuel` nodes. -/
def findPrev (l : Slist ι) (n : ι) : Nat → ι → Option ι
  | 0, _ => none
  | fuel + 1, cur => do
    let p ← l.next cur
    if p = some n then some cur else l.findPrev n fuel (← p)

/-- Takes a node out, looking for it along at most `fuel` nodes. -/
def remove (l : Slist ι) (fuel : Nat) (n : ι) : Option (Slist ι) :=
  if l.first = some n then l.removeHead
  else do l.removeAfter (← l.findPrev n fuel (← l.first))

/-! ## Allocating and freeing -/

theorem alloc_spec (hn : l.link n = none) (junk : Option ι) :
    ∃ l', l.alloc n junk = some l' ∧ l'.first = l.first ∧
      l'.link = Function.update l.link n (some junk) := by
  have hno : ¬ (l.link n).isSome := by simp [hn]
  exact ⟨_, if_neg hno, rfl, rfl⟩

theorem free_spec (hn : (l.link n).isSome) :
    ∃ l', l.free n = some l' ∧ l'.first = l.first ∧ l'.link = Function.update l.link n none :=
  ⟨_, if_pos hn, rfl, rfl⟩

/-- A node that is not visited may be allocated, freed or written to. -/
theorem Linked.update {v : Option (Option ι)} (h : l.Linked p xs) (hn : n ∉ xs)
    (hlink : l'.link = Function.update l.link n v) : l'.Linked p xs := by
  refine h.congr fun x hx => ?_
  rw [hlink, Function.update_of_ne]
  rintro rfl
  exact hn hx

/-! ## Putting in -/

theorem setNext_spec (hn : (l.link n).isSome) (q : Option ι) :
    ∃ l', l.setNext n q = some l' ∧ l'.first = l.first ∧
      l'.link = Function.update l.link n (some q) :=
  ⟨_, if_pos hn, rfl, rfl⟩

/-- A node put in front is visited first, and the others as before. -/
theorem Linked.insertHead (h : l.Linked l.first xs) (hn : (l.link n).isSome) (hnew : n ∉ xs) :
    ∃ l', l.insertHead n = some l' ∧ l'.Linked l'.first (n :: xs) ∧
      ∀ m, (l'.link m).isSome = (l.link m).isSome := by
  obtain ⟨l₁, hset, -, hlink⟩ := setNext_spec hn l.first
  refine ⟨{ l₁ with first := some n }, by simp [Slist.insertHead, hset], ⟨rfl, l.first, ?_, ?_⟩,
    fun m => ?_⟩
  · show l₁.link n = some l.first
    rw [hlink, Function.update_self]
  · exact h.update hnew hlink
  · show (l₁.link m).isSome = _
    rw [hlink]
    by_cases hm : m = n
    · subst hm; simp [hn]
    · rw [Function.update_of_ne hm]

/-! ## Taking out -/

/-- The search ends in front of the node it looks for. -/
theorem Linked.findPrev {pre : List ι} {y : ι} {fuel : Nat}
    (h : l.Linked p (pre ++ y :: n :: xs)) (hn : n ∉ pre ++ [y]) (hfuel : pre.length < fuel) :
    ∃ cur, p = some cur ∧ l.findPrev n fuel cur = some y := by
  induction pre generalizing p fuel with
  | nil =>
    obtain ⟨fuel, rfl⟩ := Nat.exists_eq_succ_of_ne_zero (Nat.ne_zero_of_lt hfuel)
    obtain ⟨rfl, q, hq, rfl, -⟩ := h
    exact ⟨y, rfl, by simp [Slist.findPrev, next, hq]⟩
  | cons z pre ih =>
    obtain ⟨fuel, rfl⟩ := Nat.exists_eq_succ_of_ne_zero (Nat.ne_zero_of_lt hfuel)
    obtain ⟨rfl, q, hq, hrest⟩ := h
    have hn' : n ∉ pre ++ [y] := fun hmem => hn (List.mem_cons_of_mem z hmem)
    obtain ⟨cur, rfl, hfind⟩ := ih hrest hn' (Nat.lt_of_succ_lt_succ hfuel)
    -- the node behind `z` is in front of `n`, so it is not `n`
    have hcur : cur ≠ n := by
      have hhead := hrest.head?
      rintro rfl
      cases pre with
      | nil =>
        have : cur = y := by simpa using hhead
        simp [this] at hn'
      | cons w pre =>
        have : cur = w := by simpa using hhead
        simp [this] at hn'
    refine ⟨z, rfl, ?_⟩
    simp [Slist.findPrev, next, hq, hcur, hfind]

/-- Making a node point behind the next one takes that one out. -/
theorem Linked.unlink {pre : List ι} {y : ι} {q : Option ι}
    (h : l.Linked p (pre ++ y :: n :: xs)) (hnodup : (pre ++ y :: n :: xs).Nodup)
    (hq : l.link n = some q) (hlink : l'.link = Function.update l.link y (some q)) :
    l'.Linked p (pre ++ y :: xs) := by
  induction pre generalizing p with
  | nil =>
    obtain ⟨rfl, r, hr, rfl, q', hq', hrest⟩ := h
    obtain rfl := Option.some.inj (hq.symm.trans hq')
    have hy : y ∉ xs := fun hmem =>
      (List.nodup_cons.mp hnodup).1 (List.mem_cons_of_mem n hmem)
    exact ⟨rfl, q, by rw [hlink, Function.update_self], hrest.update hy hlink⟩
  | cons z pre ih =>
    obtain ⟨rfl, r, hr, hrest⟩ := h
    obtain ⟨hz, hnodup⟩ := List.nodup_cons.mp hnodup
    have hzy : z ≠ y := by
      rintro rfl
      exact hz (by simp)
    exact ⟨rfl, r, by rw [hlink, Function.update_of_ne hzy, hr], ih hrest hnodup⟩

/-- A node taken out is visited no more, and the others as before: the loop finds it with fuel for
    every node of the list. -/
theorem Linked.remove {fuel : Nat} (h : l.Linked l.first xs) (hnodup : xs.Nodup) (hn : n ∈ xs)
    (hfuel : xs.length ≤ fuel) :
    ∃ l', l.remove fuel n = some l' ∧ l'.Linked l'.first (xs.erase n) ∧
      ∀ m, (l'.link m).isSome = (l.link m).isSome := by
  obtain ⟨pre, post, rfl⟩ := List.append_of_mem hn
  rcases List.eq_nil_or_concat pre with rfl | ⟨pre, y, rfl⟩
  · -- the first node
    obtain ⟨hfirst, q, hq, hrest⟩ := h
    refine ⟨{ l with first := q }, ?_, ?_, fun _ => rfl⟩
    · simp [Slist.remove, hfirst, removeHead, next, hq]
    · rw [List.nil_append, List.erase_cons_head]
      exact hrest.congr fun _ _ => rfl
  · -- a node behind `y`
    rw [List.concat_eq_append, List.append_assoc, List.singleton_append] at h hnodup hfuel
    have hnot : n ∉ pre ++ [y] := by
      rw [← List.singleton_append, ← List.append_assoc] at hnodup
      exact fun hmem => (List.nodup_append.mp hnodup).2.2 n hmem n List.mem_cons_self rfl
    have hpre : pre.length < fuel := by
      simp only [List.length_append, List.length_cons] at hfuel
      omega
    obtain ⟨cur, hfirst, hfind⟩ := h.findPrev hnot hpre
    have hcur : cur ≠ n := by
      rintro rfl
      have hhead := h.head?.symm.trans hfirst
      cases pre with
      | nil => simp_all
      | cons z pre => simp_all
    obtain ⟨q, hq, -⟩ := (show l.Linked l.first ((pre ++ [y]) ++ n :: post) by
      simpa using h).drop
    obtain ⟨l', hset, hfirst', hlink⟩ := setNext_spec (h.isSome (x := y) (by simp)) q
    refine ⟨l', ?_, ?_, fun m => ?_⟩
    · have hy : l.next y = some (some n) := by simpa using h.next_eq
      simp [Slist.remove, hfirst, hcur, hfind, removeAfter, hy, show l.next n = some q from hq,
        hset]
    · rw [List.concat_eq_append, List.erase_append_right _ hnot, List.erase_cons_head,
        List.append_assoc, List.singleton_append, hfirst']
      exact h.unlink hnodup hq hlink
    · rw [hlink]
      by_cases hm : m = y
      · subst hm; simp [h.isSome (x := m) (by simp)]
      · rw [Function.update_of_ne hm]

end

end Slist
