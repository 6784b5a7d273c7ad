import Mathlib

/-!
# Cutting a stream at its separators

A stream over any alphabet, with a predicate that marks the separators, is a
sequence of complete lines (each ended by its separator) and a rest that holds
no separator. `lines` and `rest` are these two parts.

The append laws `lines_append` and `rest_append` say that a consumer that keeps
the rest between arrivals sees the lines of the whole stream, however the stream
arrives in pieces; the head law `lines_of_findIdx?` is one round of a loop that
looks for the first separator and cuts there.
-/

namespace Lines

variable {α : Type*} (sep : α → Bool)

/-- The complete lines of a stream and what follows its last separator. -/
def split : List α → List (List α) × List α
  | [] => ([], [])
  | a :: as =>
    if sep a then ([a] :: (split as).1, (split as).2)
    else match (split as).1 with
      | [] => ([], a :: (split as).2)
      | l :: ls => ((a :: l) :: ls, (split as).2)

/-- The separator-terminated lines of a stream, each with its separator. -/
def lines (l : List α) : List (List α) := (split sep l).1

/-- The part of a stream after its last separator. -/
def rest (l : List α) : List α := (split sep l).2

/-- A line in full: its last element is a separator and no other one is. -/
def IsLine (l : List α) : Prop :=
  ∃ body s, l = body ++ [s] ∧ sep s = true ∧ ∀ x ∈ body, sep x = false

variable {sep}

@[simp] theorem lines_nil : lines sep ([] : List α) = [] := rfl

@[simp] theorem rest_nil : rest sep ([] : List α) = [] := rfl

theorem lines_cons_sep {a : α} (as : List α) (h : sep a = true) :
    lines sep (a :: as) = [a] :: lines sep as := by
  simp only [lines, split, h, if_true]

theorem rest_cons_sep {a : α} (as : List α) (h : sep a = true) :
    rest sep (a :: as) = rest sep as := by
  simp only [rest, split, h, if_true]

/-! ## Streams without a separator -/

theorem lines_eq_nil {l : List α} (h : ∀ x ∈ l, sep x = false) : lines sep l = [] := by
  induction l with
  | nil => rfl
  | cons a as ih =>
    have has := ih fun x hx => h x (List.mem_cons_of_mem _ hx)
    simp only [lines] at has
    simp only [lines, split, h a List.mem_cons_self, has, Bool.false_eq_true, if_false]

theorem rest_eq_self {l : List α} (h : ∀ x ∈ l, sep x = false) : rest sep l = l := by
  induction l with
  | nil => rfl
  | cons a as ih =>
    have has := ih fun x hx => h x (List.mem_cons_of_mem _ hx)
    have hls := lines_eq_nil fun x hx => h x (List.mem_cons_of_mem a hx)
    simp only [lines] at hls
    simp only [rest] at has
    simp only [rest, split, h a List.mem_cons_self, hls, Bool.false_eq_true, if_false, has]

/-! ## The head law -/

/-- A separator-free body and its separator are cut off as the first line. -/
theorem split_body_append {body : List α} {s : α} (tail : List α)
    (hbody : ∀ x ∈ body, sep x = false) (hs : sep s = true) :
    split sep (body ++ s :: tail) = ((body ++ [s]) :: lines sep tail, rest sep tail) := by
  induction body with
  | nil => simp only [List.nil_append, split, hs, if_true, lines, rest]
  | cons a as ih =>
    have has := ih fun x hx => hbody x (List.mem_cons_of_mem _ hx)
    simp only [List.cons_append, split, hbody a List.mem_cons_self, has, Bool.false_eq_true,
      if_false]

theorem lines_body_append {body : List α} {s : α} (tail : List α)
    (hbody : ∀ x ∈ body, sep x = false) (hs : sep s = true) :
    lines sep (body ++ s :: tail) = (body ++ [s]) :: lines sep tail := by
  rw [lines, split_body_append tail hbody hs]

theorem rest_body_append {body : List α} {s : α} (tail : List α)
    (hbody : ∀ x ∈ body, sep x = false) (hs : sep s = true) :
    rest sep (body ++ s :: tail) = rest sep tail := by
  rw [rest, split_body_append tail hbody hs]

/-- A stream that is one line and nothing else. -/
theorem IsLine.lines_eq {l : List α} (h : IsLine sep l) : lines sep l = [l] := by
  obtain ⟨body, s, rfl, hs, hbody⟩ := h
  rw [lines_body_append [] hbody hs, lines_nil]

/-- A stream that starts with a line. -/
theorem IsLine.lines_append {l : List α} (h : IsLine sep l) (m : List α) :
    lines sep (l ++ m) = l :: lines sep m := by
  obtain ⟨body, s, rfl, hs, hbody⟩ := h
  rw [List.append_assoc, List.singleton_append, lines_body_append m hbody hs]

/-- A part of a line that has a separator is all of the line. -/
theorem IsLine.eq_of_prefix {l m : List α} (h : IsLine sep l) (hm : m <+: l) {x : α} (hx : x ∈ m)
    (hs : sep x = true) : m = l := by
  obtain ⟨body, t, rfl, -, hbody⟩ := h
  rcases List.prefix_concat_iff.mp hm with heq | hm
  · exact heq
  · have hno := hbody x (hm.subset hx)
    rw [hs] at hno
    exact nomatch hno

/-- Of two lines that a list starts with there is only one. -/
theorem IsLine.eq_of_prefixes {l m t : List α} (hl : IsLine sep l) (hm : IsLine sep m)
    (hlt : l <+: t) (hmt : m <+: t) : l = m := by
  rcases List.prefix_or_prefix_of_prefix hlt hmt with h | h
  · obtain ⟨body, s, rfl, hs, -⟩ := id hl
    exact hm.eq_of_prefix h (List.mem_append_right _ List.mem_cons_self) hs
  · obtain ⟨body, s, rfl, hs, -⟩ := id hm
    exact (hl.eq_of_prefix h (List.mem_append_right _ List.mem_cons_self) hs).symm

/-- Where two texts agree on their first `p` elements, these lie in the same lines: an element of
    the `x`-th line before position `p` has its place in the `x`-th line of the other text. -/
theorem offset_of_take_eq {ls ms : List (List α)} (hls : ∀ l ∈ ls, IsLine sep l)
    (hms : ∀ m ∈ ms, IsLine sep m) {p x y : Nat} (htake : ms.flatten.take p = ls.flatten.take p)
    (hy : y < (ls.getD x []).length) (hp : (ls.take x).flatten.length + y < p) :
    y < (ms.getD x []).length ∧ (ms.take x).flatten.length = (ls.take x).flatten.length := by
  induction x generalizing ls ms p with
  | zero =>
    cases ls with
    | nil => simp at hy
    | cons l ls =>
      simp only [List.getD_cons_zero, List.take_zero, List.flatten_nil, List.length_nil,
        Nat.zero_add] at hy hp ⊢
      have hl := hls l List.mem_cons_self
      -- the part of the first line up to the element is the start of the other text, too
      have hstart : l.take (y + 1) <+: ms.flatten := by
        calc l.take (y + 1) = (ls.cons l).flatten.take (y + 1) := by
              rw [List.flatten_cons, List.take_append_of_le_length (by omega)]
          _ = (ms.flatten.take p).take (y + 1) := by
              rw [htake, List.take_take, Nat.min_eq_left (by omega)]
          _ <+: ms.flatten := (List.take_prefix _ _).trans (List.take_prefix _ _)
      cases ms with
      | nil =>
        have := List.prefix_nil.mp hstart
        simp only [List.take_eq_nil_iff] at this
        rcases this with h | rfl
        · omega
        · simp at hy
      | cons m ms =>
        have hm := hms m List.mem_cons_self
        refine ⟨?_, trivial⟩
        rw [List.getD_cons_zero]
        by_contra hle
        have hml : m <+: l := by
          have hm' : m <+: l.take (y + 1) :=
            List.prefix_of_prefix_length_le (List.prefix_append m ms.flatten) hstart
              (by rw [List.length_take]; omega)
          exact hm'.trans (List.take_prefix _ _)
        obtain ⟨body, s, rfl, hs, -⟩ := id hm
        have heq := hl.eq_of_prefix hml (List.mem_append_right _ List.mem_cons_self) hs
        rw [heq] at hle
        exact hle hy
  | succ x ih =>
    cases ls with
    | nil => simp at hy
    | cons l ls =>
      have hl := hls l List.mem_cons_self
      rw [List.getD_cons_succ] at hy
      rw [List.take_succ_cons, List.flatten_cons, List.length_append] at hp
      rw [List.flatten_cons] at htake
      have hstart : l <+: ms.flatten := by
        have hle : l <+: (l ++ ls.flatten).take p := by
          rw [List.prefix_take_iff]
          exact ⟨List.prefix_append _ _, by omega⟩
        rw [← htake] at hle
        exact hle.trans (List.take_prefix _ _)
      cases ms with
      | nil =>
        obtain ⟨body, s, rfl, -⟩ := id hl
        have := List.prefix_nil.mp hstart
        simp at this
      | cons m ms =>
        -- the first lines are the same
        obtain rfl := (hms m List.mem_cons_self).eq_of_prefixes hl (List.prefix_append _ _) hstart
        rw [List.flatten_cons, List.take_append, List.take_append] at htake
        have hrest := List.append_cancel_left htake
        obtain ⟨hy', hlen⟩ := ih (fun l hl => hls l (List.mem_cons_of_mem _ hl))
          (fun m hm => hms m (List.mem_cons_of_mem _ hm)) hrest hy (by omega)
        rw [List.getD_cons_succ, List.take_succ_cons, List.take_succ_cons, List.flatten_cons,
          List.flatten_cons, List.length_append, List.length_append, hlen]
        exact ⟨hy', rfl⟩

theorem IsLine.rest_eq {l : List α} (h : IsLine sep l) : rest sep l = [] := by
  obtain ⟨body, s, rfl, hs, hbody⟩ := h
  rw [rest_body_append [] hbody hs, rest_nil]

variable (sep) in
/-- Every stream either has no separator or starts with a line. -/
theorem exists_first_line (l : List α) :
    (∀ x ∈ l, sep x = false) ∨
      ∃ body s tail, l = body ++ s :: tail ∧ sep s = true ∧ ∀ x ∈ body, sep x = false := by
  induction l with
  | nil => left; simp
  | cons a as ih =>
    cases ha : sep a with
    | true => exact .inr ⟨[], a, as, rfl, ha, by simp⟩
    | false =>
      rcases ih with h | ⟨body, s, tail, rfl, hs, hbody⟩
      · left
        intro x hx
        rcases List.mem_cons.mp hx with rfl | hx
        · exact ha
        · exact h x hx
      · refine .inr ⟨a :: body, s, tail, rfl, hs, ?_⟩
        intro x hx
        rcases List.mem_cons.mp hx with rfl | hx
        · exact ha
        · exact hbody x hx

/-- One round of a loop that searches the first separator: the line up to and
    including it is cut off and the rest of the stream is left. -/
theorem lines_of_findIdx? {l : List α} {n : Nat} (h : l.findIdx? sep = some n) :
    n < l.length ∧ IsLine sep (l.take (n + 1)) ∧
      lines sep l = l.take (n + 1) :: lines sep (l.drop (n + 1)) ∧
      rest sep l = rest sep (l.drop (n + 1)) := by
  obtain ⟨hlt, hsep, hbefore⟩ := List.findIdx?_eq_some_iff_getElem.mp h
  have hbody : ∀ x ∈ l.take n, sep x = false := by
    intro x hx
    obtain ⟨i, hi, rfl⟩ := List.mem_iff_getElem.mp hx
    have hin : i < n := by simp only [List.length_take] at hi; omega
    simpa using hbefore i hin
  have hcut : l = l.take n ++ l[n] :: l.drop (n + 1) := by
    rw [← List.drop_eq_getElem_cons hlt, List.take_append_drop]
  have htake : l.take (n + 1) = l.take n ++ [l[n]] := List.take_succ_eq_append_getElem hlt
  refine ⟨hlt, ⟨l.take n, l[n], htake, hsep, hbody⟩, ?_, ?_⟩
  · conv_lhs => rw [hcut]
    rw [lines_body_append _ hbody hsep, htake]
  · conv_lhs => rw [hcut]
    rw [rest_body_append _ hbody hsep]

/-! ## Induction on the lines of a stream -/

variable (sep) in
/-- Induction on a stream line by line, ending with a separator-free rest. -/
theorem induction_on {P : List α → Prop} (l : List α)
    (rest : ∀ l, (∀ x ∈ l, sep x = false) → P l)
    (line : ∀ body s tail, sep s = true → (∀ x ∈ body, sep x = false) → P tail →
      P (body ++ s :: tail)) : P l := by
  induction hn : l.length using Nat.strongRecOn generalizing l with
  | ind n ih =>
    rcases exists_first_line sep l with h | ⟨body, s, tail, rfl, hs, hbody⟩
    · exact rest l h
    · refine line body s tail hs hbody (ih tail.length ?_ tail rfl)
      simp only [← hn, List.length_append, List.length_cons]
      omega

/-- The lines and the rest are the stream. -/
theorem flatten_lines_append_rest (l : List α) : (lines sep l).flatten ++ rest sep l = l := by
  induction l using induction_on sep with
  | rest l h => rw [lines_eq_nil h, rest_eq_self h]; simp
  | line body s tail hs hbody ih =>
    rw [lines_body_append _ hbody hs, rest_body_append _ hbody hs, List.flatten_cons]
    simp only [List.append_assoc, List.cons_append, List.nil_append, ih]

theorem rest_suffix (l : List α) : rest sep l <:+ l :=
  ⟨(lines sep l).flatten, flatten_lines_append_rest l⟩

/-- A stream with a separator in it has a line. -/
theorem lines_ne_nil {l : List α} {x : α} (hx : x ∈ l) (hs : sep x = true) : lines sep l ≠ [] := by
  rcases exists_first_line sep l with hno | ⟨body, s, tail, rfl, hs', hbody⟩
  · rw [hno x hx] at hs
    exact nomatch hs
  · rw [lines_body_append _ hbody hs']
    exact List.cons_ne_nil _ _

theorem isLine_of_mem_lines {l m : List α} (h : m ∈ lines sep l) : IsLine sep m := by
  induction l using induction_on sep with
  | rest l hl => rw [lines_eq_nil hl] at h; cases h
  | line body s tail hs hbody ih =>
    rw [lines_body_append _ hbody hs] at h
    rcases List.mem_cons.mp h with rfl | h
    · exact ⟨body, s, rfl, hs, hbody⟩
    · exact ih h

theorem sep_eq_false_of_mem_rest {l : List α} {x : α} (h : x ∈ rest sep l) : sep x = false := by
  induction l using induction_on sep with
  | rest l hl => rw [rest_eq_self hl] at h; exact hl x h
  | line body s tail hs hbody ih => rw [rest_body_append _ hbody hs] at h; exact ih h

/-! ## The append laws -/

theorem split_append (a b : List α) :
    split sep (a ++ b) =
      (lines sep a ++ lines sep (rest sep a ++ b), rest sep (rest sep a ++ b)) := by
  induction a using induction_on sep with
  | rest a h => rw [lines_eq_nil h, rest_eq_self h]; rfl
  | line body s tail hs hbody ih =>
    rw [List.append_assoc, List.cons_append, split_body_append _ hbody hs,
      lines_body_append _ hbody hs, rest_body_append _ hbody hs, lines, rest, ih]
    rfl

/-- The lines of a stream that arrives in two pieces, with the rest of the first
    piece kept until the second arrives. -/
theorem lines_append (a b : List α) :
    lines sep (a ++ b) = lines sep a ++ lines sep (rest sep a ++ b) := by
  rw [lines, split_append]

theorem rest_append (a b : List α) : rest sep (a ++ b) = rest sep (rest sep a ++ b) := by
  rw [rest, split_append]

/-- After a piece that ends in complete lines the next piece starts afresh. -/
theorem lines_append_of_rest_nil {a : List α} (h : rest sep a = []) (b : List α) :
    lines sep (a ++ b) = lines sep a ++ lines sep b := by
  rw [lines_append, h, List.nil_append]

theorem rest_append_of_rest_nil {a : List α} (h : rest sep a = []) (b : List α) :
    rest sep (a ++ b) = rest sep b := by
  rw [rest_append, h, List.nil_append]

/-- Lines in a row come out again, and what follows them starts afresh. -/
theorem split_flatten_append {ls : List (List α)} (h : ∀ l ∈ ls, IsLine sep l) (m : List α) :
    split sep (ls.flatten ++ m) = (ls ++ lines sep m, rest sep m) := by
  induction ls with
  | nil => rfl
  | cons l ls ih =>
    obtain ⟨body, s, rfl, hs, hbody⟩ := h l List.mem_cons_self
    have ih := ih fun l hl => h l (List.mem_cons_of_mem _ hl)
    rw [List.flatten_cons, List.append_assoc, List.append_assoc, List.singleton_append,
      split_body_append _ hbody hs, lines, rest, ih, List.cons_append]

/-- Without its first `n` lines, a stream goes on as it does with them. -/
theorem split_drop_append {a : List α} {n : Nat} (hn : n ≤ (lines sep a).length) (b : List α) :
    split sep (((lines sep a).drop n).flatten ++ rest sep a ++ b) =
      ((lines sep (a ++ b)).drop n, rest sep (a ++ b)) := by
  rw [List.append_assoc, split_flatten_append
    fun l hl => isLine_of_mem_lines (List.mem_of_mem_drop hl), lines_append a b, rest_append a b,
    List.drop_append_of_le_length hn]

/-- The lines of the beginning of a stream are the first lines of the stream. -/
theorem lines_prefix {a b : List α} (h : a <+: b) : lines sep a <+: lines sep b := by
  obtain ⟨t, rfl⟩ := h
  rw [lines_append]
  exact List.prefix_append _ _

/-- What has no separator in it becomes the start of the next line. -/
theorem lines_append_of_cons {a b l : List α} {ls : List (List α)}
    (ha : ∀ x ∈ a, sep x = false) (hb : lines sep b = l :: ls) :
    lines sep (a ++ b) = (a ++ l) :: ls := by
  rcases exists_first_line sep b with hno | ⟨body, s, tail, rfl, hs, hbody⟩
  · rw [lines_eq_nil hno] at hb
    exact nomatch hb
  · rw [lines_body_append _ hbody hs] at hb
    obtain ⟨rfl, rfl⟩ := List.cons.inj hb
    have hcut : ∀ x ∈ a ++ body, sep x = false := by
      intro x hx
      exact (List.mem_append.mp hx).elim (ha x) (hbody x)
    rw [← List.append_assoc, lines_body_append _ hcut hs, List.append_assoc]

/-! ## Renaming the alphabet -/

/-- Cutting commutes with a renaming of the alphabet. -/
theorem split_map {β : Type*} {sep : β → Bool} (f : α → β) (l : List α) :
    split sep (l.map f) =
      ((lines (sep ∘ f) l).map (List.map f), (rest (sep ∘ f) l).map f) := by
  induction l using induction_on (sep ∘ f) with
  | rest l h =>
    have hmap : ∀ x ∈ l.map f, sep x = false := by simpa using h
    rw [lines_eq_nil h, rest_eq_self h]
    exact Prod.ext (lines_eq_nil hmap) (rest_eq_self hmap)
  | line body s tail hs hbody ih =>
    have hmap : ∀ x ∈ body.map f, sep x = false := by simpa using hbody
    rw [List.map_append, List.map_cons, split_body_append _ hmap (show sep (f s) = true from hs),
      lines_body_append _ hbody hs, rest_body_append _ hbody hs, lines, rest, ih]
    simp

theorem lines_map {β : Type*} {sep : β → Bool} (f : α → β) (l : List α) :
    lines sep (l.map f) = (lines (sep ∘ f) l).map (List.map f) := by
  rw [lines, split_map]

theorem rest_map {β : Type*} {sep : β → Bool} (f : α → β) (l : List α) :
    rest sep (l.map f) = (rest (sep ∘ f) l).map f := by
  rw [rest, split_map]

end Lines
