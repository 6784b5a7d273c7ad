import Aesd.ForStd.Lts

/-!
# Threads over a shared state

Threads that take turns, one step at a time in any order, each with a state of its own and all
with a shared state. A label names the thread and what it does. A thread that may start later
is in a state of its own for that, so there is no bound on their number.

A run of the system shows each thread a run of its own (`run_locals`), and a step changes no
other thread (`interleave_step`); so what holds of a thread alone holds of it in the system.

`Mutex` is the lock that such threads share.
-/

/-- The shared state and the states of the threads. -/
structure Threads (ι σ τ : Type*) where
  shared : σ
  locals : ι → τ

namespace Lts

variable {ι σ τ ε : Type*} [DecidableEq ι]

/-- Threads in any order, one step at a time. -/
def interleave (step : ι → σ → τ → ε → Option (σ × τ)) : Lts (Threads ι σ τ) (ι × ε) where
  step g c := (step c.1 g.shared (g.locals c.1) c.2).map fun r =>
    ⟨r.1, Function.update g.locals c.1 r.2⟩

variable {step : ι → σ → τ → ε → Option (σ × τ)} {g g' : Threads ι σ τ} {i : ι} {e : ε}

/-- A step of the system is a step of one thread. -/
theorem interleave_step : (interleave step).step g (i, e) = some g' ↔
    ∃ s t, step i g.shared (g.locals i) e = some (s, t) ∧
      g' = ⟨s, Function.update g.locals i t⟩ := by
  simp only [interleave, Option.map_eq_some_iff, Prod.exists]
  exact exists_congr fun s => exists_congr fun t => and_congr_right fun _ => eq_comm

/-! ### What one thread does -/

/-- The labels of thread `i`. -/
def labelsOf (i : ι) (es : List (ι × ε)) : List ε :=
  es.filterMap fun c => if c.1 = i then some c.2 else none

@[simp] theorem labelsOf_nil (i : ι) : labelsOf i ([] : List (ι × ε)) = [] := rfl

theorem labelsOf_append (i : ι) (es fs : List (ι × ε)) :
    labelsOf i (es ++ fs) = labelsOf i es ++ labelsOf i fs :=
  List.filterMap_append

@[simp] theorem labelsOf_concat_self (i : ι) (es : List (ι × ε)) (e : ε) :
    labelsOf i (es ++ [(i, e)]) = labelsOf i es ++ [e] := by
  simp [labelsOf]

theorem labelsOf_concat_of_ne {i j : ι} (h : j ≠ i) (es : List (ι × ε)) (e : ε) :
    labelsOf i (es ++ [(j, e)]) = labelsOf i es := by
  simp [labelsOf, h]

/-- Each thread goes through a run of its own. -/
theorem run_locals {L : Lts τ ε}
    (hlocal : ∀ i s t e s' t', step i s t e = some (s', t') → L.step t e = some t')
    {es : List (ι × ε)} (h : (interleave step).run g es = some g') (i : ι) :
    L.run (g.locals i) (labelsOf i es) = some (g'.locals i) := by
  refine run_induction (P := fun es g' => L.run (g.locals i) (labelsOf i es) = some (g'.locals i))
    rfl (fun es m c m' _ ih hstep => ?_) h
  obtain ⟨j, e⟩ := c
  obtain ⟨s, t, hs, rfl⟩ := interleave_step.mp hstep
  by_cases hj : j = i
  · subst hj
    simp only [labelsOf_concat_self, Function.update_self]
    exact run_concat_eq_some.mpr ⟨_, ih, hlocal _ _ _ _ _ _ hs⟩
  · simp only [labelsOf_concat_of_ne hj, Function.update_of_ne (Ne.symm hj)]
    exact ih

/-- Steps of other threads leave a thread where it is. -/
theorem locals_of_run_of_ne {es : List (ι × ε)} (h : (interleave step).run g es = some g')
    (hne : ∀ c ∈ es, c.1 ≠ i) : g'.locals i = g.locals i := by
  refine run_induction (P := fun es g' => (∀ c ∈ es, c.1 ≠ i) → g'.locals i = g.locals i)
    (fun _ => rfl) (fun es m c m' _ ih hstep hne => ?_) h hne
  obtain ⟨j, e⟩ := c
  obtain ⟨s, t, -, rfl⟩ := interleave_step.mp hstep
  have hj : j ≠ i := hne (j, e) (by simp)
  rw [← ih fun c hc => hne c (List.mem_append_left _ hc)]
  exact Function.update_of_ne (Ne.symm hj) _ _

end Lts

/-! ## A mutex -/

/-- A mutex that is not recursive, by the thread that holds it. -/
abbrev Mutex (ι : Type*) := Option ι

namespace Mutex

variable {ι : Type*} {m m' : Mutex ι} {i : ι}

/-- Taking the mutex, which waits until it is free. -/
def lock (m : Mutex ι) (i : ι) : Option (Mutex ι) := if m.isNone then some (some i) else none

/-- Releasing the mutex, which only its holder does. -/
def unlock [DecidableEq ι] (m : Mutex ι) (i : ι) : Option (Mutex ι) :=
  if m = some i then some none else none

theorem lock_eq_some : m.lock i = some m' ↔ m = none ∧ m' = some i := by
  rw [lock, Option.ite_none_right_eq_some, Option.isNone_iff_eq_none, Option.some.injEq,
    eq_comm (a := some i)]

theorem unlock_eq_some [DecidableEq ι] : m.unlock i = some m' ↔ m = some i ∧ m' = none := by
  rw [unlock, Option.ite_none_right_eq_some, Option.some.injEq, eq_comm (a := none)]

end Mutex
