import Aesd.Spec.LockBalance

/-!
# The critical sections of the mutex threads

Whatever the order of the threads, their locks and unlocks come in pairs, one pair after another,
and the pairs are those of the threads that report success (`Threadfunc.sections_in_turn`). What
can go wrong is that no further pair begins: `Threadfunc.lock_reachable_iff` tells from a state
whether a thread that waits for the mutex can still have it.
-/

namespace Aesd

namespace Threadfunc

variable {t t' : Threadfunc} {i j : Nat} {call : ThreadCall} {m m' : Mutex Nat}
  {es : List (Nat × ThreadCall)} {g g' : Threads Nat (Mutex Nat) Threadfunc}

/-- The locks and unlocks that succeeded. -/
def sections (es : List (Nat × ThreadCall)) : List (Nat × ThreadCall) :=
  es.filter fun c => c.2 = .lock 0 ∨ c.2 = .unlock 0

/-- The threads that have released the mutex, in their order. -/
def released (es : List (Nat × ThreadCall)) : List Nat :=
  (es.filter fun c => c.2 = .unlock 0).map Prod.fst

/-- A thread's lock and its unlock. -/
def criticalSection (i : Nat) : List (Nat × ThreadCall) := [(i, .lock 0), (i, .unlock 0)]

/-! ### The pairs of a run -/

/-- The sections of a run that the threads have left, and the one that is begun. -/
structure InTurn (es : List (Nat × ThreadCall)) (g : Threads Nat (Mutex Nat) Threadfunc) :
    Prop where
  sections : sections es =
    (released es).flatMap criticalSection ++ g.shared.toList.map fun i => (i, .lock 0)
  nodup : (released es).Nodup
  success : ∀ i, i ∈ released es ↔ (g.locals i).data.threadCompleteSuccess = true

theorem sections_concat (es : List (Nat × ThreadCall)) (c : Nat × ThreadCall) :
    sections (es ++ [c]) = sections es ++ if c.2 = .lock 0 ∨ c.2 = .unlock 0 then [c] else [] := by
  simp [sections, List.filter_append, List.filter_singleton]

theorem released_concat (es : List (Nat × ThreadCall)) (c : Nat × ThreadCall) :
    released (es ++ [c]) = released es ++ if c.2 = .unlock 0 then [c.1] else [] := by
  simp only [released, List.filter_append, List.map_append, List.filter_singleton]
  split <;> simp_all

/-- Only a thread that has returned reports success. -/
theorem returned_of_success (hrun : lts.run init es = some g) (i : Nat)
    (hi : (g.locals i).data.threadCompleteSuccess = true) : (g.locals i).pc = .returned := by
  refine Lts.run_invariant
    (I := fun g => ∀ i, (g.locals i).data.threadCompleteSuccess = true → (g.locals i).pc = .returned)
    (fun i hi => ?_) (fun g c g' ih hstep i hi => ?_) hrun i hi
  · exact absurd hi (by simp [init, notStarted])
  · obtain ⟨j, call⟩ := c
    obtain ⟨m, t, htrans, rfl⟩ := lts_step hstep
    by_cases hj : i = j
    · subst hj
      have hold := ih i
      cases htrans <;> simp_all [leave]
    · simp only [Function.update_of_ne hj] at hi ⊢
      exact ih i hi

/-- A call that is neither a lock nor an unlock that succeeds. -/
theorem InTurn.of_other (h : InTurn es g) (hlock : call ≠ .lock 0) (hunlock : call ≠ .unlock 0)
    (hsuccess : t.data.threadCompleteSuccess = (g.locals i).data.threadCompleteSuccess) :
    InTurn (es ++ [(i, call)]) ⟨g.shared, Function.update g.locals i t⟩ := by
  have hreleased : released (es ++ [(i, call)]) = released es := by
    rw [released_concat, if_neg hunlock, List.append_nil]
  refine ⟨?_, hreleased ▸ h.nodup, fun n => ?_⟩
  · rw [sections_concat, if_neg (by simp [hlock, hunlock]), List.append_nil, hreleased]
    exact h.sections
  · rw [hreleased, h.success]
    by_cases hn : n = i
    · subst hn; simp [hsuccess]
    · simp [hn]

theorem InTurn.step (h : InTurn es g) (hrun : lts.run init es = some g)
    (htrans : Trans i g.shared (g.locals i) call m t) :
    InTurn (es ++ [(i, call)]) ⟨m, Function.update g.locals i t⟩ := by
  have hno : (g.locals i).pc ≠ .returned →
      (g.locals i).data.threadCompleteSuccess = false := fun hpc =>
    Bool.eq_false_iff.mpr fun hi => hpc (returned_of_success hrun i hi)
  cases htrans with
  | notCreated hpc => exact h.of_other (by simp) (by simp) rfl
  | start hpc => exact h.of_other (by simp) (by simp) (hno (by simp [hpc])).symm
  | obtainSleepFailed hpc hrc =>
    exact h.of_other (by simp) (by simp) (hno (by simp [hpc])).symm
  | obtainSleep hpc => exact h.of_other (by simp) (by simp) rfl
  | lockFailed hpc hrc =>
    exact h.of_other (by simpa using hrc) (by simp) (hno (by simp [hpc])).symm
  | lock hpc hfree =>
    have hreleased : released (es ++ [(i, .lock 0)]) = released es := by
      rw [released_concat, if_neg (by simp), List.append_nil]
    refine ⟨?_, hreleased ▸ h.nodup, fun n => ?_⟩
    · rw [sections_concat, if_pos (.inl rfl), hreleased, h.sections, hfree]
      simp
    · rw [hreleased, h.success]
      by_cases hn : n = i
      · subst hn; simp
      · simp [hn]
  | releaseSleepFailed hpc hrc =>
    exact h.of_other (by simp) (by simp) (hno (by simp [hpc])).symm
  | releaseSleep hpc => exact h.of_other (by simp) (by simp) rfl
  | unlockFailed hpc hrc _ =>
    exact h.of_other (by simp) (by simpa using hrc) (hno (by simp [hpc])).symm
  | unlock hpc hheld =>
    have hreleased : released (es ++ [(i, .unlock 0)]) = released es ++ [i] := by
      rw [released_concat, if_pos rfl]
    have hnew : i ∉ released es := by
      rw [h.success, hno (by simp [hpc])]
      simp
    refine ⟨?_, ?_, fun n => ?_⟩
    · rw [sections_concat, if_pos (.inr rfl), hreleased, h.sections, hheld]
      simp [criticalSection]
    · rw [hreleased]
      exact List.nodup_append.mpr ⟨h.nodup, List.nodup_singleton i, fun a ha b hb hab =>
        hnew (List.mem_singleton.mp hb ▸ hab ▸ ha)⟩
    · rw [hreleased, List.mem_append, h.success]
      by_cases hn : n = i
      · subst hn; simp [leave]
      · simp [hn]

/-- In every run of any number of threads, the locks and unlocks that succeed are the lock and
    unlock of one thread after those of another, then the lock of the thread that has the mutex,
    if one has it. No thread has two such pairs, and those that have one are exactly those whose
    `thread_complete_success` is set. -/
theorem sections_in_turn (hrun : lts.run init es = some g) : InTurn es g := by
  have hstart : InTurn [] init := by
    refine ⟨rfl, List.nodup_nil, fun i => ?_⟩
    simp [released, init, notStarted]
  refine Lts.run_induction (P := InTurn) hstart (fun es g c g' hpre ih hstep => ?_) hrun
  obtain ⟨i, call⟩ := c
  obtain ⟨m, t, htrans, rfl⟩ := lts_step hstep
  exact ih.step hpre htrans

/-- Two threads. The second one waits while the first one has the mutex, and has it then. -/
def twoThreads : List (Nat × ThreadCall) :=
  [(0, .start 1 2 true true), (1, .start 1 1500 true true), (0, .sleep 0), (0, .lock 0),
    (1, .sleep 0), (0, .sleep 0), (0, .unlock 0), (1, .lock 0)]

theorem sections_in_turn_twoThreads :
    ∃ g, lts.run init twoThreads = some g ∧ g.shared = some 1 ∧ InTurn twoThreads g :=
  ⟨(lts.run init twoThreads).get (by decide), (Option.some_get _).symm, by decide,
    sections_in_turn (Option.some_get _).symm⟩

/-! ### Waiting for the mutex -/

/-- The times that `clock_nanosleep` takes are those that are not negative. -/
theorem sleepTimespec_valid_iff (ms : Int32) : (sleepTimespec ms).Valid ↔ 0 ≤ ms.toInt := by
  have hsum := Int.mul_tdiv_add_tmod ms.toInt 1000
  simp only [sleepTimespec, Timespec.Valid]
  constructor
  · intro h
    omega
  · intro h
    have hsec := Int.tdiv_nonneg h (show (0 : Int) ≤ 1000 by decide)
    have hnsec := Int.tmod_nonneg 1000 h
    have hlt := Int.tmod_lt_of_pos ms.toInt (show (0 : Int) < 1000 by decide)
    omega

/-- A thread with the mutex that can release it. -/
def CanRelease (t : Threadfunc) : Prop :=
  t.pc = .unlock ∨ t.pc = .releaseSleep ∧ 0 ≤ t.data.waitToReleaseMs.toInt

/-- A thread with the mutex is between its lock and its unlock, or has returned. -/
theorem pc_of_holder (hrun : lts.run init es = some g) (hj : g.shared = some j) :
    (g.locals j).pc = .releaseSleep ∨ (g.locals j).pc = .unlock ∨ (g.locals j).pc = .returned := by
  have hinv := lockInv_of_run hrun j
  cases hpc : (g.locals j).pc <;> simp only [LockInv, hpc] at hinv
  case releaseSleep => exact .inl rfl
  case unlock => exact .inr (.inl rfl)
  case returned => exact .inr (.inr rfl)
  all_goals exact absurd hj hinv.2

/-- A thread has the mutex and never releases it. -/
structure Stuck (j : Nat) (g : Threads Nat (Mutex Nat) Threadfunc) : Prop where
  held : g.shared = some j
  pc : (g.locals j).pc = .returned ∨
    (g.locals j).pc = .releaseSleep ∧ (g.locals j).data.waitToReleaseMs.toInt < 0

/-- A sleep with the mutex held returns what `clock_nanosleep` may. -/
theorem sleepMs_of_step {rc : Int} (hstep : lts.step g (i, .sleep rc) = some g')
    (hpc : (g.locals i).pc = .releaseSleep) : SleepMs (g.locals i).data.waitToReleaseMs rc := by
  obtain ⟨m, t, hstep, -⟩ := Lts.interleave_step.mp hstep
  obtain ⟨t', ht, -⟩ := Option.bind_eq_some_iff.mp hstep
  simp only [step, hpc] at ht
  exact (Option.ite_none_right_eq_some.mp ht).1

theorem Stuck.step (h : Stuck j g) (hstep : lts.step g (i, call) = some g') :
    Stuck j g' ∧ call ≠ .lock 0 := by
  have hsleep := fun rc (hcall : call = .sleep rc) => sleepMs_of_step (hcall ▸ hstep)
  obtain ⟨m, t, htrans, rfl⟩ := lts_step hstep
  obtain ⟨hheld, hpc⟩ := h
  rw [hheld] at htrans
  by_cases hij : i = j
  · -- the holder returns from its sleep at most
    subst hij
    cases htrans with
    | releaseSleep hpc' =>
      have hvalid := (sleepTimespec_valid_iff _).mp (hsleep 0 rfl hpc' rfl)
      rcases hpc with hpc | ⟨-, hneg⟩
      · exact absurd (hpc.symm.trans hpc') (by simp)
      · omega
    | releaseSleepFailed hpc' hrc => exact ⟨⟨rfl, by simp [leave]⟩, by simp⟩
    | _ => simp_all
  · have hlocal : Function.update g.locals i t j = g.locals j :=
      Function.update_of_ne (Ne.symm hij) _ _
    have hcall : m = some j ∧ call ≠ .lock 0 := by
      cases htrans <;> simp_all
    exact ⟨⟨hcall.1, by simpa only [hlocal] using hpc⟩, hcall.2⟩

theorem Stuck.run (h : Stuck j g) (hrun : lts.run g es = some g') (i : Nat) :
    (i, ThreadCall.lock 0) ∉ es := by
  induction es generalizing g with
  | nil => exact List.not_mem_nil
  | cons c es ih =>
    obtain ⟨g₁, hstep, hrest⟩ := Lts.run_cons_eq_some.mp hrun
    obtain ⟨n, call⟩ := c
    obtain ⟨h₁, hcall⟩ := h.step hstep
    intro hmem
    rcases List.mem_cons.mp hmem with heq | hmem
    · exact hcall (congrArg Prod.snd heq).symm
    · exact ih h₁ hrest hmem

/-- What the thread and the mutex both do, the system does. -/
theorem lts_step_of (ht : (g.locals i).step call = some t)
    (hm : mutexStep i g.shared call = some m) :
    lts.step g (i, call) = some ⟨m, Function.update g.locals i t⟩ :=
  Lts.interleave_step.mpr ⟨m, t, by simp [ht, hm], rfl⟩

theorem exists_lock (hi : (g.locals i).pc = .lock) (hfree : g.shared = none) :
    ∃ g', lts.step g (i, .lock 0) = some g' := by
  have hstep : (g.locals i).step (.lock 0) = some { g.locals i with pc := .releaseSleep } := by
    simp [step, hi]
  have hmutex : mutexStep i g.shared (.lock 0) = some (some i) := by
    simp [mutexStep, Mutex.lock, hfree]
  exact ⟨_, lts_step_of hstep hmutex⟩

theorem exists_unlock (hj : (g.locals j).pc = .unlock) (hheld : g.shared = some j) :
    ∃ g', lts.step g (j, .unlock 0) = some g' ∧ g'.shared = none ∧
      ∀ i, i ≠ j → g'.locals i = g.locals i := by
  have hstep : (g.locals j).step (.unlock 0) = some ((g.locals j).leave true) := by
    simp [step, hj]
  have hmutex : mutexStep j g.shared (.unlock 0) = some none := by
    simp [mutexStep, Mutex.unlock, hheld]
  exact ⟨_, lts_step_of hstep hmutex, rfl, fun i hij => Function.update_of_ne hij _ _⟩

theorem exists_releaseSleep (hj : (g.locals j).pc = .releaseSleep)
    (hms : 0 ≤ (g.locals j).data.waitToReleaseMs.toInt) :
    ∃ g', lts.step g (j, .sleep 0) = some g' ∧ g'.shared = g.shared ∧
      (g'.locals j).pc = .unlock ∧ ∀ i, i ≠ j → g'.locals i = g.locals i := by
  have hsleep : SleepMs (g.locals j).data.waitToReleaseMs 0 := fun _ =>
    (sleepTimespec_valid_iff _).mpr hms
  have hstep : (g.locals j).step (.sleep 0) = some { g.locals j with pc := .unlock } := by
    simp [step, hj, hsleep]
  exact ⟨_, lts_step_of hstep rfl, rfl, by simp, fun i hij => Function.update_of_ne hij _ _⟩

/-- A thread that waits for the mutex can have it in some continuation of the run just if nobody
    has the mutex, or the one that has it is at its unlock or before a sleep that is not
    negative. -/
theorem lock_reachable_iff (hrun : lts.run init es = some g) (hi : (g.locals i).pc = .lock) :
    (∃ more g', lts.run g more = some g' ∧ (i, ThreadCall.lock 0) ∈ more) ↔
      ∀ j, g.shared = some j → (g.locals j).CanRelease := by
  constructor
  · rintro ⟨more, g', hmore, hmem⟩ j hj
    by_contra hno
    have hstuck : Stuck j g := by
      refine ⟨hj, ?_⟩
      simp only [CanRelease, not_or, not_and, not_le] at hno
      rcases pc_of_holder hrun hj with hpc | hpc | hpc
      · exact .inr ⟨hpc, hno.2 hpc⟩
      · exact absurd hpc hno.1
      · exact .inl hpc
    exact hstuck.run hmore i hmem
  · intro h
    -- the holder sleeps and unlocks, and then the mutex is free
    have hfree : ∃ more g', lts.run g more = some g' ∧ g'.shared = none ∧
        (g'.locals i).pc = .lock := by
      cases hheld : g.shared with
      | none => exact ⟨[], g, rfl, hheld, hi⟩
      | some j =>
        have hij : ∀ {pc}, (g.locals j).pc = pc → pc ≠ .lock → i ≠ j := by
          rintro pc hpc hne rfl
          exact hne (hpc.symm.trans hi)
        rcases h j hheld with hpc | ⟨hpc, hms⟩
        · have hne := hij hpc (by simp)
          obtain ⟨g₁, hstep, hshared, hlocals⟩ := exists_unlock hpc hheld
          refine ⟨[(j, .unlock 0)], g₁, ?_, hshared, by rw [hlocals i hne, hi]⟩
          exact Lts.run_cons_eq_some.mpr ⟨g₁, hstep, rfl⟩
        · have hne := hij hpc (by simp)
          obtain ⟨g₁, hstep, hshared, hpc₁, hlocals⟩ := exists_releaseSleep hpc hms
          obtain ⟨g₂, hstep₂, hshared₂, hlocals₂⟩ := exists_unlock hpc₁ (hshared.trans hheld)
          refine ⟨[(j, .sleep 0), (j, .unlock 0)], g₂, ?_, hshared₂, ?_⟩
          · exact Lts.run_cons_eq_some.mpr
              ⟨g₁, hstep, Lts.run_cons_eq_some.mpr ⟨g₂, hstep₂, rfl⟩⟩
          · rw [hlocals₂ i hne, hlocals i hne, hi]
    obtain ⟨more, g₁, hmore, hfree, hi₁⟩ := hfree
    obtain ⟨g', hstep⟩ := exists_lock hi₁ hfree
    exact ⟨more ++ [(i, .lock 0)], g', Lts.run_concat_eq_some.mpr ⟨g₁, hmore, hstep⟩, by simp⟩

/-- The second thread waits for the first one, which sleeps 2 ms and then releases the mutex. -/
theorem lock_reachable_iff_twoThreads :
    ∃ g, lts.run init (twoThreads.take 5) = some g ∧ g.shared = some 0 ∧
      ((∃ more g', lts.run g more = some g' ∧ (1, ThreadCall.lock 0) ∈ more) ↔
        ∀ j, g.shared = some j → (g.locals j).CanRelease) :=
  ⟨(lts.run init (twoThreads.take 5)).get (by decide), (Option.some_get _).symm, by decide,
    lock_reachable_iff (Option.some_get _).symm (by decide)⟩

end Threadfunc

end Aesd
