import Aesd.Native.Threading

/-!
# Balance of the mutex threads

The mutex is held by the one thread between its lock and its unlock (`LockInv`), with one
exception: a thread whose second sleep fails returns without releasing it.
`Threadfunc.lock_balance_iff` says that this is all that can go wrong, for any number of threads
in any order.
-/

namespace Aesd

/-- What a call returned; starting a thread is none of its own calls. -/
def ThreadCall.rc? : ThreadCall → Option Int
  | .start .. => none
  | .sleep rc => some rc
  | .lock rc => some rc
  | .unlock rc => some rc

namespace Threadfunc

variable {t t' : Threadfunc} {i : Nat} {call : ThreadCall} {m m' : Mutex Nat}
  {es : List (Nat × ThreadCall)} {g g' : Threads Nat (Mutex Nat) Threadfunc}

/-- What the calls of thread `i` returned: its first sleep, the lock, its second sleep and the
    unlock, as far as it got. -/
def results (i : Nat) (es : List (Nat × ThreadCall)) : List Int :=
  (Lts.labelsOf i es).filterMap ThreadCall.rc?

/-- Between the lock and the unlock. -/
def Holds (t : Threadfunc) : Prop := t.pc = .releaseSleep ∨ t.pc = .unlock

/-- What balance of lock and unlock means, after the calls `es`. -/
structure Balanced (es : List (Nat × ThreadCall)) (g : Threads Nat (Mutex Nat) Threadfunc) :
    Prop where
  exclusive : ∀ i j, (g.locals i).Holds → (g.locals j).Holds → i = j
  released : ∀ i, (g.locals i).pc = .returned → g.shared ≠ some i
  free : (∀ i, (g.locals i).pc = .notStarted ∨ (g.locals i).pc = .notCreated ∨
    (g.locals i).pc = .returned) → g.shared = none
  success : ∀ i, (g.locals i).pc = .returned →
    ((g.locals i).data.threadCompleteSuccess = true ↔ results i es = [0, 0, 0, 0])

/-- The third call of a thread, the sleep with the mutex held, never fails. -/
def ReleaseSleepsSucceed (es : List (Nat × ThreadCall)) : Prop :=
  ∀ i rc, (results i es)[2]? = some rc → rc = 0

/-! ### One call -/

/-- What a call does to a thread and to the mutex. -/
inductive Trans (i : Nat) (m : Mutex Nat) (t : Threadfunc) :
    ThreadCall → Mutex Nat → Threadfunc → Prop
  | notCreated {o r : Int32} {granted created : Bool} : t.pc = .notStarted →
    Trans i m t (.start o r granted created) m { t with pc := .notCreated }
  | start {o r : Int32} {granted created : Bool} : t.pc = .notStarted →
    Trans i m t (.start o r granted created) m ⟨.obtainSleep, ⟨o, r, false⟩⟩
  | obtainSleepFailed {rc : Int} : t.pc = .obtainSleep → rc ≠ 0 →
    Trans i m t (.sleep rc) m (t.leave false)
  | obtainSleep : t.pc = .obtainSleep → Trans i m t (.sleep 0) m { t with pc := .lock }
  | lockFailed {rc : Int} : t.pc = .lock → rc ≠ 0 → Trans i m t (.lock rc) m (t.leave false)
  | lock : t.pc = .lock → m = none →
    Trans i m t (.lock 0) (some i) { t with pc := .releaseSleep }
  | releaseSleepFailed {rc : Int} : t.pc = .releaseSleep → rc ≠ 0 →
    Trans i m t (.sleep rc) m (t.leave false)
  | releaseSleep : t.pc = .releaseSleep → Trans i m t (.sleep 0) m { t with pc := .unlock }
  | unlockFailed {rc : Int} : t.pc = .unlock → rc ≠ 0 → m ≠ some i →
    Trans i m t (.unlock rc) m (t.leave false)
  | unlock : t.pc = .unlock → m = some i → Trans i m t (.unlock 0) none (t.leave true)

theorem trans_of_step (ht : t.step call = some t') (hm : mutexStep i m call = some m') :
    Trans i m t call m' t' := by
  unfold step at ht
  split at ht
  case h_1 hpc =>
    obtain rfl := Option.some.inj hm
    split at ht
    · obtain rfl := Option.some.inj ht; exact .notCreated hpc
    · next hdata =>
      obtain rfl := Option.some.inj ht
      simp only [startThreadObtainingMutex] at hdata
      split at hdata
      · exact nomatch hdata
      · split at hdata
        · exact nomatch hdata
        · obtain rfl := Option.some.inj hdata; exact .start hpc
  case h_2 rc hpc =>
    obtain rfl := Option.some.inj hm
    obtain ⟨-, ht⟩ := Option.ite_none_right_eq_some.mp ht
    obtain rfl := Option.some.inj ht
    by_cases hrc : rc = 0
    · subst hrc; exact .obtainSleep hpc
    · rw [if_pos hrc]; exact .obtainSleepFailed hpc hrc
  case h_3 rc hpc =>
    obtain rfl := Option.some.inj ht
    by_cases hrc : rc = 0
    · subst hrc
      obtain ⟨hfree, rfl⟩ := Mutex.lock_eq_some.mp hm
      exact .lock hpc hfree
    · simp only [mutexStep, if_neg hrc, Option.some.injEq] at hm
      subst hm
      rw [if_pos hrc]; exact .lockFailed hpc hrc
  case h_4 rc hpc =>
    obtain rfl := Option.some.inj hm
    obtain ⟨-, ht⟩ := Option.ite_none_right_eq_some.mp ht
    obtain rfl := Option.some.inj ht
    by_cases hrc : rc = 0
    · subst hrc; exact .releaseSleep hpc
    · rw [if_pos hrc]; exact .releaseSleepFailed hpc hrc
  case h_5 rc hpc =>
    obtain rfl := Option.some.inj ht
    by_cases hrc : rc = 0
    · subst hrc
      obtain ⟨hheld, rfl⟩ := Mutex.unlock_eq_some.mp hm
      exact .unlock hpc hheld
    · simp only [mutexStep, if_neg hrc, Option.ite_none_left_eq_some, Option.some.injEq] at hm
      obtain ⟨hheld, rfl⟩ := hm
      rw [if_pos hrc]; exact .unlockFailed hpc hrc hheld
  case h_6 => exact nomatch ht

theorem lts_step (h : lts.step g (i, call) = some g') :
    ∃ m t, Trans i g.shared (g.locals i) call m t ∧
      g' = ⟨m, Function.update g.locals i t⟩ := by
  obtain ⟨m, t, hstep, rfl⟩ := Lts.interleave_step.mp h
  simp only [Option.bind_eq_bind, Option.bind_eq_some_iff, Option.some.injEq,
    Prod.mk.injEq] at hstep
  obtain ⟨t', ht, m', hm, rfl, rfl⟩ := hstep
  exact ⟨_, _, trans_of_step ht hm, rfl⟩

/-- No thread touches the mutex for another one. -/
theorem Trans.mutex_frame (h : Trans i m t call m' t') {j : Nat} (hj : j ≠ i) :
    m' = some j ↔ m = some j := by
  cases h with
  | lock _ hfree => rw [hfree]; simp [Ne.symm hj]
  | unlock _ hheld => rw [hheld]; simp [Ne.symm hj]
  | _ => rfl

/-! ### The invariant -/

/-- What thread `i` has behind it, what its success flag says and whether it holds the mutex. -/
def LockInv (i : Nat) (m : Mutex Nat) (rcs : List Int) (t : Threadfunc) : Prop :=
  match t.pc with
  | .notStarted | .notCreated | .obtainSleep => rcs = [] ∧ m ≠ some i
  | .lock => rcs = [0] ∧ m ≠ some i
  | .releaseSleep => rcs = [0, 0] ∧ m = some i
  | .unlock => rcs = [0, 0, 0] ∧ m = some i
  | .returned => (t.data.threadCompleteSuccess = true ↔ rcs = [0, 0, 0, 0]) ∧
      (m = some i ↔ ∃ rc, rcs[2]? = some rc ∧ rc ≠ 0)

theorem LockInv.congr {rcs : List Int} (h : LockInv i m rcs t) (hm : m' = some i ↔ m = some i) :
    LockInv i m' rcs t := by
  unfold LockInv at h ⊢
  split <;> simp_all

/-- One call of the thread itself. -/
theorem LockInv.step {rcs : List Int} (h : LockInv i m rcs t) (htrans : Trans i m t call m' t') :
    LockInv i m' (rcs ++ call.rc?.toList) t' := by
  cases htrans with
  | notCreated hpc => simpa [LockInv, hpc, ThreadCall.rc?] using h
  | start hpc => simpa [LockInv, hpc, ThreadCall.rc?] using h
  | obtainSleepFailed hpc hrc =>
    simp only [LockInv, hpc] at h
    obtain ⟨rfl, hm⟩ := h
    simp [LockInv, leave, ThreadCall.rc?, hm]
  | obtainSleep hpc =>
    simp only [LockInv, hpc] at h
    obtain ⟨rfl, hm⟩ := h
    exact ⟨rfl, hm⟩
  | lockFailed hpc hrc =>
    simp only [LockInv, hpc] at h
    obtain ⟨rfl, hm⟩ := h
    simp [LockInv, leave, ThreadCall.rc?, hm]
  | lock hpc _ =>
    simp only [LockInv, hpc] at h
    obtain ⟨rfl, -⟩ := h
    exact ⟨rfl, rfl⟩
  | releaseSleepFailed hpc hrc =>
    simp only [LockInv, hpc] at h
    obtain ⟨rfl, hm⟩ := h
    simp [LockInv, leave, ThreadCall.rc?, hm, hrc]
  | releaseSleep hpc =>
    simp only [LockInv, hpc] at h
    obtain ⟨rfl, hm⟩ := h
    exact ⟨rfl, hm⟩
  | unlockFailed hpc hrc hheld =>
    simp only [LockInv, hpc] at h
    exact absurd h.2 hheld
  | unlock hpc _ =>
    simp only [LockInv, hpc] at h
    obtain ⟨rfl, -⟩ := h
    simp [LockInv, leave, ThreadCall.rc?]

theorem lockInv_of_run (hrun : lts.run init es = some g) :
    ∀ i, LockInv i g.shared (results i es) (g.locals i) := by
  refine Lts.run_induction (P := fun es g => ∀ i, LockInv i g.shared (results i es) (g.locals i))
    (fun i => show LockInv i none [] notStarted from ⟨rfl, nofun⟩)
    (fun es g c g' _ ih hstep i => ?_) hrun
  obtain ⟨j, call⟩ := c
  obtain ⟨m, t, htrans, rfl⟩ := lts_step hstep
  by_cases hj : j = i
  · subst hj
    have hresults : results j (es ++ [(j, call)]) = results j es ++ call.rc?.toList := by
      rw [results, Lts.labelsOf_concat_self, List.filterMap_append, results]
      cases hrc : call.rc? <;> simp [hrc]
    simp only [hresults, Function.update_self]
    exact (ih j).step htrans
  · simp only [results, Lts.labelsOf_concat_of_ne hj, Function.update_of_ne (Ne.symm hj)]
    exact (ih i).congr (htrans.mutex_frame (Ne.symm hj))

/-- The results so far are the first ones of all. -/
theorem ReleaseSleepsSucceed.of_append {pre post : List (Nat × ThreadCall)}
    (h : ReleaseSleepsSucceed (pre ++ post)) : ReleaseSleepsSucceed pre := by
  intro i rc hrc
  refine h i rc ?_
  rw [results, Lts.labelsOf_append, List.filterMap_append]
  exact List.getElem?_append_left (List.getElem?_eq_some_iff.mp hrc).1 ▸ hrc

/-- As long as no sleep with the mutex held fails, only a thread that is in between holds it. -/
theorem holds_iff (hrun : lts.run init es = some g) (hsucceed : ReleaseSleepsSucceed es) (i : Nat) :
    g.shared = some i ↔ (g.locals i).Holds := by
  have hinv := lockInv_of_run hrun i
  cases hpc : (g.locals i).pc <;> simp only [LockInv, hpc] at hinv <;> simp only [Holds, hpc]
  case returned =>
    simp only [reduceCtorEq, or_self, iff_false]
    intro hheld
    obtain ⟨rc, hrc, hne⟩ := hinv.2.mp hheld
    exact hne (hsucceed i rc hrc)
  all_goals simp [hinv.2]

/-- In every run of any number of threads: the mutex is held by one thread at most, never by one
    that has returned, and the success flags are right, in every state, if and only if no thread's
    second sleep fails. -/
theorem lock_balance_iff (hrun : lts.run init es = some g) :
    (∀ pre post s, es = pre ++ post → lts.run init pre = some s → Balanced pre s) ↔
      ReleaseSleepsSucceed es := by
  constructor
  · intro h i rc hrc
    by_contra hne
    have hinv := lockInv_of_run hrun i
    cases hpc : (g.locals i).pc <;> simp only [LockInv, hpc] at hinv
    case returned =>
      exact (h es [] g (by simp) hrun).released i hpc (hinv.2.mpr ⟨rc, hrc, hne⟩)
    all_goals simp_all
  · rintro h pre post s rfl hpre
    have hheld := holds_iff hpre h.of_append
    refine ⟨fun i j hi hj => ?_, fun i hpc => ?_, fun hall => ?_, fun i hpc => ?_⟩
    · exact Option.some.inj (((hheld i).mpr hi).symm.trans ((hheld j).mpr hj))
    · rw [ne_eq, hheld i]
      simp [Holds, hpc]
    · cases howner : s.shared with
      | none => rfl
      | some i =>
        have hi := (hheld i).mp howner
        rcases hall i with hpc | hpc | hpc <;> simp [Holds, hpc] at hi
    · have hinv := lockInv_of_run hpre i
      simp only [LockInv, hpc] at hinv
      exact hinv.1

/-- A thread with a negative time to hold the mutex: its second sleep fails at once. -/
def negativeHold : List (Nat × ThreadCall) :=
  [(0, .start 0 (-1) true true), (0, .sleep 0), (0, .lock 0), (0, .sleep 22)]

theorem lock_balance_iff_negativeHold :
    (lts.run init negativeHold).isSome ∧
      ((∀ pre post s, negativeHold = pre ++ post → lts.run init pre = some s → Balanced pre s) ↔
        ReleaseSleepsSucceed negativeHold) :=
  ⟨by decide, lock_balance_iff (g := (lts.run init negativeHold).get (by decide))
    (Option.some_get _).symm⟩

theorem negativeHold_keeps_mutex :
    ∃ g, lts.run init negativeHold = some g ∧ (g.locals 0).pc = .returned ∧ g.shared = some 0 ∧
      ¬ Balanced negativeHold g :=
  ⟨(lts.run init negativeHold).get (by decide), (Option.some_get _).symm, by decide, by decide,
    fun h => h.released 0 (by decide) (by decide)⟩

end Threadfunc

end Aesd
