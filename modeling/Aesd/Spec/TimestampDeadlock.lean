import Aesd.Native.FileServer
import Aesd.Spec.ConnectionStep

/-!
# The timestamp handler and the mutex

`insert_timestamp` takes `g_write_mutex`, and it runs on the thread that the signal came to. The
mutex is held by a thread just when its connection is between lock and unlock or its handler is
(`holds_iff`), so a handler waits for its own thread if the signal came in between.
`FileServer.self_deadlock_iff` says that this happens in no other way.
-/

namespace Aesd

/-- Between `pthread_mutex_lock` and `pthread_mutex_unlock`. -/
def Pc.critical : Pc → Bool
  | .write | .unlock | .unlockFailed => true
  | _ => false

namespace FileThread

/-- The thread's connection is between its lock and its unlock. -/
def critical (t : FileThread) : Bool :=
  match t.body with
  | .connection c => c.pc.critical
  | _ => false

/-- The handler on the thread is between its lock and its unlock. -/
def handlerHolds (t : FileThread) : Bool :=
  match t.handler with
  | some h => h.pc != .lock
  | none => false

end FileThread

namespace Conn

variable {C : Libc} {c c' : Conn} {call : Call}

@[simp] theorem critical_tail (c : Conn) : c.tail.pc.critical = false := by
  rcases c.tail_cases with ⟨-, htail⟩ | ⟨-, htail⟩ <;> rw [htail] <;> rfl

@[simp] theorem critical_freePacket (c : Conn) : c.freePacket.pc.critical = false :=
  critical_tail _

@[simp] theorem critical_received (c : Conn) (chunk beyond : List UInt8) :
    (c.received C chunk beyond).pc.critical = false := by
  rcases c.received_cases C chunk beyond with
    ⟨-, hc⟩ | ⟨-, -, hc⟩ | ⟨-, -, -, hc⟩ | ⟨seekto, -, -, -, hc⟩ <;> rw [hc] <;> rfl

/-- Lock and unlock apart, a connection stays where it is with the mutex. -/
theorem critical_step (h : Trans C c call c') :
    call = .lock ∧ c.pc.critical = false ∧ c'.pc.critical = true ∨
      call = .unlock ∧ c.pc.critical = true ∧ c'.pc.critical = false ∨
      call ≠ .lock ∧ call ≠ .unlock ∧ c'.pc.critical = c.pc.critical := by
  cases h with
  | lock hpc => exact .inl ⟨rfl, by rw [hpc]; rfl, rfl⟩
  | unlockFailed hpc => exact .inr (.inl ⟨rfl, by rw [hpc]; rfl, critical_tail _⟩)
  | unlock hpc => exact .inr (.inl ⟨rfl, by rw [hpc]; rfl, rfl⟩)
  | loop hpc =>
    refine .inr (.inr ⟨nofun, nofun, ?_⟩)
    rw [hpc]
    cases c.packetBuffer <;> rfl
  | _ =>
    refine .inr (.inr ⟨nofun, nofun, ?_⟩)
    simp_all only [critical_tail, critical_freePacket, critical_received]
    try rfl

end Conn

namespace FileServer

variable {C : Libc} {i : Option Nat} {s s' : FileState} {t t' : FileThread} {l : FileCall}
  {es : List (Option Nat × FileCall)} {g g' : Threads (Option Nat) FileState FileThread}

/-- What can happen on a thread. -/
inductive Trans (C : Libc) (i : Option Nat) (s : FileState) (t : FileThread) :
    FileCall → FileState → FileThread → Prop
  | create {myClient : Nat} : t.body = .notStarted →
    Trans C i s t (.create myClient) s { t with body := .connection (.start myClient) }
  | call {call : Call} {c c' : Conn} {s' : FileState} {t₁ : FileThread} : t.handler = none →
    t.body = .connection c → Conn.Trans C c call c' → connectionCall i s t call = some (s', t₁) →
    Trans C i s t (.call call) s' { t₁ with body := .connection c' }
  | sigalrm {timestamp : List UInt8} : Interruptible t = true →
    Trans C i s t (.sigalrm timestamp) s { t with handler := some ⟨.lock, timestamp, appending⟩ }
  | handler {call : Call} {h : InsertTimestamp} {s' : FileState} {h' : Option InsertTimestamp} :
    t.handler = some h → insertTimestamp i s h call = some (s', h') →
    Trans C i s t (.handler call) s' { t with handler := h' }

theorem trans_of_step (h : step C i s t l = some (s', t')) : Trans C i s t l s' t' := by
  cases l with
  | create myClient =>
    obtain ⟨hbody, h⟩ := Option.ite_none_right_eq_some.mp h
    obtain ⟨rfl, rfl⟩ := Prod.mk.inj (Option.some.inj h)
    exact .create hbody
  | call call =>
    simp only [step] at h
    split at h
    · next c hhandler hbody =>
      simp only [Option.bind_eq_bind, Option.bind_eq_some_iff, Prod.exists, Option.some.injEq,
        Prod.mk.injEq] at h
      obtain ⟨c', hc, s₁, t₁, hcall, rfl, rfl⟩ := h
      exact .call hhandler hbody (Conn.trans_of_step hc) hcall
    · exact nomatch h
  | sigalrm timestamp =>
    obtain ⟨hrun, h⟩ := Option.ite_none_right_eq_some.mp h
    obtain ⟨rfl, rfl⟩ := Prod.mk.inj (Option.some.inj h)
    exact .sigalrm hrun
  | handler call =>
    simp only [step] at h
    split at h
    · exact nomatch h
    · next h₀ hhandler =>
      simp only [Option.bind_eq_bind, Option.bind_eq_some_iff, Prod.exists, Option.some.injEq,
        Prod.mk.injEq] at h
      obtain ⟨s₁, h₁, hcall, rfl, rfl⟩ := h
      exact .handler hhandler hcall

theorem lts_step (h : (lts C).step g (i, l) = some g') :
    ∃ s t, Trans C i g.shared (g.locals i) l s t ∧ g' = ⟨s, Function.update g.locals i t⟩ := by
  obtain ⟨s, t, hstep, rfl⟩ := Lts.interleave_step.mp h
  exact ⟨s, t, trans_of_step hstep, rfl⟩

theorem writeFile_mutex {f f' : OpenFile} {bytes : List UInt8} {ret : Int}
    (h : writeFile s f bytes ret = some (s', f')) : s'.gWriteMutex = s.gWriteMutex := by
  obtain ⟨-, h⟩ := Option.ite_none_right_eq_some.mp h
  obtain ⟨rfl, -⟩ := Prod.mk.inj (Option.some.inj h)
  rfl

/-- What a connection's call does to the mutex; it leaves the thread's own state alone. -/
theorem connectionCall_mutex {call : Call} (h : connectionCall i s t call = some (s', t')) :
    t'.body = t.body ∧ t'.handler = t.handler ∧
      (call = .lock → s.gWriteMutex = none ∧ s'.gWriteMutex = some i) ∧
      (call = .unlock → s.gWriteMutex = some i ∧ s'.gWriteMutex = none) ∧
      (call ≠ .lock → call ≠ .unlock → s'.gWriteMutex = s.gWriteMutex) := by
  unfold connectionCall at h
  split at h
  case h_4 =>
    obtain ⟨m, hm, h⟩ := Option.bind_eq_some_iff.mp h
    obtain ⟨hfree, rfl⟩ := Mutex.lock_eq_some.mp hm
    obtain ⟨rfl, rfl⟩ := Prod.mk.inj (Option.some.inj h)
    exact ⟨rfl, rfl, fun _ => ⟨hfree, rfl⟩, nofun, fun hl => absurd rfl hl⟩
  case h_5 =>
    obtain ⟨m, hm, h⟩ := Option.bind_eq_some_iff.mp h
    obtain ⟨hheld, rfl⟩ := Mutex.unlock_eq_some.mp hm
    obtain ⟨rfl, rfl⟩ := Prod.mk.inj (Option.some.inj h)
    exact ⟨rfl, rfl, nofun, fun _ => ⟨hheld, rfl⟩, fun _ hu => absurd rfl hu⟩
  case h_6 =>
    obtain ⟨⟨s₁, f⟩, hwrite, h⟩ := Option.bind_eq_some_iff.mp h
    obtain ⟨rfl, rfl⟩ := Prod.mk.inj (Option.some.inj h)
    exact ⟨rfl, rfl, nofun, nofun, fun _ _ => writeFile_mutex hwrite⟩
  case h_8 hlock hunlock _ _ =>
    obtain ⟨rfl, rfl⟩ := Prod.mk.inj (Option.some.inj h)
    exact ⟨rfl, rfl, fun hl => absurd hl hlock, fun hu => absurd hu hunlock, fun _ _ => rfl⟩
  case h_3 =>
    obtain ⟨-, h⟩ := Option.ite_none_left_eq_some.mp h
    obtain ⟨rfl, rfl⟩ := Prod.mk.inj (Option.some.inj h)
    exact ⟨rfl, rfl, nofun, nofun, fun _ _ => rfl⟩
  case h_7 =>
    obtain ⟨-, h⟩ := Option.ite_none_right_eq_some.mp h
    obtain ⟨rfl, rfl⟩ := Prod.mk.inj (Option.some.inj h)
    exact ⟨rfl, rfl, nofun, nofun, fun _ _ => rfl⟩
  all_goals
    obtain ⟨rfl, rfl⟩ := Prod.mk.inj (Option.some.inj h)
    exact ⟨rfl, rfl, nofun, nofun, fun _ _ => rfl⟩

/-- What a handler's call does to the mutex. -/
theorem insertTimestamp_mutex {h : InsertTimestamp} {h' : Option InsertTimestamp} {call : Call}
    (hcall : insertTimestamp i s h call = some (s', h')) :
    h.pc = .lock ∧ s.gWriteMutex = none ∧ s'.gWriteMutex = some i ∧
        (∃ h₁, h' = some h₁ ∧ h₁.pc ≠ .lock) ∨
      h.pc ≠ .lock ∧ s.gWriteMutex = some i ∧ s'.gWriteMutex = none ∧ h' = none ∨
      h.pc ≠ .lock ∧ s'.gWriteMutex = s.gWriteMutex ∧ ∃ h₁, h' = some h₁ ∧ h₁.pc ≠ .lock := by
  unfold insertTimestamp at hcall
  split at hcall
  case h_1 hpc =>
    obtain ⟨m, hm, hcall⟩ := Option.bind_eq_some_iff.mp hcall
    obtain ⟨hfree, rfl⟩ := Mutex.lock_eq_some.mp hm
    obtain ⟨rfl, rfl⟩ := Prod.mk.inj (Option.some.inj hcall)
    exact .inl ⟨hpc, hfree, rfl, _, rfl, nofun⟩
  case h_2 hpc =>
    obtain ⟨rfl, rfl⟩ := Prod.mk.inj (Option.some.inj hcall)
    exact .inr (.inr ⟨by rw [hpc]; nofun, rfl, _, rfl, nofun⟩)
  case h_3 hpc =>
    obtain ⟨rfl, rfl⟩ := Prod.mk.inj (Option.some.inj hcall)
    exact .inr (.inr ⟨by rw [hpc]; nofun, rfl, _, rfl, nofun⟩)
  case h_4 hpc =>
    obtain ⟨-, hcall⟩ := Option.ite_none_right_eq_some.mp hcall
    obtain ⟨⟨s₁, f⟩, hwrite, hcall⟩ := Option.bind_eq_some_iff.mp hcall
    obtain ⟨rfl, rfl⟩ := Prod.mk.inj (Option.some.inj hcall)
    exact .inr (.inr ⟨by rw [hpc]; nofun, writeFile_mutex hwrite, _, rfl, nofun⟩)
  case h_5 hpc =>
    obtain ⟨-, hcall⟩ := Option.ite_none_right_eq_some.mp hcall
    obtain ⟨rfl, rfl⟩ := Prod.mk.inj (Option.some.inj hcall)
    exact .inr (.inr ⟨by rw [hpc]; nofun, rfl, _, rfl, nofun⟩)
  case h_6 hpc =>
    obtain ⟨m, hm, hcall⟩ := Option.bind_eq_some_iff.mp hcall
    obtain ⟨hheld, rfl⟩ := Mutex.unlock_eq_some.mp hm
    obtain ⟨rfl, rfl⟩ := Prod.mk.inj (Option.some.inj hcall)
    exact .inr (.inl ⟨by rw [hpc]; nofun, hheld, rfl, rfl⟩)
  case h_7 => exact nomatch hcall

/-! ### Who holds the mutex -/

/-- The thread holds the mutex just when its connection or its handler is between lock and
    unlock, and not both are. -/
def MutexInv (i : Option Nat) (m : Mutex (Option Nat)) (t : FileThread) : Prop :=
  (m = some i ↔ t.critical = true ∨ t.handlerHolds = true) ∧
    ¬ (t.critical = true ∧ t.handlerHolds = true)

theorem MutexInv.step (h : MutexInv i s.gWriteMutex t) (htrans : Trans C i s t l s' t') :
    MutexInv i s'.gWriteMutex t' := by
  cases htrans with
  | create hbody =>
    have hcritical : t.critical = false := by simp [FileThread.critical, hbody]
    rw [MutexInv, hcritical] at h
    exact h
  | @call call c c' s' t₁ hhandler hbody hc hcall =>
    obtain ⟨hbody₁, hhandler₁, hlock, hunlock, hother⟩ := connectionCall_mutex hcall
    have hfree : t.handlerHolds = false := by simp [FileThread.handlerHolds, hhandler]
    simp only [MutexInv, FileThread.critical, FileThread.handlerHolds, hbody, hhandler₁,
      hhandler] at h ⊢
    rcases Conn.critical_step hc with ⟨rfl, hpc, hpc'⟩ | ⟨rfl, hpc, hpc'⟩ | ⟨hnl, hnu, hpc⟩
    · simp [hpc', (hlock rfl).2]
    · simp [hpc', (hunlock rfl).2]
    · simpa [hpc, hother hnl hnu] using h
  | sigalrm hrun =>
    have hfree : t.handlerHolds = false := by
      simp only [Interruptible, Bool.and_eq_true, Option.isNone_iff_eq_none] at hrun
      simp [FileThread.handlerHolds, hrun.1]
    rw [MutexInv, hfree] at h
    exact h
  | @handler call h₀ s' h' hhandler hcall =>
    simp only [MutexInv, FileThread.critical, FileThread.handlerHolds, hhandler] at h ⊢
    rcases insertTimestamp_mutex hcall with
      ⟨hpc, hm, hm', h₁, rfl, hpc₁⟩ | ⟨hpc, hm, hm', rfl⟩ | ⟨hpc, hm', h₁, rfl, hpc₁⟩
    · simp_all
    · simp_all
    · simp_all

/-- No thread touches the mutex for another one. -/
theorem Trans.mutex_frame (h : Trans C i s t l s' t') {j : Option Nat} (hj : j ≠ i) :
    s'.gWriteMutex = some j ↔ s.gWriteMutex = some j := by
  cases h with
  | create _ => rfl
  | @call call c c' s' t₁ _ _ hc hcall =>
    obtain ⟨-, -, hlock, hunlock, hother⟩ := connectionCall_mutex hcall
    rcases Conn.critical_step hc with ⟨rfl, -, -⟩ | ⟨rfl, -, -⟩ | ⟨hnl, hnu, -⟩
    · rw [(hlock rfl).1, (hlock rfl).2]; simp [Ne.symm hj]
    · rw [(hunlock rfl).1, (hunlock rfl).2]; simp [Ne.symm hj]
    · rw [hother hnl hnu]
  | sigalrm _ => rfl
  | handler _ hcall =>
    rcases insertTimestamp_mutex hcall with ⟨-, hm, hm', -⟩ | ⟨-, hm, hm', -⟩ | ⟨-, hm', -⟩
    · rw [hm, hm']; simp [Ne.symm hj]
    · rw [hm, hm']; simp [Ne.symm hj]
    · rw [hm']

theorem mutexInv_of_run (hrun : (lts C).run init es = some g) (i : Option Nat) :
    MutexInv i g.shared.gWriteMutex (g.locals i) := by
  revert i
  refine Lts.run_invariant
    (I := fun g => ∀ i, MutexInv i g.shared.gWriteMutex (g.locals i)) (fun i => ?_)
    (fun g c g' ih hstep i => ?_) hrun
  · cases i <;> simp [MutexInv, init, FileThread.critical, FileThread.handlerHolds]
  · obtain ⟨j, l⟩ := c
    obtain ⟨s, t, htrans, rfl⟩ := lts_step hstep
    by_cases hj : j = i
    · subst hj
      simp only [Function.update_self]
      exact (ih j).step htrans
    · simp only [MutexInv, Function.update_of_ne (Ne.symm hj), htrans.mutex_frame (Ne.symm hj)]
      exact ih i

/-! ### The handler waits for its own thread -/

/-- A handler waits for the mutex and its own thread holds it. -/
def SelfDeadlock (g : Threads (Option Nat) FileState FileThread) : Prop :=
  ∃ i h, (g.locals i).handler = some h ∧ h.pc = .lock ∧ g.shared.gWriteMutex = some i

/-- The signal comes to a thread whose connection is between lock and unlock. -/
def SignalInside (g : Threads (Option Nat) FileState FileThread) (c : Option Nat × FileCall) :
    Prop :=
  ∃ timestamp, c.2 = .sigalrm timestamp ∧ (g.locals c.1).critical = true

theorem selfDeadlock_iff (hrun : (lts C).run init es = some g) :
    SelfDeadlock g ↔ ∃ i, (g.locals i).handler.isSome ∧ (g.locals i).critical = true := by
  constructor
  · rintro ⟨i, h, hhandler, hpc, hm⟩
    refine ⟨i, by rw [hhandler]; rfl, ?_⟩
    exact ((mutexInv_of_run hrun i).1.mp hm).resolve_right (by
      simp [FileThread.handlerHolds, hhandler, hpc])
  · rintro ⟨i, hhandler, hcritical⟩
    obtain ⟨h, hhandler⟩ := Option.isSome_iff_exists.mp hhandler
    have hinv := mutexInv_of_run hrun i
    refine ⟨i, h, hhandler, ?_, hinv.1.mpr (.inl hcritical)⟩
    by_contra hpc
    exact hinv.2 ⟨hcritical, by simp [FileThread.handlerHolds, hhandler, hpc]⟩

/-- While a handler runs the connection stays where the signal found it. -/
theorem Trans.outside (h : Trans C i s t l s' t')
    (ih : t.handler.isSome → t.critical = false)
    (hsignal : ∀ timestamp, l = .sigalrm timestamp → t.critical = false) :
    t'.handler.isSome → t'.critical = false := by
  cases h with
  | create _ => exact fun _ => rfl
  | call hhandler _ _ hcall =>
    intro hsome
    rw [show (_ : FileThread).handler = _ from (connectionCall_mutex hcall).2.1, hhandler] at hsome
    exact nomatch hsome
  | sigalrm _ => exact fun _ => hsignal _ rfl
  | handler hhandler _ => exact fun _ => ih (by rw [hhandler]; rfl)

/-- In every run of any number of connections: no handler ever waits for the mutex that its own
    thread holds, if and only if the signal never comes to a thread whose connection is between
    lock and unlock. -/
theorem self_deadlock_iff (hrun : (lts C).run init es = some g) :
    (∀ pre post s, es = pre ++ post → (lts C).run init pre = some s → ¬ SelfDeadlock s) ↔
      (lts C).Along (fun s c => ¬ SignalInside s c) init es := by
  constructor
  · rintro h pre ⟨i, l⟩ post s rfl hpre ⟨timestamp, rfl, hcritical⟩
    obtain ⟨s₀, hpre₀, hrest⟩ := Lts.run_append_eq_some.mp hrun
    obtain rfl := Option.some.inj (hpre.symm.trans hpre₀)
    obtain ⟨s', hstep, -⟩ := Lts.run_cons_eq_some.mp hrest
    have hrun' := Lts.run_concat_eq_some.mpr ⟨s, hpre, hstep⟩
    refine h _ post s' (by simp) hrun' ((selfDeadlock_iff hrun').mpr ⟨i, ?_⟩)
    obtain ⟨s₁, t, htrans, rfl⟩ := lts_step hstep
    cases htrans
    simpa [FileThread.critical] using hcritical
  · rintro h pre post s rfl hpre hdead
    obtain ⟨i, hhandler, hcritical⟩ := (selfDeadlock_iff hpre).mp hdead
    have houtside : (lts C).Along (fun s c => ¬ SignalInside s c) init pre →
        ∀ i, (s.locals i).handler.isSome → (s.locals i).critical = false := by
      refine Lts.run_induction (P := fun es g =>
        (lts C).Along (fun s c => ¬ SignalInside s c) init es →
          ∀ i, (g.locals i).handler.isSome → (g.locals i).critical = false)
        (fun _ i => nofun) (fun es m c m' hm ih hstep halong i => ?_) hpre
      obtain ⟨hbefore, hlast⟩ := Lts.along_concat.mp halong
      obtain ⟨j, l⟩ := c
      obtain ⟨s₁, t, htrans, rfl⟩ := lts_step hstep
      by_cases hj : j = i
      · subst hj
        simp only [Function.update_self]
        exact htrans.outside (ih hbefore j) fun timestamp hl =>
          Bool.eq_false_iff.mpr fun hcrit => hlast m hm ⟨timestamp, hl, hcrit⟩
      · simp only [Function.update_of_ne (Ne.symm hj)]
        exact ih hbefore i
    rw [houtside h.of_append i hhandler] at hcritical
    exact nomatch hcritical

/-- A connection that gets the signal when it is about to write. -/
def signalBeforeWrite : List (Option Nat × FileCall) :=
  [(some 0, .create 3), (some 0, .call (.openWrite (some 4))), (some 0, .call (.exitFlag false)),
    (some 0, .call (.malloc true)), (some 0, .call (.recv (some [97, newline]) [])),
    (some 0, .call .lock), (some 0, .sigalrm [116, newline])]

theorem self_deadlock_iff_signalBeforeWrite :
    ((lts .glibc).run init signalBeforeWrite).isSome ∧
      ((∀ pre post s, signalBeforeWrite = pre ++ post → (lts .glibc).run init pre = some s →
          ¬ SelfDeadlock s) ↔
        (lts .glibc).Along (fun s c => ¬ SignalInside s c) init signalBeforeWrite) :=
  ⟨by decide, self_deadlock_iff (g := ((lts .glibc).run init signalBeforeWrite).get (by decide))
    (Option.some_get _).symm⟩

theorem signalBeforeWrite_deadlocks :
    ∃ g, (lts .glibc).run init signalBeforeWrite = some g ∧ SelfDeadlock g :=
  ⟨((lts .glibc).run init signalBeforeWrite).get (by decide), (Option.some_get _).symm,
    some 0, ⟨.lock, [116, newline], appending⟩, by decide, rfl, by decide⟩

end FileServer

end Aesd
