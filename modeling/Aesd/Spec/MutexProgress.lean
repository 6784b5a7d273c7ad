import Aesd.Spec.SeekGrammar
import Aesd.Spec.TimestampDeadlock

/-!
# Whoever waits for the mutex gets it, or nobody ever does

In the build with a data file a handler that waits for its own thread is the one thing that can
go wrong with `g_write_mutex`. `FileServer.served_or_frozen`: as long as it has not happened,
whoever waits for the mutex can have it within four calls. Once it has happened, the mutex stays
with that thread and the data file as it is, whatever happens on any thread from then on.
-/

namespace Aesd

theorem Conn.HasFile.step {C : Libc} {c c' : Conn} {call : Call} (h : c.HasFile)
    (htrans : Trans C c call c') : c'.HasFile := by
  cases htrans <;> simp_all [HasFile, tail, freePacket, received]

namespace FileServer

variable {C : Libc} {i j : Option Nat} {s s' : FileState} {t t' : FileThread} {l : FileCall}
  {es : List (Option Nat × FileCall)} {g g' : Threads (Option Nat) FileState FileThread}

/-- The next thing that the thread does is to take the mutex. -/
def Waits (t : FileThread) : Prop :=
  (∃ h, t.handler = some h ∧ h.pc = .lock) ∨
    t.handler = none ∧ ∃ c, t.body = .connection c ∧ c.pc = .lock

/-! ### Once a handler waits for its own thread -/

theorem connectionCall_shared {call : Call} (h : connectionCall i s t call = some (s', t')) :
    s' = s ∨ call = .lock ∨ call = .unlock ∨ ∃ fd bytes ret, call = .write fd bytes ret := by
  unfold connectionCall at h
  split at h
  case h_3 =>
    obtain ⟨-, h⟩ := Option.ite_none_left_eq_some.mp h
    exact .inl (Prod.mk.inj (Option.some.inj h)).1.symm
  case h_4 => exact .inr (.inl rfl)
  case h_5 => exact .inr (.inr (.inl rfl))
  case h_6 fd bytes ret => exact .inr (.inr (.inr ⟨fd, bytes, ret, rfl⟩))
  case h_7 =>
    obtain ⟨-, h⟩ := Option.ite_none_right_eq_some.mp h
    exact .inl (Prod.mk.inj (Option.some.inj h)).1.symm
  all_goals exact .inl (Prod.mk.inj (Option.some.inj h)).1.symm

/-- Who does not hold the mutex while another thread does changes nothing that is shared. -/
theorem Trans.shared_of_held (h : Trans C i s t l s' t') (hinv : MutexInv i s.gWriteMutex t)
    (hheld : s.gWriteMutex = some j) (hne : i ≠ j) : s' = s := by
  have hnot : s.gWriteMutex ≠ some i := fun hi => hne (Option.some.inj (hi.symm.trans hheld))
  have hcritical : t.critical = false :=
    Bool.eq_false_iff.mpr fun hcrit => hnot (hinv.1.mpr (.inl hcrit))
  cases h with
  | create _ => rfl
  | sigalrm _ => rfl
  | @call call c c' s' t₁ hhandler hbody hc hcall =>
    obtain ⟨-, -, hlock, hunlock, -⟩ := connectionCall_mutex hcall
    rcases connectionCall_shared hcall with hs | rfl | rfl | ⟨fd, bytes, ret, rfl⟩
    · exact hs
    · rw [(hlock rfl).1] at hheld
      exact absurd hheld (by simp)
    · exact absurd (hunlock rfl).1 hnot
    · -- a connection about to write holds the mutex
      have hpc : c.pc = .write := by cases hc <;> assumption
      simp [FileThread.critical, hbody, hpc, Pc.critical] at hcritical
  | @handler call h₀ s' h' hhandler hcall =>
    have hpc : h₀.pc = .lock := by
      by_contra hpc
      exact hnot (hinv.1.mpr (.inr (by simp [FileThread.handlerHolds, hhandler, hpc])))
    rcases insertTimestamp_mutex hcall with ⟨-, hm, -⟩ | ⟨hpc', -⟩ | ⟨hpc', -⟩
    · rw [hm] at hheld
      exact absurd hheld (by simp)
    · exact absurd hpc hpc'
    · exact absurd hpc hpc'

/-- Nothing more happens on a thread whose handler waits for it. -/
theorem Trans.not_of_deadlock (h : Trans C i s t l s' t') {h₀ : InsertTimestamp}
    (hhandler : t.handler = some h₀) (hpc : h₀.pc = .lock) (hcritical : t.critical = true)
    (hheld : s.gWriteMutex = some i) : False := by
  cases h with
  | create hbody => simp [FileThread.critical, hbody] at hcritical
  | call hnone _ _ _ =>
    rw [hnone] at hhandler
    exact absurd hhandler (by simp)
  | sigalrm hrun => simp [Interruptible, hhandler] at hrun
  | handler hsome hcall =>
    obtain rfl := Option.some.inj (hhandler.symm.trans hsome)
    rcases insertTimestamp_mutex hcall with ⟨-, hm, -⟩ | ⟨hpc', -⟩ | ⟨hpc', -⟩
    · rw [hm] at hheld
      exact absurd hheld (by simp)
    · exact hpc' hpc
    · exact hpc' hpc

/-- A run after a handler has come to wait for its own thread changes nothing that is shared. -/
theorem frozen_of_selfDeadlock (hrun : (lts C).run init es = some g) (hdead : SelfDeadlock g)
    {fs : List (Option Nat × FileCall)} (hrun' : (lts C).run g fs = some g') :
    g'.shared = g.shared := by
  obtain ⟨i, h, hhandler, hpc, hheld⟩ := hdead
  have hcritical : (g.locals i).critical = true :=
    ((mutexInv_of_run hrun i).1.mp hheld).resolve_right
      (by simp [FileThread.handlerHolds, hhandler, hpc])
  -- the thread stays where it is, too
  have hkept : g'.shared = g.shared ∧ g'.locals i = g.locals i := by
    refine Lts.run_induction (P := fun _ g' => g'.shared = g.shared ∧ g'.locals i = g.locals i)
      ⟨rfl, rfl⟩ (fun fs m c m' hfs ih hstep => ?_) hrun'
    obtain ⟨hshared, hlocal⟩ := ih
    obtain ⟨j, l⟩ := c
    obtain ⟨s, t, htrans, rfl⟩ := lts_step hstep
    have hheld' : m.shared.gWriteMutex = some i := by rw [hshared, hheld]
    have hne : j ≠ i := by
      rintro rfl
      rw [hlocal] at htrans
      exact htrans.not_of_deadlock hhandler hpc hcritical hheld'
    have hinv : MutexInv j m.shared.gWriteMutex (m.locals j) :=
      mutexInv_of_run (Lts.run_append_eq_some.mpr ⟨g, hrun, hfs⟩) j
    exact ⟨(htrans.shared_of_held hinv hheld' hne).trans hshared,
      by rw [← hlocal]; exact Function.update_of_ne (Ne.symm hne) _ _⟩
  exact hkept.1

/-! ### Otherwise the mutex comes free -/

/-- A call of a thread, as a step of the server. -/
theorem step_lts (h : step C i g.shared (g.locals i) l = some (s, t)) :
    (lts C).step g (i, l) = some ⟨s, Function.update g.locals i t⟩ :=
  Lts.interleave_step.mpr ⟨s, t, h, rfl⟩

theorem hasFile_of_run (hrun : (lts C).run init es = some g) {c : Conn}
    (hbody : (g.locals i).body = .connection c) : c.HasFile := by
  revert i c
  refine Lts.run_invariant (I := fun g => ∀ {i : Option Nat} {c : Conn},
    (g.locals i).body = .connection c → c.HasFile) (fun {i c} hbody => ?_)
    (fun g e g' ih hstep i c hbody => ?_) hrun
  · cases i <;> simp [init] at hbody
  · obtain ⟨j, l⟩ := e
    obtain ⟨s, t, htrans, rfl⟩ := lts_step hstep
    by_cases hj : i = j
    · subst hj
      simp only [Function.update_self] at hbody
      cases htrans with
      | create _ =>
        obtain rfl := FileBody.connection.inj hbody
        exact .inr (.inl rfl)
      | call _ hbody₀ hc hcall =>
        obtain rfl := FileBody.connection.inj hbody
        exact (ih hbody₀).step hc
      | sigalrm _ => exact ih hbody
      | handler _ _ => exact ih hbody
    · simp only [Function.update_of_ne hj] at hbody
      exact ih hbody

variable (C i) in
/-- Thread `i` can give the mutex back with at most `n` more calls, the others standing still. -/
def Frees (n : Nat) (g : Threads (Option Nat) FileState FileThread) : Prop :=
  ∃ fs g', (lts C).run g fs = some g' ∧ g'.shared.gWriteMutex = none ∧ fs.length ≤ n ∧
    ∀ c ∈ fs, c.1 = i

theorem Frees.of_step {n : Nat} (hstep : step C i g.shared (g.locals i) l = some (s, t))
    (h : Frees C i n ⟨s, Function.update g.locals i t⟩) : Frees C i (n + 1) g := by
  obtain ⟨fs, g', hrun, hfree, hlen, hfs⟩ := h
  refine ⟨(i, l) :: fs, g', Lts.run_cons_eq_some.mpr ⟨_, step_lts hstep, hrun⟩, hfree, ?_, ?_⟩
  · rw [List.length_cons]
    omega
  · intro c hc
    rcases List.mem_cons.mp hc with rfl | hc
    · rfl
    · exact hfs c hc

theorem Frees.of_free (n : Nat) (h : g.shared.gWriteMutex = none) : Frees C i n g :=
  ⟨[], g, rfl, h, Nat.zero_le n, by simp⟩

theorem Frees.mono {m n : Nat} (h : Frees C i m g) (hle : m ≤ n) : Frees C i n g := by
  obtain ⟨fs, g', hrun, hfree, hlen, hfs⟩ := h
  exact ⟨fs, g', hrun, hfree, hlen.trans hle, hfs⟩

theorem frees_of_handler_unlock {h : InsertTimestamp} (hhandler : (g.locals i).handler = some h)
    (hpc : h.pc = .unlock) (hheld : g.shared.gWriteMutex = some i) : Frees C i 1 g := by
  refine Frees.of_step (l := .handler .unlock) (s := ⟨none, g.shared.dataFile⟩)
    (t := { g.locals i with handler := none }) ?_ (.of_free 0 rfl)
  simp [step, hhandler, insertTimestamp, hpc, hheld, Mutex.unlock]

theorem frees_of_handler_close {h : InsertTimestamp} {fd : Nat}
    (hhandler : (g.locals i).handler = some h) (hpc : h.pc = .close fd)
    (hheld : g.shared.gWriteMutex = some i) : Frees C i 2 g := by
  refine Frees.of_step (l := .handler (.close (some fd))) (s := g.shared)
    (t := { g.locals i with handler := some { h with pc := .unlock } }) ?_
    (frees_of_handler_unlock (h := { h with pc := .unlock }) (by simp) rfl hheld)
  simp [step, hhandler, insertTimestamp, hpc]

/-- A handler that holds the mutex comes to its unlock. -/
theorem frees_of_handler {h : InsertTimestamp} (hhandler : (g.locals i).handler = some h)
    (hpc : h.pc ≠ .lock) (hheld : g.shared.gWriteMutex = some i) : Frees C i 3 g := by
  cases hpc' : h.pc with
  | lock => exact absurd hpc' hpc
  | «open» =>
    -- the handler goes on without a file when the open fails
    have hunlock : Frees C i 1 ⟨g.shared, Function.update g.locals i
        { g.locals i with handler := some { h with pc := .unlock } }⟩ :=
      frees_of_handler_unlock (h := { h with pc := .unlock }) (by simp) rfl hheld
    refine Frees.of_step (l := .handler (.openWrite none)) ?_
      (hunlock.mono (show 1 ≤ 2 by omega))
    simp [step, hhandler, insertTimestamp, hpc']
  | write fd =>
    refine Frees.of_step
      (l := .handler (.write fd h.timestampBuffer h.timestampBuffer.length))
      (s := { g.shared with
        dataFile := (h.file.write g.shared.dataFile h.timestampBuffer).1 })
      (t := { g.locals i with handler := some { h with
        pc := .close fd, file := (h.file.write g.shared.dataFile h.timestampBuffer).2 } }) ?_
      (frees_of_handler_close (h := { h with
        pc := .close fd, file := (h.file.write g.shared.dataFile h.timestampBuffer).2 })
        (by simp) rfl hheld)
    simp [step, hhandler, insertTimestamp, hpc', writeFile]
  | close fd => exact (frees_of_handler_close hhandler hpc' hheld).mono (by omega)
  | unlock => exact (frees_of_handler_unlock hhandler hpc' hheld).mono (by omega)

theorem frees_of_unlock {c : Conn} (hhandler : (g.locals i).handler = none)
    (hbody : (g.locals i).body = .connection c) (hpc : c.pc = .unlock ∨ c.pc = .unlockFailed)
    (hheld : g.shared.gWriteMutex = some i) : Frees C i 1 g := by
  obtain ⟨c', hc⟩ : ∃ c', c.step C .unlock = some c' := by
    rcases hpc with hpc | hpc
    · exact ⟨_, Conn.step_of_trans (.unlock hpc)⟩
    · exact ⟨_, Conn.step_of_trans (.unlockFailed hpc)⟩
  refine Frees.of_step (l := .call .unlock) (s := ⟨none, g.shared.dataFile⟩)
    (t := { g.locals i with body := .connection c' }) ?_ (.of_free 0 rfl)
  simp [step, hhandler, hbody, hc, connectionCall, hheld, Mutex.unlock]

/-- A connection that holds the mutex comes to its unlock. -/
theorem frees_of_critical {c : Conn} (hfile : c.HasFile) (hhandler : (g.locals i).handler = none)
    (hbody : (g.locals i).body = .connection c) (hcritical : c.pc.critical = true)
    (hheld : g.shared.gWriteMutex = some i) : Frees C i 2 g := by
  cases hpc : c.pc with
  | write =>
    obtain ⟨fd, hfd⟩ : ∃ fd, c.gMyFileWrite = some fd := by
      simpa [Conn.HasFile, hpc, Option.isSome_iff_exists] using hfile
    have hc : c.step C (.write fd c.packet c.packet.length) = some { c with pc := .unlock } :=
      Conn.step_of_trans (.write hpc hfd)
    refine Frees.of_step (l := .call (.write fd c.packet c.packet.length))
      (s := { g.shared with
        dataFile := ((g.locals i).fileWrite.write g.shared.dataFile c.packet).1 })
      (t := { g.locals i with
        fileWrite := ((g.locals i).fileWrite.write g.shared.dataFile c.packet).2
        body := .connection { c with pc := .unlock } }) ?_
      (frees_of_unlock (c := { c with pc := .unlock }) (by simpa using hhandler) (by simp)
        (.inl rfl) hheld)
    simp [step, hhandler, hbody, hc, connectionCall, writeFile]
  | unlock => exact (frees_of_unlock hhandler hbody (.inl hpc) hheld).mono (by omega)
  | unlockFailed => exact (frees_of_unlock hhandler hbody (.inr hpc) hheld).mono (by omega)
  | _ => simp [hpc, Pc.critical] at hcritical

/-- Who holds the mutex gives it back, unless its handler waits for it. -/
theorem frees_of_held (hrun : (lts C).run init es = some g) (hdead : ¬ SelfDeadlock g)
    (hheld : g.shared.gWriteMutex = some i) : Frees C i 3 g := by
  cases hhandler : (g.locals i).handler with
  | some h =>
    have hpc : h.pc ≠ .lock := fun hpc => hdead ⟨i, h, hhandler, hpc, hheld⟩
    exact frees_of_handler hhandler hpc hheld
  | none =>
    have hcritical : (g.locals i).critical = true :=
      ((mutexInv_of_run hrun i).1.mp hheld).resolve_right
        (by simp [FileThread.handlerHolds, hhandler])
    cases hbody : (g.locals i).body with
    | connection c =>
      rw [FileThread.critical, hbody] at hcritical
      exact (frees_of_critical (hasFile_of_run hrun hbody) hhandler hbody hcritical hheld).mono
        (by omega)
    | _ => simp [FileThread.critical, hbody] at hcritical

/-- Who waits for the mutex takes it when it is free. -/
theorem exists_lock (hfree : g.shared.gWriteMutex = none) (hwaits : Waits (g.locals i)) :
    ∃ l g', (lts C).step g (i, l) = some g' ∧ g'.shared.gWriteMutex = some i ∧
      ¬ Waits (g'.locals i) := by
  rcases hwaits with ⟨h, hhandler, hpc⟩ | ⟨hhandler, c, hbody, hpc⟩
  · have hstep : step C i g.shared (g.locals i) (.handler .lock) =
        some (⟨some i, g.shared.dataFile⟩,
          { g.locals i with handler := some { h with pc := .open } }) := by
      simp [step, hhandler, insertTimestamp, hpc, hfree, Mutex.lock]
    exact ⟨_, _, step_lts hstep, rfl, by simp [Waits]⟩
  · have hc : c.step C .lock = some { c with pc := .write } := Conn.step_of_trans (.lock hpc)
    have hstep : step C i g.shared (g.locals i) (.call .lock) =
        some (⟨some i, g.shared.dataFile⟩,
          { g.locals i with body := .connection { c with pc := .write } }) := by
      simp [step, hhandler, hbody, hc, connectionCall, hfree, Mutex.lock]
    exact ⟨_, _, step_lts hstep, rfl, by simp [Waits, hhandler]⟩

/-- At every moment of every run one of the two holds. Either a handler waits for its own
    thread; then the mutex and the data file never change again. Or whoever waits for the mutex,
    connection or handler, can have it within four calls. -/
theorem served_or_frozen (hrun : (lts C).run init es = some g) :
    SelfDeadlock g ∧ (∀ fs g', (lts C).run g fs = some g' → g'.shared = g.shared) ∨
      ¬ SelfDeadlock g ∧ ∀ i, Waits (g.locals i) →
        ∃ fs g', (lts C).run g fs = some g' ∧ fs.length ≤ 4 ∧
          g'.shared.gWriteMutex = some i ∧ ¬ Waits (g'.locals i) := by
  by_cases hdead : SelfDeadlock g
  · exact .inl ⟨hdead, fun fs g' hrun' => frozen_of_selfDeadlock hrun hdead hrun'⟩
  refine .inr ⟨hdead, fun i hwaits => ?_⟩
  cases hheld : g.shared.gWriteMutex with
  | none =>
    obtain ⟨l, g', hstep, hmutex, hnot⟩ := exists_lock (C := C) hheld hwaits
    exact ⟨[(i, l)], g', Lts.run_cons_eq_some.mpr ⟨g', hstep, rfl⟩, by simp, hmutex, hnot⟩
  | some j =>
    -- it is not the waiting thread that holds the mutex
    have hne : j ≠ i := by
      rintro rfl
      rcases hwaits with ⟨h, hhandler, hpc⟩ | ⟨hhandler, c, hbody, hpc⟩
      · exact hdead ⟨_, h, hhandler, hpc, hheld⟩
      · have := (mutexInv_of_run hrun _).1.mp hheld
        simp [FileThread.critical, FileThread.handlerHolds, hhandler, hbody, hpc,
          Pc.critical] at this
    obtain ⟨fs, m, hfs, hfree, hlen, hlabels⟩ := frees_of_held hrun hdead hheld
    have hlocal : m.locals i = g.locals i :=
      Lts.locals_of_run_of_ne hfs fun c hc => by rw [hlabels c hc]; exact hne
    rw [← hlocal] at hwaits
    obtain ⟨l, g', hstep, hmutex, hnot⟩ := exists_lock (C := C) hfree hwaits
    refine ⟨fs ++ [(i, l)], g', Lts.run_concat_eq_some.mpr ⟨m, hfs, hstep⟩, ?_, hmutex, hnot⟩
    rw [List.length_append, List.length_singleton]
    omega

/-- A thread waits for the mutex that another one holds. -/
def oneWaits : List (Option Nat × FileCall) :=
  [(some 0, .create 3), (some 0, .call (.openWrite (some 4))), (some 0, .call (.exitFlag false)),
    (some 0, .call (.malloc true)), (some 0, .call (.recv (some [97, newline]) [])),
    (some 0, .call .lock), (none, .sigalrm [116, newline])]

theorem served_or_frozen_oneWaits :
    ∃ g, (lts .glibc).run init oneWaits = some g ∧ g.shared.gWriteMutex = some (some 0) ∧
      (SelfDeadlock g ∧ (∀ fs g', (lts .glibc).run g fs = some g' → g'.shared = g.shared) ∨
        ¬ SelfDeadlock g ∧ ∀ i, Waits (g.locals i) →
          ∃ fs g', (lts .glibc).run g fs = some g' ∧ fs.length ≤ 4 ∧
            g'.shared.gWriteMutex = some i ∧ ¬ Waits (g'.locals i)) :=
  ⟨((lts .glibc).run init oneWaits).get (by decide), (Option.some_get _).symm, by decide,
    served_or_frozen (Option.some_get (by decide)).symm⟩

end FileServer

end Aesd
