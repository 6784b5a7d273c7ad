import Aesd.Spec.LogDevice
import Aesd.Spec.PacketIsolation
import Aesd.Spec.SeekGrammar

/-!
# `g_write_mutex` among the connections

The mutex is held just by a thread between its `lock` and its `unlock` (`MutexInv`), also where
the write between the two fails. No thread ever waits for another one but for a holder, and the
holder itself never waits; after two of its calls the mutex is free again
(`DeviceServer.mutex_correct`).
-/

namespace Aesd

namespace Conn

variable {C : Libc} {c c' : Conn} {call : Call}

/-- A thread is between `lock` and `unlock`. -/
def InCritical (c : Conn) : Prop := c.pc = .write ∨ c.pc = .unlock ∨ c.pc = .unlockFailed

theorem not_inCritical_tail (c : Conn) : ¬ c.tail.InCritical := by
  rcases c.tail_cases with ⟨-, htail⟩ | ⟨-, htail⟩ <;> rw [htail] <;> simp [InCritical]

theorem not_inCritical_freePacket (c : Conn) : ¬ c.freePacket.InCritical :=
  not_inCritical_tail _

theorem Trans.of_lock (h : Trans C c .lock c') : c.pc = .lock ∧ c'.pc = .write := by
  cases h with
  | lock hpc => exact ⟨hpc, rfl⟩

theorem Trans.of_unlock (h : Trans C c .unlock c') :
    (c.pc = .unlock ∨ c.pc = .unlockFailed) ∧ ¬ c'.InCritical := by
  cases h with
  | unlock hpc => exact ⟨.inl hpc, by simp [InCritical]⟩
  | unlockFailed hpc => exact ⟨.inr hpc, not_inCritical_tail c⟩

/-- Only `lock` and `unlock` lead in and out. -/
theorem Trans.inCritical_iff (h : Trans C c call c') (hlock : call ≠ .lock)
    (hunlock : call ≠ .unlock) : c'.InCritical ↔ c.InCritical := by
  cases h with
  | lock _ => exact absurd rfl hlock
  | unlock _ | unlockFailed _ => exact absurd rfl hunlock
  | writeFailed hpc _ _ | write hpc _ => simp [InCritical, hpc]
  | exit hpc | mallocFailed hpc | recvEnd hpc | reallocFailed hpc | openReadFailed hpc =>
    exact iff_of_false (not_inCritical_tail c) (by simp [InCritical, hpc])
  | ioctlFailed hpc _ | seekReadFailed hpc _ | closeReadFailed hpc _ =>
    exact iff_of_false (not_inCritical_tail _) (by simp [InCritical, hpc])
  | seekReadEnd hpc _ | closeRead hpc _ =>
    exact iff_of_false (not_inCritical_freePacket _) (by simp [InCritical, hpc])
  | seekSendFailed hpc =>
    exact iff_of_false (not_inCritical_freePacket _) (by simp [InCritical, hpc])
  | loop hpc => cases c.packetBuffer <;> simp [InCritical, hpc]
  | @recv chunk beyond hpc _ _ =>
    rcases c.received_cases C chunk beyond with
      ⟨-, hc⟩ | ⟨-, -, hc⟩ | ⟨-, -, -, hc⟩ | ⟨seekto, -, -, -, hc⟩ <;> rw [hc] <;>
      simp [InCritical, hpc]
  | openWriteFailed hpc | openWrite hpc | malloc hpc | realloc hpc | seekSend hpc | openRead hpc
  | sendBackFailed hpc | sendBack hpc | closeSendFailed hpc | closeTail hpc | setDone hpc
  | closeClient hpc => simp [InCritical, hpc]
  | ioctl hpc _ | readBackFailed hpc _ | readBackEnd hpc _ => simp [InCritical, hpc]
  | seekRead hpc _ _ _ | readBack hpc _ _ _ => simp [InCritical, hpc]

theorem pc_tail_ne_readBack (c : Conn) : ¬ (c.tail.pc = .readBack ∨ c.tail.pc = .sendBack) := by
  rcases c.tail_cases with ⟨-, htail⟩ | ⟨-, htail⟩ <;> rw [htail] <;> simp

/-- Where a thread reads back, it has a file for that. -/
theorem myFileRead_of_run {es : List Call} {myClient : Nat}
    (hrun : (lts C).run (start myClient) es = some c) :
    c.pc = .readBack ∨ c.pc = .sendBack → c.myFileRead.isSome := by
  refine Lts.run_invariant (I := fun c => c.pc = .readBack ∨ c.pc = .sendBack → c.myFileRead.isSome)
    (by simp [start]) (fun c call c' ih hstep => ?_) hrun
  cases trans_of_step hstep with
  | exit _ | mallocFailed _ | recvEnd _ | reallocFailed _ | openReadFailed _ | unlockFailed _
  | ioctlFailed _ _ | seekReadFailed _ _ | closeReadFailed _ _ =>
    exact fun hpc => absurd hpc (pc_tail_ne_readBack _)
  | seekSendFailed _ | seekReadEnd _ _ | closeRead _ _ =>
    exact fun hpc => absurd hpc (pc_tail_ne_readBack _)
  | loop _ => cases c.packetBuffer <;> simp
  | recv _ _ _ =>
    rcases c.received_cases C _ _ with
      ⟨-, hc⟩ | ⟨-, -, hc⟩ | ⟨-, -, -, hc⟩ | ⟨seekto, -, -, -, hc⟩ <;> rw [hc] <;> simp
  | _ => simp_all

end Conn

namespace DeviceServer

variable {K : Kernel} {C : Libc} {i j : Nat} {es : List (Nat × DeviceCall)}
  {g g' : Threads Nat DeviceState (Option Conn)}

/-! ### Mutual exclusion -/

/-- The holder of the mutex is the one thread between `lock` and `unlock`. -/
def MutexInv (g : Threads Nat DeviceState (Option Conn)) : Prop :=
  ∀ i, g.shared.gWriteMutex = some i ↔ ∃ c, g.locals i = some c ∧ c.InCritical

/-- The mutex changes hands by `lock` and `unlock` only. -/
theorem MutexInv.of_step (h : MutexInv g) {s' : DeviceState} {c : Conn}
    (hmutex : s'.gWriteMutex = g.shared.gWriteMutex ∨
      g.shared.gWriteMutex = none ∧ s'.gWriteMutex = some i ∨
      g.shared.gWriteMutex = some i ∧ s'.gWriteMutex = none)
    (hself : s'.gWriteMutex = some i ↔ c.InCritical) :
    MutexInv ⟨s', Function.update g.locals i (some c)⟩ := by
  intro j
  by_cases hji : j = i
  · subst hji
    simpa using hself
  · -- for the others nothing has changed
    have hother : s'.gWriteMutex = some j ↔ g.shared.gWriteMutex = some j := by
      rcases hmutex with hsame | ⟨hold, hnew⟩ | ⟨hold, hnew⟩
      · rw [hsame]
      · rw [hold, hnew]
        exact iff_of_false (fun heq => hji (Option.some.inj heq).symm) (by simp)
      · rw [hold, hnew]
        exact iff_of_false (by simp) fun heq => hji (Option.some.inj heq).symm
    simp only [Function.update_of_ne hji]
    exact hother.trans (h j)

theorem MutexInv.step (h : MutexInv g) {l : DeviceCall}
    (hstep : (lts K C).step g (i, l) = some g') : MutexInv g' := by
  obtain ⟨s', t, htrans, rfl⟩ := lts_step hstep
  cases htrans with
  | accept ht _ =>
    refine h.of_step (.inl rfl) ((h i).trans ?_)
    rw [ht]
    simp [Conn.InCritical, Conn.start]
  | @call call out c c' _ hc htrans hcall =>
    have hholds : g.shared.gWriteMutex = some i ↔ c.InCritical := by
      rw [h i, hc]
      simp
    by_cases hlock : call = .lock
    · subst hlock
      obtain ⟨m, hm, hs⟩ := Option.bind_eq_some_iff.mp hcall
      obtain ⟨hfree, rfl⟩ := Mutex.lock_eq_some.mp hm
      obtain rfl := Option.some.inj hs
      exact h.of_step (.inr (.inl ⟨hfree, rfl⟩)) (iff_of_true rfl (.inl htrans.of_lock.2))
    · by_cases hunlock : call = .unlock
      · subst hunlock
        obtain ⟨m, hm, hs⟩ := Option.bind_eq_some_iff.mp hcall
        obtain ⟨hheld, rfl⟩ := Mutex.unlock_eq_some.mp hm
        obtain rfl := Option.some.inj hs
        exact h.of_step (.inr (.inr ⟨hheld, rfl⟩)) (iff_of_false (by simp) htrans.of_unlock.2)
      · have hmutex := deviceCall_mutex hlock hunlock hcall
        refine h.of_step (.inl hmutex) ?_
        rw [hmutex, hholds, htrans.inCritical_iff hlock hunlock]

theorem mutexInv_of_run (hrun : (lts K C).run init es = some g) : MutexInv g :=
  Lts.run_invariant (I := MutexInv) (fun i => by simp [init])
    (fun _ _ _ h hstep => h.step hstep) hrun

/-! ### Who can go on -/

/-- Thread `i` can make a call. -/
def CanStep (K : Kernel) (C : Libc) (g : Threads Nat DeviceState (Option Conn)) (i : Nat) : Prop :=
  ∃ call out g', (lts K C).step g (i, .call call out) = some g'

theorem CanStep.of_call {c c' : Conn} {call : Call} {out : DeviceOutcome} {s' : DeviceState}
    (hc : g.locals i = some c) (htrans : Conn.Trans C c call c')
    (hcall : deviceCall K i g.shared out call = some s') : CanStep K C g i := by
  refine ⟨call, out, _, Lts.interleave_step.mpr ⟨s', some c', ?_, rfl⟩⟩
  simp only [step, hc, Conn.step_of_trans htrans, hcall, Option.bind_eq_bind, Option.bind_some]

/-- A call on a file is answered, by the driver or for the socket that is there instead. -/
theorem exists_fileCall {s : DeviceState} (hinv : s.driver.Inv K) (fd : Nat) (op : Op) :
    s.sockets fd = true ∨ ∃ r d, s.driver.step K op = some (r, d) ∧
      ∀ answer : Ret → Bool, answer r = true →
        s.fileCall K fd op answer = some { s with driver := d } := by
  cases hsocket : s.sockets fd with
  | true => exact .inl rfl
  | false =>
    obtain ⟨r, d, hstep, -⟩ := hinv.step_total op
    exact .inr ⟨r, d, hstep, fun answer hanswer =>
      (DeviceState.fileCall_of_not_socket hsocket hstep).mpr ⟨hanswer, rfl⟩⟩

/-- What a read returns fits in the buffer of a thread. -/
theorem length_le_of_read {d d' : Driver} (hinv : d.Inv K) {fd count : Nat} {copied : Bool} {r : Ret}
    (hstep : d.step K (.read fd count copied) = some (r, d')) : r.data.length ≤ count := by
  cases hfd : d.files fd with
  | none =>
    simp only [Driver.step, hfd, Option.some.injEq, Prod.mk.injEq] at hstep
    rw [← hstep.1]
    exact Nat.zero_le _
  | some fPos =>
    rcases hinv.read_any hfd count with ⟨-, hread⟩ | ⟨-, n, hn, -, -, hread, hfault⟩
    · obtain ⟨rfl, -⟩ := Prod.mk.inj (Option.some.inj ((hread copied).symm.trans hstep))
      exact Nat.zero_le _
    · cases copied with
      | false =>
        obtain ⟨rfl, -⟩ := Prod.mk.inj (Option.some.inj (hfault.symm.trans hstep))
        exact Nat.zero_le _
      | true =>
        obtain ⟨rfl, -⟩ := Prod.mk.inj (Option.some.inj (hread.symm.trans hstep))
        show ((d.contents.drop (sizeTOfLoff fPos)).take n).length ≤ count
        rw [List.length_take]
        omega

/-- A thread that reads can read. -/
theorem CanStep.of_read {c : Conn} {fd : Nat} (hinv : g.shared.driver.Inv K)
    (hc : g.locals i = some c)
    (hfailed : ∃ c', Conn.Trans C c (.read fd none) c')
    (hread : ∀ bytes, bytes.length ≤ initialBufferSize →
      ∃ c', Conn.Trans C c (.read fd (some bytes)) c') : CanStep K C g i := by
  obtain ⟨c', hfailed⟩ := hfailed
  rcases exists_fileCall hinv fd (.read fd initialBufferSize true) with
    hsocket | ⟨r, d, hstep, hcall⟩
  · have hcall : deviceCall K i g.shared .ok (.read fd none) = some g.shared :=
      DeviceState.fileCall_eq_some.mpr (.inl ⟨hsocket, rfl⟩)
    exact .of_call hc hfailed hcall
  · by_cases hr : r.val < 0
    · have hcall : deviceCall K i g.shared .ok (.read fd none) =
          some { g.shared with driver := d } := hcall _ (by simpa using hr)
      exact .of_call hc hfailed hcall
    · obtain ⟨c'', hread⟩ := hread r.data (length_le_of_read hinv hstep)
      have hcall : deviceCall K i g.shared .ok (.read fd (some r.data)) =
          some { g.shared with driver := d } := hcall _ (by simp; omega)
      exact .of_call hc hread hcall

/-- A thread that has not returned can go on, except to take the mutex from another one. -/
theorem canStep_of_run (hrun : (lts K C).run init es = some g) {c : Conn} (hc : g.locals i = some c)
    (hpc : c.pc ≠ .returned) (hlock : c.pc = .lock → g.shared.gWriteMutex = none) :
    CanStep K C g i := by
  have hinv := driverInv_of_run hrun
  obtain ⟨myClient, hconn⟩ :
      ∃ myClient, (Conn.lts C).run (.start myClient) (callsOf i es) = some c := by
    rcases conn_of_run hrun i with ⟨hnone, -⟩ | ⟨c₀, myClient, hc₀, hconn⟩
    · rw [hc] at hnone
      simp at hnone
    · obtain rfl := Option.some.inj (hc₀.symm.trans hc)
      exact ⟨myClient, hconn⟩
  have hwrite := Conn.hasFile_of_run hconn
  have hread := Conn.myFileRead_of_run hconn
  -- calls that are no calls on the device are always answered
  have hother : ∀ {call : Call} {c' : Conn}, Conn.Trans C c call c' →
      deviceCall K i g.shared .ok call = some g.shared → CanStep K C g i :=
    fun htrans hcall => .of_call hc htrans hcall
  have hclose : ∀ {fd : Option Nat} {c' : Conn}, Conn.Trans C c (.close fd) c' → CanStep K C g i := by
    intro fd c' htrans
    obtain ⟨s', hcall⟩ : ∃ s', deviceCall K i g.shared .ok (.close fd) = some s' :=
      exists_deviceCall_close i .ok hinv fd
    exact .of_call hc htrans hcall
  have hunlock : c.InCritical → ∃ s', deviceCall K i g.shared .ok .unlock = some s' := by
    intro hcritical
    have hheld := (mutexInv_of_run hrun i).mpr ⟨c, hc, hcritical⟩
    exact ⟨_, Option.bind_eq_some_iff.mpr ⟨none, Mutex.unlock_eq_some.mpr ⟨hheld, rfl⟩, rfl⟩⟩
  cases hat : c.pc with
  | openWrite => exact hother (.openWriteFailed hat) rfl
  | loopTop => exact hother (.exit hat) rfl
  | malloc => exact hother (.mallocFailed hat) rfl
  | recv => exact hother (show Conn.Trans C c (.recv none []) _ from .recvEnd hat) rfl
  | realloc => exact hother (.reallocFailed hat) rfl
  | openRead => exact hother (.openReadFailed hat) rfl
  | seekSend => exact hother (.seekSend hat) rfl
  | sendBack => exact hother (.sendBack hat) rfl
  | setDone => exact hother (.setDone hat) rfl
  | closeSendFailed => exact hclose (.closeSendFailed hat)
  | closeTail => exact hclose (.closeTail hat)
  | closeClient => exact hclose (.closeClient hat)
  | closeRead =>
    cases hfailed : c.readFailed with
    | true => exact hclose (.closeReadFailed hat hfailed)
    | false => exact hclose (.closeRead hat hfailed)
  | lock =>
    have hcall : deviceCall K i g.shared .ok .lock =
        some { g.shared with gWriteMutex := some i } :=
      Option.bind_eq_some_iff.mpr ⟨some i, Mutex.lock_eq_some.mpr ⟨hlock hat, rfl⟩, rfl⟩
    exact .of_call hc (.lock hat) hcall
  | unlock =>
    obtain ⟨s', hcall⟩ := hunlock (.inr (.inl hat))
    exact .of_call hc (.unlock hat) hcall
  | unlockFailed =>
    obtain ⟨s', hcall⟩ := hunlock (.inr (.inr hat))
    exact .of_call hc (.unlockFailed hat) hcall
  | write =>
    obtain ⟨fd, hfd⟩ := Option.isSome_iff_exists.mp (hwrite.resolve_right (by simp [hat]))
    have hwrites : ∀ ret : Int, ∃ c', Conn.Trans C c (.write fd c.packet ret) c' := by
      intro ret
      by_cases hret : ret = c.packet.length
      · subst hret
        exact ⟨_, .write hat hfd⟩
      · exact ⟨_, .writeFailed hat hfd hret⟩
    rcases exists_fileCall hinv fd (.write fd c.packet .ok) with hsocket | ⟨r, d, -, hcall⟩
    · obtain ⟨c', htrans⟩ := hwrites 0
      have hcall : deviceCall K i g.shared .ok (.write fd c.packet 0) = some g.shared :=
        DeviceState.fileCall_eq_some.mpr (.inl ⟨hsocket, rfl⟩)
      exact .of_call hc htrans hcall
    · obtain ⟨c', htrans⟩ := hwrites r.val
      have hcall : deviceCall K i g.shared .ok (.write fd c.packet r.val) =
          some { g.shared with driver := d } := hcall _ (by simp)
      exact .of_call hc htrans hcall
  | ioctl seekto =>
    obtain ⟨fd, hfd⟩ := Option.isSome_iff_exists.mp (hwrite.resolve_right (by simp [hat]))
    have hseeks : ∀ ok : Bool, ∃ c', Conn.Trans C c (.ioctl fd seekto ok) c' := fun ok =>
      match ok with
      | true => ⟨_, .ioctl hat hfd⟩
      | false => ⟨_, .ioctlFailed hat hfd⟩
    rcases exists_fileCall hinv fd (.ioctl fd aesdcharIocseekto seekto true) with
      hsocket | ⟨r, d, -, hcall⟩
    · have hcall : deviceCall K i g.shared .ok (.ioctl fd seekto true) = some g.shared :=
        DeviceState.fileCall_eq_some.mpr (.inl ⟨hsocket, rfl⟩)
      exact .of_call hc (.ioctl hat hfd) hcall
    · obtain ⟨c', htrans⟩ := hseeks (decide (0 ≤ r.val))
      have hcall : deviceCall K i g.shared .ok (.ioctl fd seekto (decide (0 ≤ r.val))) =
          some { g.shared with driver := d } := hcall _ (by simp)
      exact .of_call hc htrans hcall
  | seekRead =>
    obtain ⟨fd, hfd⟩ := Option.isSome_iff_exists.mp (hwrite.resolve_right (by simp [hat]))
    refine .of_read hinv hc ⟨_, .seekReadFailed hat hfd⟩ fun bytes hlen => ?_
    by_cases hbytes : bytes = []
    · subst hbytes
      exact ⟨_, .seekReadEnd hat hfd⟩
    · exact ⟨_, .seekRead hat hfd hbytes hlen⟩
  | readBack =>
    obtain ⟨fd, hfd⟩ := Option.isSome_iff_exists.mp (hread (.inl hat))
    refine .of_read hinv hc ⟨_, .readBackFailed hat hfd⟩ fun bytes hlen => ?_
    by_cases hbytes : bytes = []
    · subst hbytes
      exact ⟨_, .readBackEnd hat hfd⟩
    · exact ⟨_, .readBack hat hfd hbytes hlen⟩
  | returned => exact absurd hat hpc

/-! ### The holder lets go -/

/-- How many calls a holder makes until it lets go. -/
def callsToRelease (c : Conn) : Nat := if c.pc = .write then 2 else 1

/-- A call of the holder lets go, or is the write. -/
theorem holder_step (h : MutexInv g) {c : Conn} (hc : g.locals i = some c)
    (hheld : g.shared.gWriteMutex = some i) {l : DeviceCall}
    (hstep : (lts K C).step g (i, l) = some g') :
    l.call?.isSome ∧ (g'.shared.gWriteMutex = none ∨ callsToRelease c = 2 ∧
      g'.shared.gWriteMutex = some i ∧
      ∃ c', g'.locals i = some c' ∧ c'.InCritical ∧ callsToRelease c' = 1) := by
  obtain ⟨c₀, hc₀, hcritical⟩ := (h i).mp hheld
  obtain rfl := Option.some.inj (hc₀.symm.trans hc)
  obtain ⟨s', t, htrans, rfl⟩ := lts_step hstep
  cases htrans with
  | accept ht _ =>
    rw [hc] at ht
    simp at ht
  | @call call out c' c'' _ hc' htrans hcall =>
    obtain rfl := Option.some.inj (hc'.symm.trans hc)
    refine ⟨rfl, ?_⟩
    have hfree : call = .unlock → s'.gWriteMutex = none := by
      rintro rfl
      obtain ⟨m, hm, hs⟩ := Option.bind_eq_some_iff.mp hcall
      obtain ⟨-, rfl⟩ := Mutex.unlock_eq_some.mp hm
      obtain rfl := Option.some.inj hs
      rfl
    rcases hcritical with hpc | hpc | hpc
    · -- the write: the mutex is still held
      have hwritten : c''.InCritical ∧ c''.pc ≠ .write ∧ call ≠ .lock ∧ call ≠ .unlock := by
        cases htrans <;> simp_all [Conn.InCritical]
      obtain ⟨hcritical, hne, hlock, hunlock⟩ := hwritten
      refine .inr ⟨if_pos hpc, (deviceCall_mutex hlock hunlock hcall).trans hheld, c'', ?_,
        hcritical, if_neg hne⟩
      exact Function.update_self _ _ _
    · refine .inl (hfree ?_)
      cases htrans <;> simp_all
    · refine .inl (hfree ?_)
      cases htrans <;> simp_all

/-- A step of another thread leaves the mutex with its holder. -/
theorem other_step (hheld : g.shared.gWriteMutex = some i) {l : DeviceCall} (hji : j ≠ i)
    (hstep : (lts K C).step g (j, l) = some g') :
    g'.shared.gWriteMutex = some i ∧ g'.locals i = g.locals i := by
  obtain ⟨s', t, htrans, rfl⟩ := lts_step hstep
  refine ⟨?_, Function.update_of_ne (Ne.symm hji) _ _⟩
  cases htrans with
  | accept _ _ => exact hheld
  | @call call out c c' _ _ _ hcall =>
    by_cases hlock : call = .lock
    · subst hlock
      obtain ⟨m, hm, -⟩ := Option.bind_eq_some_iff.mp hcall
      obtain ⟨hfree, -⟩ := Mutex.lock_eq_some.mp hm
      rw [hheld] at hfree
      simp at hfree
    · by_cases hunlock : call = .unlock
      · subst hunlock
        obtain ⟨m, hm, -⟩ := Option.bind_eq_some_iff.mp hcall
        obtain ⟨hheld', -⟩ := Mutex.unlock_eq_some.mp hm
        exact absurd (Option.some.inj (hheld'.symm.trans hheld)) hji
      · exact (deviceCall_mutex hlock hunlock hcall).trans hheld

theorem callsOf_cons (i : Nat) (c : Nat × DeviceCall) (es : List (Nat × DeviceCall)) :
    callsOf i (c :: es) = (if c.1 = i then c.2.call?.toList else []) ++ callsOf i es := by
  obtain ⟨j, l⟩ := c
  by_cases hj : j = i
  · cases hl : l.call? <;> simp [callsOf, Lts.labelsOf, hj, hl]
  · simp [callsOf, Lts.labelsOf, hj]

theorem released_of_run {fs : List (Nat × DeviceCall)} (h : MutexInv g) {c : Conn}
    (hc : g.locals i = some c) (hheld : g.shared.gWriteMutex = some i)
    (hrun : (lts K C).run g fs = some g') (hcalls : callsToRelease c ≤ (callsOf i fs).length) :
    ∃ pre m, pre <+: fs ∧ (lts K C).run g pre = some m ∧ m.shared.gWriteMutex = none := by
  induction fs generalizing g c with
  | nil =>
    have : 1 ≤ callsToRelease c := by unfold callsToRelease; split <;> omega
    simp [callsOf] at hcalls
    omega
  | cons e fs ih =>
    obtain ⟨j, l⟩ := e
    obtain ⟨g₁, hstep, hrun⟩ := Lts.run_cons_eq_some.mp hrun
    -- what the rest of the run does, the whole run does
    have hlater : (∃ pre m, pre <+: fs ∧ (lts K C).run g₁ pre = some m ∧
          m.shared.gWriteMutex = none) →
        ∃ pre m, pre <+: (j, l) :: fs ∧ (lts K C).run g pre = some m ∧
          m.shared.gWriteMutex = none := by
      rintro ⟨pre, m, hpre, hm, hfree⟩
      exact ⟨(j, l) :: pre, m, List.cons_prefix_cons.mpr ⟨rfl, hpre⟩,
        Lts.run_cons_eq_some.mpr ⟨g₁, hstep, hm⟩, hfree⟩
    rw [callsOf_cons] at hcalls
    by_cases hji : j = i
    · subst hji
      obtain ⟨hcall, hfree | ⟨htwo, hheld', c', hc', -, hone⟩⟩ := holder_step h hc hheld hstep
      · exact ⟨[(j, l)], g₁, by simp, Lts.run_cons_eq_some.mpr ⟨g₁, hstep, rfl⟩, hfree⟩
      · obtain ⟨call, hcall⟩ := Option.isSome_iff_exists.mp hcall
        apply hlater
        apply ih (h.step hstep) hc' hheld' hrun
        simp only [if_true, hcall, Option.toList_some, List.length_append,
          List.length_singleton] at hcalls
        omega
    · obtain ⟨hheld', hlocal⟩ := other_step hheld hji hstep
      apply hlater
      apply ih (h.step hstep) (hlocal.trans hc) hheld' hrun
      simpa [hji] using hcalls

/-- In every state of every run, whatever has failed: the mutex is held by the one thread
    between `lock` and `unlock`; a thread that has not returned can go on, or waits for a holder
    that can; and after two calls of the holder the mutex has been free. -/
theorem mutex_correct (hrun : (lts K C).run init es = some g) :
    MutexInv g ∧
    (∀ i c, g.locals i = some c → c.pc ≠ .returned → CanStep K C g i ∨
      c.pc = .lock ∧ ∃ j, g.shared.gWriteMutex = some j ∧ CanStep K C g j) ∧
    ∀ i fs g', g.shared.gWriteMutex = some i → (lts K C).run g fs = some g' →
      2 ≤ (callsOf i fs).length →
      ∃ pre m, pre <+: fs ∧ (lts K C).run g pre = some m ∧ m.shared.gWriteMutex = none := by
  have hinv := mutexInv_of_run hrun
  refine ⟨hinv, fun i c hc hpc => ?_, fun i fs g' hheld hrun' hcalls => ?_⟩
  · cases hmutex : g.shared.gWriteMutex with
    | none => exact .inl (canStep_of_run hrun hc hpc fun _ => hmutex)
    | some j =>
      by_cases hlock : c.pc = .lock
      · -- the holder is not at `lock` itself
        obtain ⟨c', hc', hcritical⟩ := (hinv j).mp hmutex
        have hpc' : c'.pc ≠ .returned ∧ c'.pc ≠ .lock := by
          rcases hcritical with h | h | h <;> simp [h]
        exact .inr ⟨hlock, j, rfl,
          canStep_of_run hrun hc' hpc'.1 fun h => absurd h hpc'.2⟩
      · exact .inl (canStep_of_run hrun hc hpc fun h => absurd h hlock)
  · obtain ⟨c, hc, -⟩ := (hinv i).mp hheld
    apply released_of_run hinv hc hheld hrun'
    have : callsToRelease c ≤ 2 := by unfold callsToRelease; split <;> omega
    omega

/-- One connection has taken the mutex, and another one is before its `lock`. -/
def contended : List (Nat × DeviceCall) :=
  (packetCalls 0 3 [newline]).take 6 ++ (packetCalls 1 5 [newline]).take 5

theorem mutex_correct_contended :
    ∃ g, (lts .page .glibc).run init contended = some g ∧ g.shared.gWriteMutex = some 0 ∧
      (g.locals 1).map Conn.pc = some .lock ∧ MutexInv g ∧
      ∃ j, g.shared.gWriteMutex = some j ∧ CanStep .page .glibc g j := by
  obtain ⟨g, hrun, hheld, hpc⟩ : ∃ g, (lts .page .glibc).run init contended = some g ∧
      g.shared.gWriteMutex = some 0 ∧ (g.locals 1).map Conn.pc = some .lock :=
    ⟨((lts .page .glibc).run init contended).get (by decide), (Option.some_get _).symm, by decide,
      by decide⟩
  obtain ⟨hinv, hprogress, -⟩ := mutex_correct hrun
  obtain ⟨c, hc, hcritical⟩ := (hinv 0).mp hheld
  -- the holder can go on
  have hstep : CanStep .page .glibc g 0 := by
    rcases hprogress 0 c hc (by rcases hcritical with h | h | h <;> simp [h]) with
      hstep | ⟨hlock, -⟩
    · exact hstep
    · rcases hcritical with h | h | h <;> simp [h] at hlock
  exact ⟨g, hrun, hheld, hpc, hinv, 0, hheld, hstep⟩

end DeviceServer

end Aesd
