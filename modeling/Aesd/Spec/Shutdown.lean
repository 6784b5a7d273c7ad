import Aesd.Spec.Registry
import Aesd.Spec.WriteMutex

/-!
# The server gets to its end

The main thread waits only in `accept` and in `pthread_join`, and there for a thread that can go
on itself; and once it has left its accept loop, every call of it brings it nearer to the end of
`main`, whatever the connections do meanwhile (`Server.shutdown_ends`).
-/

namespace Aesd

/-- A call of the main thread. -/
def MainCall.byMain : MainCall → Bool
  | .begin _ | .thread _ _ => false
  | _ => true

/-- The main thread has left its accept loop. -/
def MainPc.shuttingDown : MainPc → Bool
  | .shutdownNext _ | .shutdownJoin _ _ | .shutdownClose _ _ | .shutdownRemove _ _
  | .shutdownFree _ _ | .cleanup | .returned => true
  | _ => false

/-- The thread that the main thread is to join. -/
def MainPc.joins? : MainPc → Option Nat
  | .sweepJoin n _ | .shutdownJoin n _ => some n
  | _ => none

/-- A call that accepts nobody and creates no thread, and that finds the exit flag set. -/
def MainCall.Ends : MainCall → Bool
  | .exitFlag set | .thread _ (.exitFlag set) => set
  | .accept fd => fd.isNone
  | .create _ threadId => threadId.isNone
  | _ => true

/-- A connection that has not returned has a call that it can make, that opens nothing and that
    finds the exit flag set. -/
theorem Conn.exists_trans {C : Libc} {c : Conn} {myClient : Nat} {calls : List Call}
    (hrun : (Conn.lts C).run (.start myClient) calls = some c) (hpc : c.pc ≠ .returned) :
    ∃ call c', Conn.Trans C c call c' ∧ call ≠ .exitFlag false ∧
      ∀ fd, call ≠ .openWrite (some fd) ∧ call ≠ .openRead (some fd) := by
  have hwrite := Conn.hasFile_of_run hrun
  have hread := Conn.myFileRead_of_run hrun
  cases hat : c.pc with
  | openWrite => exact ⟨_, _, .openWriteFailed hat, by simp⟩
  | loopTop => exact ⟨_, _, .exit hat, by simp⟩
  | malloc => exact ⟨_, _, .mallocFailed hat, by simp⟩
  | recv => exact ⟨.recv none [], _, .recvEnd hat, by simp⟩
  | realloc => exact ⟨_, _, .reallocFailed hat, by simp⟩
  | ioctl seekto =>
    obtain ⟨fd, hfd⟩ := Option.isSome_iff_exists.mp (hwrite.resolve_right (by simp [hat]))
    exact ⟨_, _, .ioctlFailed hat hfd, by simp⟩
  | seekRead =>
    obtain ⟨fd, hfd⟩ := Option.isSome_iff_exists.mp (hwrite.resolve_right (by simp [hat]))
    exact ⟨_, _, .seekReadFailed hat hfd, by simp⟩
  | seekSend => exact ⟨_, _, .seekSend hat, by simp⟩
  | lock => exact ⟨_, _, .lock hat, by simp⟩
  | write =>
    obtain ⟨fd, hfd⟩ := Option.isSome_iff_exists.mp (hwrite.resolve_right (by simp [hat]))
    exact ⟨_, _, .write hat hfd, by simp⟩
  | unlockFailed => exact ⟨_, _, .unlockFailed hat, by simp⟩
  | unlock => exact ⟨_, _, .unlock hat, by simp⟩
  | openRead => exact ⟨_, _, .openReadFailed hat, by simp⟩
  | readBack =>
    obtain ⟨fd, hfd⟩ := Option.isSome_iff_exists.mp (hread (.inl hat))
    exact ⟨_, _, .readBackFailed hat hfd, by simp⟩
  | sendBack => exact ⟨_, _, .sendBack hat, by simp⟩
  | closeSendFailed => exact ⟨_, _, .closeSendFailed hat, by simp⟩
  | closeRead =>
    cases hfailed : c.readFailed with
    | true => exact ⟨_, _, .closeReadFailed hat hfailed, by simp⟩
    | false => exact ⟨_, _, .closeRead hat hfailed, by simp⟩
  | closeTail => exact ⟨_, _, .closeTail hat, by simp⟩
  | setDone => exact ⟨_, _, .setDone hat, by simp⟩
  | closeClient => exact ⟨_, _, .closeClient hat, by simp⟩
  | returned => exact absurd hat hpc

namespace Server

variable {C : Libc} {s s' : Server} {call : MainCall} {n : Nat} {es fs : List MainCall}

/-! ### What the threads have -/

/-- Threads are runs of a connection, and an entry lacks its client only until `accept`. -/
structure ThreadsInv (C : Libc) (s : Server) : Prop where
  conn : ∀ n c, s.threads n = .running c →
    ∃ myClient calls, (Conn.lts C).run (.start myClient) calls = some c
  client : ∀ n e, s.entries n = some e → e.myClient = none →
    s.pc = .accept n ∨ s.pc = .freeUnaccepted n

/-- A step that changes no thread but one, which it starts or lets go on or ends. -/
theorem ThreadsInv.conn_of_update (h : s.ThreadsInv C) {t : ThreadState}
    (hthreads : s'.threads = Function.update s.threads n t)
    (ht : ∀ c, t = .running c →
      ∃ myClient calls, (Conn.lts C).run (.start myClient) calls = some c) :
    ∀ m c, s'.threads m = .running c →
      ∃ myClient calls, (Conn.lts C).run (.start myClient) calls = some c := by
  intro m c hm
  rw [hthreads] at hm
  by_cases hmn : m = n
  · subst hmn
    rw [Function.update_self] at hm
    exact ht c hm
  · rw [Function.update_of_ne hmn] at hm
    exact h.conn m c hm

/-- A step out of an accepted state that leaves the clients of entries as they are. -/
theorem ThreadsInv.client_of_same (h : s.ThreadsInv C)
    (hpc : ∀ n, s.pc ≠ .accept n ∧ s.pc ≠ .freeUnaccepted n)
    (hentries : ∀ n e, s'.entries n = some e → ∃ e', s.entries n = some e' ∧
      e'.myClient = e.myClient) :
    ∀ n e, s'.entries n = some e → e.myClient = none →
      s'.pc = .accept n ∨ s'.pc = .freeUnaccepted n := by
  intro n e he hclient
  obtain ⟨e', he', hsame⟩ := hentries n e he
  rcases h.client n e' he' (hsame.trans hclient) with hat | hat
  · exact absurd hat (hpc n).1
  · exact absurd hat (hpc n).2

/-- What a thread's call does to the entries. -/
theorem threadEffect_entries {call : Call} (h : threadEffect s n call = some s') :
    ∀ m e, s'.entries m = some e → ∃ e', s.entries m = some e' ∧ e'.myClient = e.myClient := by
  unfold threadEffect at h
  split at h
  case h_3 =>
    obtain rfl := Option.some.inj h
    intro m e he
    by_cases hm : m = n
    · subst hm
      simp only [setEntry, Function.update_self, Option.map_eq_some_iff] at he
      obtain ⟨e', he', rfl⟩ := he
      exact ⟨e', he', rfl⟩
    · simp only [setEntry, Function.update_of_ne hm] at he
      exact ⟨e, he, rfl⟩
  case h_1 | h_2 =>
    obtain ⟨-, h⟩ := Option.ite_none_right_eq_some.mp h
    obtain rfl := Option.some.inj h
    exact fun m e he => ⟨e, he, rfl⟩
  case h_4 | h_5 =>
    obtain rfl := Option.some.inj h
    exact fun m e he => ⟨e, he, rfl⟩

theorem ThreadsInv.step (h : s.ThreadsInv C) (htrans : Trans C s call s') : s'.ThreadsInv C := by
  -- the entries but for one that is freed
  have hfreed : ∀ n m e, Function.update s.entries n none m = some e →
      m ≠ n ∧ s.entries m = some e := by
    intro n m e he
    by_cases hm : m = n
    · subst hm
      simp at he
    · rw [Function.update_of_ne hm] at he
      exact ⟨hm, he⟩
  cases htrans with
  | exit hpc | loop hpc | mallocFailed hpc | insert hpc | removeUncreated hpc | sweepNext hpc
  | sweepRemove hpc | shutdownRemove hpc | cleanup hpc =>
    exact ⟨h.conn, h.client_of_same (by simp [hpc]) fun n e he => ⟨e, he, rfl⟩⟩
  | sweepTest hpc _ | shutdownNext hpc _ | shutdownClose hpc _ =>
    exact ⟨h.conn, h.client_of_same (by simp [hpc]) fun n e he => ⟨e, he, rfl⟩⟩
  | freeUncreated hpc | sweepFree hpc | shutdownFree hpc =>
    exact ⟨h.conn, h.client_of_same (by simp [hpc]) fun m e he => ⟨e, (hfreed _ m e he).2, rfl⟩⟩
  | malloc hpc =>
    refine ⟨h.conn, fun m e he hclient => ?_⟩
    by_cases hm : m = s.entryCount
    · exact .inl (by rw [hm])
    · simp only [setEntry, Function.update_of_ne hm] at he
      rcases h.client m e he hclient with hat | hat <;> simp [hpc] at hat
  | acceptFailed hpc =>
    refine ⟨h.conn, fun m e he hclient => .inr ?_⟩
    rcases h.client m e he hclient with hat | hat <;> simp [hpc] at hat
    rw [hat]
  | freeUnaccepted hpc =>
    refine ⟨h.conn, fun m e he hclient => ?_⟩
    obtain ⟨hm, he⟩ := hfreed _ m e he
    rcases h.client m e he hclient with hat | hat <;> simp [hpc] at hat
    exact absurd hat.symm hm
  | @accept n fd hpc _ =>
    refine ⟨h.conn, fun m e he hclient => ?_⟩
    by_cases hm : m = n
    · subst hm
      simp only [setEntry, Function.update_self, Option.map_eq_some_iff] at he
      obtain ⟨e', -, rfl⟩ := he
      simp at hclient
    · simp only [setEntry, Function.update_of_ne hm] at he
      rcases h.client m e he hclient with hat | hat <;> simp [hpc] at hat
      exact absurd hat.symm hm
  | createFailed hpc =>
    exact ⟨h.conn_of_update rfl (by simp),
      h.client_of_same (by simp [hpc]) fun n e he => ⟨e, he, rfl⟩⟩
  | @create n threadId hpc _ =>
    refine ⟨h.conn_of_update rfl (by simp), h.client_of_same (by simp [hpc]) fun m e he => ?_⟩
    by_cases hm : m = n
    · subst hm
      simp only [setEntry, Function.update_self, Option.map_eq_some_iff] at he
      obtain ⟨e', he', rfl⟩ := he
      exact ⟨e', he', rfl⟩
    · simp only [setEntry, Function.update_of_ne hm] at he
      exact ⟨e, he, rfl⟩
  | sweepJoin hpc _ | shutdownJoin hpc _ _ =>
    exact ⟨h.conn_of_update rfl (by simp),
      h.client_of_same (by simp [hpc]) fun n e he => ⟨e, he, rfl⟩⟩
  | @begin n fd _ _ =>
    refine ⟨h.conn_of_update rfl ?_, h.client⟩
    intro c hc
    obtain rfl := ThreadState.running.inj hc
    exact ⟨fd, [], rfl⟩
  | @thread n call c c' s₁ hthread hconn heffect =>
    obtain ⟨hpc, -, -, hthreads, -⟩ := threadEffect_registry heffect
    refine ⟨h.conn_of_update (n := n) (t := .running c') ?_ ?_, ?_⟩
    · rw [threads_setThread, hthreads]
    · intro c'' hc''
      obtain rfl := ThreadState.running.inj hc''
      obtain ⟨myClient, calls, hrun⟩ := h.conn n c hthread
      exact ⟨myClient, calls ++ [call],
        Lts.run_concat_eq_some.mpr ⟨c, hrun, Conn.step_of_trans hconn⟩⟩
    · intro m e he hclient
      obtain ⟨e', he', hsame⟩ := threadEffect_entries heffect m e he
      have hat := h.client m e' he' (hsame.trans hclient)
      rw [← hpc] at hat
      exact hat

theorem threadsInv_of_run (hrun : (lts C).run init es = some s) : s.ThreadsInv C :=
  Lts.run_invariant (I := ThreadsInv C) ⟨by simp [init], by simp [init]⟩
    (fun _ _ _ h hstep => h.step (trans_of_step hstep)) hrun

/-! ### Nobody waits for nothing -/

/-- A thread that is created and has not ended can go on. -/
theorem exists_thread_step (hreg : s.RegInv) (hinv : s.ThreadsInv C)
    (hpc : ∀ n, s.pc ≠ .accept n ∧ s.pc ≠ .freeUnaccepted n)
    (hactive : (s.threads n).active = true) (hend : Ended (s.threads n) = false) :
    ∃ call s', call.byMain = false ∧ call.entry? = some n ∧ call.Ends = true ∧
      (lts C).step s call = some s' := by
  cases hthread : s.threads n with
  | none | failed | joined =>
    rw [hthread] at hactive
    simp [ThreadState.active] at hactive
  | created =>
    obtain ⟨e, he⟩ := Option.isSome_iff_exists.mp ((hreg.live n).mpr (.inl hactive))
    have hclient : e.myClient ≠ none := by
      intro hnone
      rcases hinv.client n e he hnone with hat | hat
      · exact absurd hat (hpc n).1
      · exact absurd hat (hpc n).2
    obtain ⟨fd, hfd⟩ := Option.ne_none_iff_exists'.mp hclient
    refine ⟨.begin n, s.setThread n (.running (.start fd)), rfl, rfl, rfl, ?_⟩
    show step C s (.begin n) = _
    simp only [step, hthread, he, Option.bind_some, hfd]
  | running c =>
    obtain ⟨myClient, calls, hrun⟩ := hinv.conn n c hthread
    have hreturned : c.pc ≠ .returned := by
      rw [hthread] at hend
      simpa [Ended] using hend
    obtain ⟨call, c', htrans, hflag, hopens⟩ := Conn.exists_trans hrun hreturned
    have hends : (MainCall.thread n call).Ends = true := by
      cases call with
      | exitFlag set => simpa [MainCall.Ends] using hflag
      | _ => rfl
    obtain ⟨s₁, heffect⟩ : ∃ s₁, threadEffect s n call = some s₁ := by
      unfold threadEffect
      split
      · next fd => exact absurd rfl (hopens fd).1
      · next fd => exact absurd rfl (hopens fd).2
      · exact ⟨_, rfl⟩
      · exact ⟨_, rfl⟩
      · exact ⟨_, rfl⟩
    refine ⟨.thread n call, s₁.setThread n (.running c'), rfl, rfl, hends, ?_⟩
    show step C s (.thread n call) = _
    simp only [step, hthread, Conn.step_of_trans htrans, heffect, Option.bind_eq_bind,
      Option.bind_some]

theorem active_of_joins (hreg : s.RegInv) (hjoin : s.pc.joins? = some n) :
    (s.threads n).active = true := by
  have hknows := hreg.knows
  cases hat : s.pc <;> rw [hat] at hjoin hknows <;>
    simp only [MainPc.joins?, Option.some.injEq, reduceCtorEq] at hjoin <;>
    exact hjoin ▸ hknows.1

/-- So can a thread that the main thread is to join. -/
theorem exists_joined_step (hreg : s.RegInv) (hinv : s.ThreadsInv C) (hjoin : s.pc.joins? = some n)
    (hend : Ended (s.threads n) = false) :
    ∃ call s', call.byMain = false ∧ call.entry? = some n ∧ call.Ends = true ∧
      (lts C).step s call = some s' := by
  have haccept : ∀ m, s.pc ≠ .accept m ∧ s.pc ≠ .freeUnaccepted m := by
    intro m
    constructor <;> intro hat <;> simp [hat, MainPc.joins?] at hjoin
  exact exists_thread_step hreg hinv haccept (active_of_joins hreg hjoin) hend

/-- The main thread can go on, except from `pthread_join` before the thread has ended. -/
theorem exists_main_step (hreg : s.RegInv) (hinv : s.ThreadsInv C) (hpc : s.pc ≠ .returned)
    (hjoin : ∀ n, s.pc.joins? = some n → Ended (s.threads n) = true) :
    ∃ call s', call.byMain = true ∧ call.Ends = true ∧ (lts C).step s call = some s' := by
  have hlive : ∀ n, (s.threads n).active = true ∨ s.pc.inHand? = some n →
      ∃ e, s.entries n = some e :=
    fun n h => Option.isSome_iff_exists.mp ((hreg.live n).mpr h)
  have hknows := hreg.knows
  have hstep : ∀ call, call.byMain = true ∧ call.Ends = true → (step C s call).isSome →
      ∃ call s', call.byMain = true ∧ call.Ends = true ∧ (lts C).step s call = some s' := by
    intro call hmain h
    obtain ⟨s', hs'⟩ := Option.isSome_iff_exists.mp h
    exact ⟨call, s', hmain.1, hmain.2, hs'⟩
  cases hat : s.pc with
  | loopTop => exact hstep (.exitFlag true) ⟨rfl, rfl⟩ (by simp [step, mainStep, hat])
  | malloc => exact hstep (.malloc none) ⟨rfl, rfl⟩ (by simp [step, mainStep, hat])
  | accept n => exact hstep (.accept none) ⟨rfl, rfl⟩ (by simp [step, mainStep, hat])
  | freeUnaccepted n => exact hstep (.free n) ⟨rfl, rfl⟩ (by simp [step, mainStep, hat])
  | insert n => exact hstep (.insert n) ⟨rfl, rfl⟩ (by simp [step, mainStep, hat])
  | create n => exact hstep (.create n none) ⟨rfl, rfl⟩ (by simp [step, mainStep, hat])
  | removeUncreated n => exact hstep (.remove n) ⟨rfl, rfl⟩ (by simp [step, mainStep, hat])
  | freeUncreated n => exact hstep (.free n) ⟨rfl, rfl⟩ (by simp [step, mainStep, hat])
  | sweepNext n => exact hstep (.next n) ⟨rfl, rfl⟩ (by simp [step, mainStep, hat])
  | sweepTest n temp =>
    rw [hat] at hknows
    obtain ⟨e, he⟩ := hlive n (.inl hknows.1)
    exact hstep (.isDone n e.isDone) ⟨rfl, rfl⟩ (by simp [step, mainStep, hat, he])
  | sweepJoin n temp =>
    have hended := hjoin n (by rw [hat]; rfl)
    exact hstep (.join n) ⟨rfl, rfl⟩ (by simp [step, mainStep, hat, hended])
  | sweepRemove n temp => exact hstep (.remove n) ⟨rfl, rfl⟩ (by simp [step, mainStep, hat])
  | sweepFree n temp => exact hstep (.free n) ⟨rfl, rfl⟩ (by simp [step, mainStep, hat])
  | shutdownNext n =>
    rw [hat] at hknows
    obtain ⟨e, he⟩ := hlive n (.inl hknows.2)
    exact hstep (.next n) ⟨rfl, rfl⟩ (by simp [step, mainStep, hat, he])
  | shutdownJoin n temp =>
    have hended := hjoin n (by rw [hat]; rfl)
    rw [hat] at hknows
    obtain ⟨e, he⟩ := hlive n (.inl hknows.1)
    exact hstep (.join n) ⟨rfl, rfl⟩ (by simp [step, mainStep, hat, hended, he])
  | shutdownClose n temp =>
    obtain ⟨e, he⟩ := hlive n (.inr (by rw [hat]; rfl))
    have hclient : e.myClient ≠ none := by
      intro hnone
      rcases hinv.client n e he hnone with h | h <;> simp [hat] at h
    obtain ⟨fd, hfd⟩ := Option.ne_none_iff_exists'.mp hclient
    exact hstep (.close n fd) ⟨rfl, rfl⟩ (by simp [step, mainStep, hat, he, hfd])
  | shutdownRemove n temp => exact hstep (.remove n) ⟨rfl, rfl⟩ (by simp [step, mainStep, hat])
  | shutdownFree n temp => exact hstep (.free n) ⟨rfl, rfl⟩ (by simp [step, mainStep, hat])
  | cleanup => exact hstep .cleanup ⟨rfl, rfl⟩ (by simp [step, mainStep, hat])
  | returned => exact absurd hat hpc

/-! ### The end comes nearer -/

/-- How many calls the main thread still makes once it has left its accept loop: five for each
    entry of the list, and `cleanup`. -/
def callsToReturn (s : Server) : Nat :=
  match s.pc with
  | .shutdownNext _ => 5 * s.head.length + 1
  | .shutdownJoin _ _ => 5 * s.head.length
  | .shutdownClose _ _ => 5 * s.head.length - 1
  | .shutdownRemove _ _ => 5 * s.head.length - 2
  | .shutdownFree _ _ => 5 * s.head.length + 2
  | .cleanup => 1
  | _ => 0

theorem callsToReturn_le (s : Server) : callsToReturn s ≤ 5 * s.head.length + 2 := by
  unfold callsToReturn
  split <;> omega

/-- A step of a connection does not concern the main thread, and one of the main thread leaves
    less to be done. -/
theorem callsToReturn_step (hreg : s.RegInv) (hpc : s.pc.shuttingDown = true)
    (htrans : Trans C s call s') :
    s'.pc.shuttingDown = true ∧
      (if call.byMain then callsToReturn s' < callsToReturn s else callsToReturn s' = callsToReturn s) := by
  have hknows := hreg.knows
  -- an entry at the head of the list is taken out
  have herase : ∀ n rest, s.head = n :: rest → (s.head.erase n).length + 1 = s.head.length := by
    intro n rest hhead
    rw [hhead, List.erase_cons_head, List.length_cons]
  cases htrans with
  | begin _ _ => exact ⟨hpc, rfl⟩
  | thread _ _ heffect =>
    obtain ⟨hsame, hhead, -⟩ := threadEffect_registry heffect
    refine ⟨?_, ?_⟩
    · show (_ : Server).pc.shuttingDown = true
      rw [show ∀ (s : Server) n t, (s.setThread n t).pc = s.pc from fun _ _ _ => rfl, hsame]
      exact hpc
    · show callsToReturn (_ : Server) = callsToReturn s
      simp only [callsToReturn, setThread, hsame, hhead]
  | @shutdownNext n e hat _ =>
    simp only [callsToReturn, hat, MainCall.byMain, if_true]
    unfold joinFrom closeFrom
    split
    · exact ⟨rfl, by show 5 * s.head.length < _; omega⟩
    · split
      · exact ⟨rfl, by show 5 * s.head.length - 1 < _; omega⟩
      · exact ⟨rfl, by show 5 * s.head.length - 2 < _; omega⟩
  | @shutdownJoin n temp e hat _ _ =>
    rw [hat] at hknows
    obtain ⟨-, rest, hhead, -⟩ := hknows
    have := herase n rest hhead
    simp only [callsToReturn, hat, MainCall.byMain, if_true]
    unfold closeFrom
    split
    · exact ⟨rfl, by show 5 * s.head.length - 1 < _; omega⟩
    · exact ⟨rfl, by show 5 * s.head.length - 2 < _; omega⟩
  | @shutdownClose n fd temp hat _ =>
    rw [hat] at hknows
    obtain ⟨-, rest, hhead, -⟩ := hknows
    have := herase n rest hhead
    simp only [callsToReturn, hat, MainCall.byMain, if_true]
    exact ⟨rfl, by show 5 * s.head.length - 2 < _; omega⟩
  | @shutdownRemove n temp hat =>
    rw [hat] at hknows
    obtain ⟨-, rest, hhead, -⟩ := hknows
    have := herase n rest hhead
    simp only [callsToReturn, hat, MainCall.byMain, if_true]
    exact ⟨rfl, by show 5 * (s.head.erase n).length + 2 < _; omega⟩
  | @shutdownFree n temp hat =>
    rw [hat] at hknows
    simp only [callsToReturn, hat, MainCall.byMain, if_true]
    rw [hknows.2]
    cases hhead : s.head with
    | nil => exact ⟨rfl, by show 1 < _; omega⟩
    | cons m rest => exact ⟨rfl, by show 5 * s.head.length + 1 < _; rw [hhead]; omega⟩
  | cleanup hat =>
    simp only [callsToReturn, hat, MainCall.byMain, if_true]
    exact ⟨rfl, by show 0 < _; omega⟩
  | _ hat => simp_all [MainPc.shuttingDown]

/-- Of the calls in a run after the accept loop, those of the main thread are no more than were
    to be done. -/
theorem countP_byMain_le (hrun : (lts C).run init es = some s) (hpc : s.pc.shuttingDown = true)
    (hrun' : (lts C).run s fs = some s') :
    s'.pc.shuttingDown = true ∧ fs.countP MainCall.byMain + callsToReturn s' ≤ callsToReturn s := by
  refine Lts.run_induction (P := fun fs s' => s'.pc.shuttingDown = true ∧
    fs.countP MainCall.byMain + callsToReturn s' ≤ callsToReturn s) ⟨hpc, by simp⟩
    (fun fs m call s' hm ih hstep => ?_) hrun'
  obtain ⟨hdown, hcount⟩ := ih
  have hreg := regInv_of_run (Lts.run_append_eq_some.mpr ⟨s, hrun, hm⟩)
  obtain ⟨hdown', hless⟩ := callsToReturn_step hreg hdown (trans_of_step hstep)
  refine ⟨hdown', ?_⟩
  rw [List.countP_append, List.countP_singleton]
  split at hless
  · next hmain =>
    rw [if_pos hmain]
    omega
  · next hmain =>
    rw [if_neg hmain]
    omega

/-- The threads of the list have ended, but for one that is joined already. -/
def AllEnded (s : Server) : Prop :=
  ∀ n ∈ s.head, s.pc.listed? ≠ some n → Ended (s.threads n) = true

theorem AllEnded.step (h : s.AllEnded) (hreg : s.RegInv) (hpc : s.pc.shuttingDown = true)
    (hmain : call.byMain = true) (htrans : Trans C s call s') : s'.AllEnded := by
  intro m hm hlisted
  cases htrans with
  | begin _ _ => simp [MainCall.byMain] at hmain
  | thread _ _ _ => simp [MainCall.byMain] at hmain
  | shutdownNext hat _ => exact h m hm (by simp [hat, MainPc.listed?])
  | @shutdownJoin n temp e hat _ _ =>
    -- the entry of the joined thread is listed now
    have hmn : m ≠ n := by
      rintro rfl
      apply hlisted
      show (closeFrom e m temp).listed? = some m
      unfold closeFrom
      split <;> rfl
    show Ended (Function.update s.threads n .joined m) = true
    rw [Function.update_of_ne hmn]
    exact h m hm (by simp [hat, MainPc.listed?])
  | @shutdownClose n fd temp hat _ => exact h m hm (by rw [hat]; exact hlisted)
  | @shutdownRemove n temp hat =>
    have hmem : m ≠ n ∧ m ∈ s.head := hreg.nodup.mem_erase_iff.mp hm
    exact h m hmem.2 (by simp [hat, MainPc.listed?, Ne.symm hmem.1])
  | shutdownFree hat => exact h m hm (by simp [hat, MainPc.listed?])
  | cleanup hat => exact h m hm (by simp [hat, MainPc.listed?])
  | _ hat => simp_all [MainPc.shuttingDown]

/-- Once the threads have ended, the main thread gets to its end by itself. -/
theorem exists_return (hrun : (lts C).run init es = some s) (hpc : s.pc.shuttingDown = true)
    (hended : s.AllEnded) :
    ∃ fs s', (∀ call ∈ fs, call.byMain = true) ∧ (lts C).run s fs = some s' ∧
      s'.pc = .returned := by
  -- by induction on the calls that are still to be made
  obtain ⟨k, hk⟩ : ∃ k, k = callsToReturn s := ⟨_, rfl⟩
  induction k using Nat.strong_induction_on generalizing s es with
  | _ k ih =>
    by_cases hreturned : s.pc = .returned
    · exact ⟨[], s, by simp, rfl, hreturned⟩
    have hreg := regInv_of_run hrun
    have hjoin : ∀ n, s.pc.joins? = some n → Ended (s.threads n) = true := by
      intro n hn
      have hknows := hreg.knows
      cases hat : s.pc <;> rw [hat] at hpc hn hknows <;>
        simp only [MainPc.joins?, MainPc.shuttingDown, Option.some.injEq, reduceCtorEq,
          Bool.false_eq_true] at hpc hn
      obtain ⟨-, rest, hhead, -⟩ := hknows
      subst hn
      exact hended _ (by rw [hhead]; exact List.mem_cons_self) (by simp [hat, MainPc.listed?])
    obtain ⟨call, s₁, hmain, -, hstep⟩ :=
      exists_main_step hreg (threadsInv_of_run hrun) hreturned hjoin
    have htrans := trans_of_step hstep
    obtain ⟨hdown, hless⟩ := callsToReturn_step hreg hpc htrans
    rw [if_pos hmain] at hless
    obtain ⟨fs, s', hall, hrun', hend⟩ := ih (callsToReturn s₁) (hk ▸ hless)
      (Lts.run_concat_eq_some.mpr ⟨s, hrun, hstep⟩) hdown (hended.step hreg hpc hmain htrans) rfl
    refine ⟨call :: fs, s', ?_, Lts.run_cons_eq_some.mpr ⟨s₁, hstep, hrun'⟩, hend⟩
    intro c hc
    rcases List.mem_cons.mp hc with rfl | hc
    · exact hmain
    · exact hall c hc

end Server

end Aesd
