import Aesd.Native.Signals
import Aesd.Spec.Shutdown

/-!
# A signal ends the server

A signal may come at any moment: while the main thread tests `g_exit_flag`, between that test
and `accept`, or within `accept`. `SignalServer.signal_ends`: once a handler has run, no
connection is accepted any more, the main thread makes a bounded number of calls, it never waits
but for a thread of its list, and when these have ended it returns.
-/

namespace Aesd

/-- A call of the main thread. -/
def SignalCall.byMain : SignalCall → Bool
  | .server call => call.byMain
  | _ => false

namespace Server

variable {C : Libc} {s s' : Server} {call : MainCall} {n : Nat}

/-! ### What the main thread has still to do -/

/-- How many entries of the list a sweep that goes on with `temp` still comes to. -/
def behind (head : List Nat) : Option Nat → Nat
  | none => 0
  | some t => (head.dropWhile (· ≠ t)).length

theorem behind_le (head : List Nat) (temp : Option Nat) : behind head temp ≤ head.length := by
  cases temp with
  | none => exact Nat.zero_le _
  | some t => exact (List.dropWhile_suffix _).length_le

theorem behind_head? (head : List Nat) : behind head head.head? = head.length := by
  cases head with
  | nil => rfl
  | cons n rest => simp [behind]

/-- The entry behind `n` leaves one less. -/
theorem behind_slistNext {head : List Nat} (hnodup : head.Nodup) (hmem : n ∈ head) :
    behind head (slistNext head n) + 1 ≤ behind head (some n) := by
  induction head with
  | nil => simp at hmem
  | cons m rest ih =>
    obtain ⟨hm, hrest⟩ := List.nodup_cons.mp hnodup
    by_cases hmn : m = n
    · subst hmn
      rw [slistNext_cons_self]
      cases rest with
      | nil => simp [behind]
      | cons t rest =>
        have ht : m ≠ t := fun h => hm (h ▸ List.mem_cons_self)
        simp [behind, ht]
    · have hmem : n ∈ rest := by simpa [Ne.symm hmn] using hmem
      have hnext : slistNext (m :: rest) n = slistNext rest n := by simp [slistNext, hmn]
      have hsame : behind (m :: rest) (some n) = behind rest (some n) := by simp [behind, hmn]
      have hnext' : behind (m :: rest) (slistNext rest n) = behind rest (slistNext rest n) := by
        cases ht : slistNext rest n with
        | none => rfl
        | some t =>
          have hmt : m ≠ t := fun h => hm (h ▸ (slistNext_eq_some hrest ht).2)
          simp [behind, hmt]
      rw [hnext, hsame, hnext']
      exact ih hrest hmem

/-- An entry less in the list is none more to come to. -/
theorem behind_erase_le (head : List Nat) (n : Nat) (temp : Option Nat) :
    behind (head.erase n) temp ≤ behind head temp := by
  cases temp with
  | none => exact le_rfl
  | some t =>
    induction head with
    | nil => simp [behind]
    | cons m rest ih =>
      by_cases hmn : m = n
      · subst hmn
        rw [List.erase_cons_head]
        by_cases hmt : m = t
        · have hle := behind_le rest (some t)
          have hall : behind (m :: rest) (some t) = rest.length + 1 := by simp [behind, hmt]
          omega
        · have hsame : behind (m :: rest) (some t) = behind rest (some t) := by
            simp [behind, hmt]
          omega
      · rw [List.erase_cons_tail (by simpa using hmn)]
        by_cases hmt : m = t
        · have hle : (rest.erase n).length ≤ rest.length := List.length_erase_le
          simp only [behind, hmt, List.dropWhile_cons, ne_eq, not_true_eq_false, decide_false,
            Bool.false_eq_true, if_false, List.length_cons]
          omega
        · simpa [behind, hmt] using ih

/-- How many calls the main thread makes at most once the exit flag is set and the socket is
    shut down: five for each entry that the sweep still comes to, and then as many for each that
    is left in the list. -/
def callsLeft (s : Server) : Nat :=
  match s.pc with
  | .loopTop | .freeUnaccepted _ => 5 * s.head.length + 2
  | .accept _ | .freeUncreated _ => 5 * s.head.length + 3
  | .malloc | .removeUncreated _ => 5 * s.head.length + 4
  | .insert _ => 10 * s.head.length + 16
  | .create _ => 10 * s.head.length + 5
  | .sweepNext n => 5 * behind s.head (some n) + 5 * s.head.length + 2
  | .sweepTest _ temp => 5 * behind s.head temp + 5 * s.head.length + 6
  | .sweepJoin _ temp => 5 * behind s.head temp + 5 * s.head.length + 5
  | .sweepRemove _ temp => 5 * behind s.head temp + 5 * s.head.length + 4
  | .sweepFree _ temp => 5 * behind s.head temp + 5 * s.head.length + 3
  | _ => callsToReturn s

theorem callsLeft_le (s : Server) : callsLeft s ≤ 10 * s.head.length + 16 := by
  have hreturn := callsToReturn_le s
  have hbehind := behind_le s.head
  unfold callsLeft
  split <;> try omega
  · next n _ => have := hbehind (some n); omega
  all_goals next temp _ => have := hbehind temp; omega

theorem callsLeft_shutdownFrom (hpc : s.pc = shutdownFrom s.head.head?) :
    callsLeft s < 5 * s.head.length + 2 := by
  cases hhead : s.head with
  | nil =>
    rw [hhead] at hpc
    have hat : s.pc = .cleanup := hpc
    simp [callsLeft, callsToReturn, hat]
  | cons n rest =>
    rw [hhead] at hpc
    have hat : s.pc = .shutdownNext n := hpc
    simp only [callsLeft, callsToReturn, hat, hhead]
    omega

theorem callsLeft_sweepFrom {temp : Option Nat} (hpc : s.pc = sweepFrom temp) :
    callsLeft s = 5 * behind s.head temp + 5 * s.head.length + 2 := by
  cases temp with
  | none =>
    have hat : s.pc = .loopTop := hpc
    simp [callsLeft, hat, behind]
  | some t =>
    have hat : s.pc = .sweepNext t := hpc
    simp [callsLeft, hat]

theorem callsLeft_of_shuttingDown (hpc : s.pc.shuttingDown = true) :
    callsLeft s = callsToReturn s := by
  unfold callsLeft
  split <;> simp_all [MainPc.shuttingDown]

/-- Where nobody is accepted and the exit flag is found set, every call of the main thread leaves
    less to be done, and the connections do not concern it. -/
theorem callsLeft_step (hreg : s.RegInv) (htrans : Trans C s call s')
    (haccept : ∀ fd, call ≠ .accept (some fd)) (hflag : call ≠ .exitFlag false) :
    if call.byMain then callsLeft s' < callsLeft s else callsLeft s' = callsLeft s := by
  by_cases hdown : s.pc.shuttingDown = true
  · obtain ⟨hdown', hcalls⟩ := callsToReturn_step hreg hdown htrans
    rw [callsLeft_of_shuttingDown hdown, callsLeft_of_shuttingDown hdown']
    exact hcalls
  cases htrans with
  | begin _ _ => rfl
  | thread _ _ heffect =>
    obtain ⟨hpc, hhead, -⟩ := threadEffect_registry heffect
    show callsLeft (_ : Server) = callsLeft s
    simp only [callsLeft, callsToReturn, setThread, hpc, hhead]
  | exit hat =>
    have hleft : callsLeft s = 5 * s.head.length + 2 := by simp only [callsLeft, hat]
    show callsLeft _ < callsLeft s
    rw [hleft]
    apply callsLeft_shutdownFrom
    rfl
  | loop _ => exact absurd rfl hflag
  | mallocFailed hat =>
    have hleft : callsLeft s = 5 * s.head.length + 4 := by simp only [callsLeft, hat]
    have hlt : callsLeft { s with pc := shutdownFrom s.head.head? } < 5 * s.head.length + 2 :=
      callsLeft_shutdownFrom rfl
    show callsLeft _ < callsLeft s
    omega
  | malloc hat => simp [callsLeft, hat, MainCall.byMain]
  | acceptFailed hat => simp [callsLeft, hat, MainCall.byMain]
  | @freeUnaccepted n hat =>
    have hleft : callsLeft s = 5 * s.head.length + 2 := by simp only [callsLeft, hat]
    show callsLeft _ < callsLeft s
    rw [hleft]
    apply callsLeft_shutdownFrom
    rfl
  | accept _ _ => exact absurd rfl (haccept _)
  | insert hat =>
    simp only [callsLeft, hat, MainCall.byMain, if_true, List.length_cons]
    omega
  | createFailed hat =>
    simp only [callsLeft, hat, MainCall.byMain, if_true, head_setThread]
    omega
  | @create n threadId hat _ =>
    have hleft : callsLeft s = 10 * s.head.length + 5 := by simp only [callsLeft, hat]
    show callsLeft _ < callsLeft s
    rw [callsLeft_sweepFrom rfl]
    show 5 * behind s.head s.head.head? + 5 * s.head.length + 2 < callsLeft s
    rw [behind_head?]
    omega
  | @removeUncreated n hat =>
    have hle : (s.head.erase n).length ≤ s.head.length := List.length_erase_le
    simp only [callsLeft, hat, MainCall.byMain, if_true]
    omega
  | freeUncreated hat => simp [callsLeft, hat, MainCall.byMain]
  | @sweepNext n hat =>
    have hknows := hreg.knows
    rw [hat] at hknows
    have hbehind := behind_slistNext hreg.nodup ((hreg.mem_head n).mpr (.inl hknows))
    simp only [callsLeft, hat, MainCall.byMain, if_true]
    omega
  | @sweepTest n temp value hat _ =>
    have hleft : callsLeft s = 5 * behind s.head temp + 5 * s.head.length + 6 := by
      simp only [callsLeft, hat]
    show callsLeft _ < callsLeft s
    cases value with
    | true =>
      show 5 * behind s.head temp + 5 * s.head.length + 5 < _
      omega
    | false =>
      rw [callsLeft_sweepFrom rfl]
      show 5 * behind s.head temp + 5 * s.head.length + 2 < _
      omega
  | sweepJoin hat _ => simp [callsLeft, hat, MainCall.byMain]
  | @sweepRemove n temp hat =>
    have hbehind := behind_erase_le s.head n temp
    have hle : (s.head.erase n).length ≤ s.head.length := List.length_erase_le
    simp only [callsLeft, hat, MainCall.byMain, if_true]
    omega
  | @sweepFree n temp hat =>
    have hleft : callsLeft s = 5 * behind s.head temp + 5 * s.head.length + 3 := by
      simp only [callsLeft, hat]
    show callsLeft _ < callsLeft s
    rw [callsLeft_sweepFrom rfl]
    show 5 * behind s.head temp + 5 * s.head.length + 2 < _
    omega
  | _ hat => simp [hat, MainPc.shuttingDown] at hdown

/-- Every thread that is created and not joined has ended. -/
def ActiveEnded (s : Server) : Prop :=
  ∀ n, (s.threads n).active = true → Ended (s.threads n) = true

theorem ActiveEnded.step (h : s.ActiveEnded) (hmain : call.byMain = true)
    (hends : call.Ends = true) (htrans : Trans C s call s') : s'.ActiveEnded := by
  -- a thread that is joined, or that could not be created, is not active
  have hupdate : ∀ m t, ThreadState.active t = false → ∀ n,
      ThreadState.active (Function.update s.threads m t n) = true →
        Ended (Function.update s.threads m t n) = true := by
    intro m t ht n hn
    by_cases hnm : n = m
    · subst hnm
      rw [Function.update_self, ht] at hn
      exact absurd hn (by simp)
    · rw [Function.update_of_ne hnm] at hn ⊢
      exact h n hn
  cases htrans with
  | begin _ _ => simp [MainCall.byMain] at hmain
  | thread _ _ _ => simp [MainCall.byMain] at hmain
  | create _ _ => simp [MainCall.Ends] at hends
  | createFailed _ => exact hupdate _ .failed rfl
  | sweepJoin _ _ => exact hupdate _ .joined rfl
  | shutdownJoin _ _ _ => exact hupdate _ .joined rfl
  | _ => exact h

end Server

namespace SignalServer

variable {C : Libc} {s s' : SignalServer} {call : SignalCall} {es fs : List SignalCall}

theorem server_step {call : MainCall} (h : (lts C).step s (.server call) = some s') :
    s.Allows call = true ∧ ∃ server, (Server.lts C).step s.server call = some server ∧
      s' = { s with server := server } := by
  obtain ⟨⟨-, hallows⟩, h⟩ := Option.ite_none_right_eq_some.mp h
  obtain ⟨server, hserver, rfl⟩ := Option.map_eq_some_iff.mp h
  exact ⟨hallows, server, hserver, rfl⟩

/-- A signal and a handler leave the server itself alone, and they take nothing back. -/
theorem handler_step (h : (lts C).step s call = some s') (hcall : ∀ c, call ≠ .server c) :
    s'.server = s.server ∧ (s.socketShut = true → s'.socketShut = true) ∧
      (s.gExitFlag = true → s'.gExitFlag = true) := by
  cases call with
  | server c => exact absurd rfl (hcall c)
  | signal thread =>
    obtain ⟨-, h⟩ := Option.ite_none_right_eq_some.mp h
    obtain rfl := Option.some.inj h
    exact ⟨rfl, id, id⟩
  | handler thread =>
    change step C s (.handler thread) = some s' at h
    simp only [step] at h
    split at h
    · simp at h
    · obtain rfl := Option.some.inj h
      exact ⟨rfl, fun _ => rfl, id⟩
    · obtain rfl := Option.some.inj h
      exact ⟨rfl, id, fun _ => rfl⟩

/-- Without its signals it is a run of the server. -/
theorem exists_server_run (hrun : (lts C).run init es = some s) :
    ∃ calls, (Server.lts C).run .init calls = some s.server := by
  refine Lts.run_invariant (I := fun s => ∃ calls, (Server.lts C).run .init calls = some s.server)
    ⟨[], rfl⟩ (fun s call s' ih hstep => ?_) hrun
  obtain ⟨calls, hcalls⟩ := ih
  by_cases hcall : ∃ c, call = .server c
  · obtain ⟨c, rfl⟩ := hcall
    obtain ⟨-, server, hserver, rfl⟩ := server_step hstep
    exact ⟨calls ++ [c], Lts.run_concat_eq_some.mpr ⟨s.server, hcalls, hserver⟩⟩
  · rw [(handler_step hstep (not_exists.mp hcall)).1]
    exact ⟨calls, hcalls⟩

/-- A handler has run. -/
def Told (s : SignalServer) : Prop := s.socketShut = true ∧ s.gExitFlag = true

theorem Told.step (h : s.Told) (hstep : (lts C).step s call = some s') : s'.Told := by
  by_cases hcall : ∃ c, call = .server c
  · obtain ⟨c, rfl⟩ := hcall
    obtain ⟨-, server, -, rfl⟩ := server_step hstep
    exact h
  · obtain ⟨-, hshut, hflag⟩ := handler_step hstep (not_exists.mp hcall)
    exact ⟨hshut h.1, hflag h.2⟩

/-- What is not allowed any more once a handler has run. -/
theorem Told.of_allows {call : MainCall} (h : s.Told) (hallows : s.Allows call = true) :
    (∀ fd, call ≠ .accept (some fd)) ∧ call ≠ .exitFlag false := by
  constructor
  · rintro fd rfl
    simp [Allows, h.1] at hallows
  · rintro rfl
    simp [Allows, h.2] at hallows

theorem countP_byMain_le (hrun : (lts C).run init es = some s) (htold : s.Told)
    (hrun' : (lts C).run s fs = some s') :
    s'.Told ∧ (∀ fd, SignalCall.server (.accept (some fd)) ∉ fs) ∧
      fs.countP SignalCall.byMain + s'.server.callsLeft ≤ s.server.callsLeft := by
  refine Lts.run_induction (P := fun fs s' => s'.Told ∧
    (∀ fd, SignalCall.server (.accept (some fd)) ∉ fs) ∧
      fs.countP SignalCall.byMain + s'.server.callsLeft ≤ s.server.callsLeft)
    ⟨htold, by simp, by simp⟩ (fun fs m call s' hm ih hstep => ?_) hrun'
  obtain ⟨htold', hnone, hcount⟩ := ih
  rw [List.countP_append, List.countP_singleton]
  by_cases hcall : ∃ c, call = .server c
  · obtain ⟨c, rfl⟩ := hcall
    refine ⟨htold'.step hstep, ?_⟩
    obtain ⟨hallows, server, hserver, rfl⟩ := server_step hstep
    obtain ⟨haccept, hflag⟩ := htold'.of_allows hallows
    obtain ⟨calls, hcalls⟩ := exists_server_run (Lts.run_append_eq_some.mpr ⟨s, hrun, hm⟩)
    have hleft := Server.callsLeft_step (Server.regInv_of_run hcalls)
      (Server.trans_of_step hserver) haccept hflag
    refine ⟨fun fd hmem => ?_, ?_⟩
    · rcases List.mem_append.mp hmem with hmem | hmem
      · exact hnone fd hmem
      · obtain rfl := SignalCall.server.inj (List.mem_singleton.mp hmem)
        exact haccept fd rfl
    · show fs.countP SignalCall.byMain + (if c.byMain then 1 else 0) + server.callsLeft ≤ _
      split at hleft
      · next hmain =>
        rw [if_pos hmain]
        omega
      · next hmain =>
        rw [if_neg hmain]
        omega
  · have hno := not_exists.mp hcall
    refine ⟨htold'.step hstep, fun fd hmem => ?_, ?_⟩
    · rcases List.mem_append.mp hmem with hmem | hmem
      · exact hnone fd hmem
      · exact hno _ (List.mem_singleton.mp hmem).symm
    · have hbyMain : call.byMain = false := by
        cases call with
        | server c => exact absurd rfl (hno c)
        | _ => rfl
      rw [(handler_step hstep hno).1, hbyMain]
      exact hcount

/-! ### The main thread does not wait for nothing -/

/-- A step that is no signal. -/
def Proceeds (C : Libc) (s : SignalServer) (thread : Option Nat) : Prop :=
  ∃ call s', (lts C).step s call = some s' ∧ call.thread? = thread ∧ ∀ t, call ≠ .signal t

theorem step_handler {thread : Option Nat} (h : s.handlers thread ≠ []) :
    ∃ s', (lts C).step s (.handler thread) = some s' := by
  apply Option.isSome_iff_exists.mp
  show (step C s (.handler thread)).isSome = true
  cases hpcs : s.handlers thread with
  | nil => exact absurd hpcs h
  | cons pc pcs => cases pc <;> simp [step, hpcs]

/-- What a thread can do it may do, if no handler runs on it. -/
theorem step_server (htold : s.Told) {call : MainCall} {server : Server}
    (hhandlers : s.handlers call.thread? = []) (hends : call.Ends = true)
    (hstep : (Server.lts C).step s.server call = some server) :
    (lts C).step s (.server call) = some { s with server := server } := by
  have hallows : s.Allows call = true := by
    cases call with
    | exitFlag set => simpa [Allows, MainCall.Ends, htold.2] using hends
    | accept fd =>
      cases fd with
      | none => rfl
      | some fd => simp [MainCall.Ends] at hends
    | thread n call =>
      cases call with
      | exitFlag set => simpa [Allows, MainCall.Ends, htold.2] using hends
      | _ => rfl
    | _ => rfl
  show step C s (.server call) = _
  simp only [step, hhandlers, hallows, and_self, if_true, Option.map_eq_some_iff]
  exact ⟨server, hstep, rfl⟩

theorem thread?_of_byMain {call : MainCall} (h : call.byMain = true) : call.thread? = none := by
  cases call <;> simp_all [MainCall.byMain, MainCall.thread?]

theorem thread?_of_entry? {call : MainCall} {n : Nat} (h : call.byMain = false)
    (hentry : call.entry? = some n) : call.thread? = some n := by
  cases call <;> simp_all [MainCall.byMain, MainCall.thread?, MainCall.entry?]

/-- The main thread can go on, or the thread that it joins can. -/
theorem main_proceeds (hrun : (lts C).run init es = some s) (htold : s.Told)
    (hpc : s.server.pc ≠ .returned) :
    s.Proceeds C none ∨ ∃ n, s.server.pc.joins? = some n ∧ s.Proceeds C (some n) := by
  obtain ⟨calls, hcalls⟩ := exists_server_run hrun
  have hreg := Server.regInv_of_run hcalls
  have hinv := Server.threadsInv_of_run hcalls
  by_cases hhandlers : s.handlers none = []
  · by_cases hjoin : ∀ n, s.server.pc.joins? = some n → Server.Ended (s.server.threads n) = true
    · obtain ⟨call, server, hmain, hends, hstep⟩ := Server.exists_main_step hreg hinv hpc hjoin
      have hthread := thread?_of_byMain hmain
      exact .inl ⟨.server call, _, step_server htold (by rw [hthread, hhandlers]) hends hstep,
        hthread, by simp⟩
    · obtain ⟨n, hn, hend⟩ : ∃ n, s.server.pc.joins? = some n ∧
          Server.Ended (s.server.threads n) = false := by
        simpa using hjoin
      refine .inr ⟨n, hn, ?_⟩
      by_cases hhandlers' : s.handlers (some n) = []
      · obtain ⟨call, server, hmain, hentry, hends, hstep⟩ :=
          Server.exists_joined_step hreg hinv hn hend
        have hthread := thread?_of_entry? hmain hentry
        exact ⟨.server call, _, step_server htold (by rw [hthread, hhandlers']) hends hstep,
          hthread, by simp⟩
      · obtain ⟨s', hstep⟩ := step_handler (C := C) hhandlers'
        exact ⟨.handler (some n), s', hstep, rfl, by simp⟩
  · obtain ⟨s', hstep⟩ := step_handler (C := C) hhandlers
    exact .inl ⟨.handler none, s', hstep, rfl, by simp⟩

/-- On the main thread, and no signal. -/
def OnMain (fs : List SignalCall) : Prop :=
  ∀ call ∈ fs, call.thread? = none ∧ ∀ t, call ≠ .signal t

theorem OnMain.cons (h : OnMain fs) (hthread : call.thread? = none)
    (hsignal : ∀ t, call ≠ .signal t) : OnMain (call :: fs) := by
  intro c hc
  rcases List.mem_cons.mp hc with rfl | hc
  · exact ⟨hthread, hsignal⟩
  · exact h c hc

/-- The handlers on the main thread come to their end. -/
theorem exists_drain (C : Libc) (htold : s.Told) :
    ∃ fs s', OnMain fs ∧ (lts C).run s fs = some s' ∧ s'.handlers none = [] ∧
      s'.server = s.server ∧ s'.Told := by
  -- by induction on the handlers, each of which has one or two statements before it
  obtain ⟨pcs, hpcs⟩ : ∃ pcs, s.handlers none = pcs := ⟨_, rfl⟩
  induction pcs generalizing s with
  | nil => exact ⟨[], s, by simp [OnMain], rfl, hpcs, rfl, htold⟩
  | cons pc pcs ih =>
    have hset : ∀ {s : SignalServer}, s.Told → s.handlers none = .setExitFlag :: pcs →
        ∃ fs s', OnMain fs ∧ (lts C).run s fs = some s' ∧ s'.handlers none = [] ∧
          s'.server = s.server ∧ s'.Told := by
      intro s htold hpcs
      have hstep : (lts C).step s (.handler none) =
          some { s.setHandlers none pcs with gExitFlag := true } := by
        show step C s (.handler none) = _
        simp only [step, hpcs]
      obtain ⟨fs, s', hmain, hrun, hnil, hserver, htold'⟩ :=
        ih (htold.step hstep) (by simp [setHandlers])
      exact ⟨.handler none :: fs, s', hmain.cons rfl (by simp),
        Lts.run_cons_eq_some.mpr ⟨_, hstep, hrun⟩, hnil, hserver, htold'⟩
    cases pc with
    | setExitFlag => exact hset htold hpcs
    | shutdown =>
      have hstep : (lts C).step s (.handler none) =
          some { s.setHandlers none (.setExitFlag :: pcs) with socketShut := true } := by
        show step C s (.handler none) = _
        simp only [step, hpcs]
      obtain ⟨fs, s', hmain, hrun, hnil, hserver, htold'⟩ :=
        hset (htold.step hstep) (by simp [setHandlers])
      exact ⟨.handler none :: fs, s', hmain.cons rfl (by simp),
        Lts.run_cons_eq_some.mpr ⟨_, hstep, hrun⟩, hnil, hserver, htold'⟩

/-- Once the threads have ended, the main thread gets to its end by itself. -/
theorem exists_return {calls : List MainCall}
    (hcalls : (Server.lts C).run .init calls = some s.server) (htold : s.Told)
    (hended : s.server.ActiveEnded) (hhandlers : s.handlers none = []) :
    ∃ fs s', OnMain fs ∧ (lts C).run s fs = some s' ∧ s'.server.pc = .returned := by
  -- by induction on the calls that are still to be made
  obtain ⟨k, hk⟩ : ∃ k, k = s.server.callsLeft := ⟨_, rfl⟩
  induction k using Nat.strong_induction_on generalizing s calls with
  | _ k ih =>
    by_cases hreturned : s.server.pc = .returned
    · exact ⟨[], s, by simp [OnMain], rfl, hreturned⟩
    have hreg := Server.regInv_of_run hcalls
    have hjoin : ∀ n, s.server.pc.joins? = some n → Server.Ended (s.server.threads n) = true :=
      fun n hn => hended n (Server.active_of_joins hreg hn)
    obtain ⟨call, server, hmain, hends, hserver⟩ :=
      Server.exists_main_step hreg (Server.threadsInv_of_run hcalls) hreturned hjoin
    have htrans := Server.trans_of_step hserver
    have hthread := thread?_of_byMain hmain
    have hstep := step_server htold (by rw [hthread, hhandlers]) hends hserver
    have hless := Server.callsLeft_step hreg htrans
      (by rintro fd rfl; simp [MainCall.Ends] at hends)
      (by rintro rfl; simp [MainCall.Ends] at hends)
    rw [if_pos hmain] at hless
    obtain ⟨fs, s', hall, hrun, hend⟩ := ih server.callsLeft (hk ▸ hless)
      (s := { s with server := server })
      (Lts.run_concat_eq_some.mpr ⟨s.server, hcalls, hserver⟩) htold
      (hended.step hmain hends htrans) hhandlers rfl
    exact ⟨.server call :: fs, s', hall.cons hthread (by simp),
      Lts.run_cons_eq_some.mpr ⟨_, hstep, hrun⟩, hend⟩

/-- The signal comes between the test of the exit flag and `accept`. -/
def signalBeforeAccept : List SignalCall :=
  [.server (.exitFlag false), .signal none, .handler none, .handler none]

end SignalServer

end Aesd
