import Aesd.Spec.SessionProgress

/-!
# The server refines the log

When clients are served one at a time, the server does with their requests what the log does:
each client gets the log's answer, and at the end the driver stores the log's lines. This holds
of every run (`ServedInTurn.refines`), and there is a run for any clients whose lines the kernel
has memory for, however their lines are cut (`exists_servedInTurn`).
-/

namespace Aesd

variable {K : Kernel} {C : Libc} {i : Nat} {log : LineLog} {client : Client} {session : Session}
  {c : Conn} {call : Call} {out : DeviceOutcome} {served : List (Client × Session)}
  {g g' : Threads Nat DeviceState (Option Conn)}

/-! ### The run of a session -/

/-- The state of a session after some of its calls. -/
structure SessionState (K : Kernel) (log : LineLog) (client : Client) (i : Nat)
    (session : Session) (g : Threads Nat DeviceState (Option Conn)) (c : Conn) : Prop where
  inv : g.shared.driver.Inv K
  locals_eq : g.locals i = some c
  phase : Phase log client session.received session.sent g.shared c
  bound : session.calls.length + remaining client log session.received session.sent c ≤
    4 * client.chunks.length + 2 * (client.answer log).length + 15

/-- A session with one more call. -/
def Session.concat (session : Session) (call : Call) (out : DeviceOutcome) : Session :=
  ⟨session.myClient, session.calls ++ [(call, out)]⟩

@[simp] theorem Session.received_concat (session : Session) :
    (session.concat call out).received = session.received ++ call.chunk?.toList := by
  rw [received, concat, List.map_append, List.map_singleton, chunksOf_concat, received]

@[simp] theorem Session.sent_concat (session : Session) :
    (session.concat call out).sent = session.sent ++ call.sent := by
  rw [sent, concat, List.flatMap_append, List.flatMap_singleton, sent]

theorem Session.Serves.of_concat (h : (session.concat call out).Serves client) :
    session.Serves client where
  granted c hc := h.granted c (List.mem_append_left _ hc)
  pieces := by
    refine List.IsPrefix.trans ?_ h.pieces
    rw [Session.received_concat]
    exact List.prefix_append _ _
  atEnd pre beyond out' post heq :=
    h.atEnd pre beyond out' (post ++ [(call, out)]) (by rw [Session.concat, heq]; simp)

theorem Session.Serves.concat (h : session.Serves client) (hgranted : Granted (call, out))
    (hpieces : session.received ++ call.chunk?.toList <+: client.chunks)
    (hend : ∀ beyond, call ≠ .recv none beyond) : (session.concat call out).Serves client where
  granted c hc := by
    rcases List.mem_append.mp hc with hc | hc
    · exact h.granted c hc
    · rw [List.mem_singleton.mp hc]
      exact hgranted
  pieces := by
    rw [Session.received_concat]
    exact hpieces
  atEnd pre beyond out' post heq := by
    rcases List.eq_nil_or_concat post with rfl | ⟨post, x, rfl⟩
    · have hlast := (List.append_inj' heq rfl).2
      simp only [List.cons.injEq, Prod.mk.injEq] at hlast
      exact absurd hlast.1.1 (hend beyond)
    · rw [List.concat_eq_append, ← List.cons_append, ← List.append_assoc] at heq
      exact h.atEnd pre beyond out' post (List.append_inj_left' heq rfl)

namespace SessionState

/-- A session that has just been accepted. -/
theorem accepted (hinv : g.shared.driver.Inv K) (hstores : g.shared.driver.Stores log)
    {myClient : Nat} (hstep : (DeviceServer.lts K C).step g (i, .accept myClient) = some g') :
    SessionState K log client i ⟨myClient, []⟩ g' (.start myClient) := by
  obtain ⟨s, t, htrans, rfl⟩ := DeviceServer.lts_step hstep
  cases htrans with
  | accept _ _ =>
    exact ⟨hinv, Function.update_self _ _ _, ⟨rfl, hstores, rfl, rfl, List.not_mem_nil⟩,
      by simp [remaining, Conn.start, Session.received, Session.sent, chunksOf]⟩

theorem step (h : SessionState K log client i session g c)
    (hserves : (session.concat call out).Serves client)
    (hstep : (DeviceServer.lts K C).step g (i, .call call out) = some g') :
    ∃ c', SessionState K log client i (session.concat call out) g' c' ∧ Conn.Trans C c call c' ∧
      DeviceServer.deviceCall K i g.shared out call = some g'.shared := by
  obtain ⟨s, t, htrans, rfl⟩ := DeviceServer.lts_step hstep
  cases htrans with
  | @call call out c₀ c' s' ht hconn hcall =>
    obtain rfl := Option.some.inj (h.locals_eq.symm.trans ht)
    have hpieces := hserves.pieces
    rw [Session.received_concat] at hpieces
    have hphase := h.phase.step h.inv (hserves.granted _ (by simp [Session.concat])) hconn hcall
      hpieces fun beyond heq => by subst heq; exact hserves.atEnd _ beyond out [] rfl
    have hlt := hphase.remaining_lt hconn hpieces
    refine ⟨c', ⟨DeviceServer.deviceCall_inv h.inv hcall, Function.update_self _ _ _, ?_, ?_⟩,
      hconn, hcall⟩
    · rw [Session.received_concat, Session.sent_concat]
      exact hphase
    · rw [Session.received_concat, Session.sent_concat, Session.concat, List.length_append,
        List.length_singleton]
      have hbound := h.bound
      omega

end SessionState

/-- A session that starts with the log in the driver keeps its phase to its end. -/
theorem Session.state_of_run (hserves : session.Serves client) (hinv : g.shared.driver.Inv K)
    (hstores : g.shared.driver.Stores log)
    (hrun : (DeviceServer.lts K C).run g (session.steps i) = some g') :
    ∃ c, SessionState K log client i session g' c := by
  obtain ⟨myClient, calls⟩ := session
  rw [Session.steps, Lts.run_cons_eq_some] at hrun
  obtain ⟨g₁, haccept, hrun⟩ := hrun
  replace haccept : (DeviceServer.lts K C).step g (i, .accept myClient) = some g₁ := haccept
  induction calls using List.reverseRecOn generalizing g' with
  | nil =>
    obtain rfl := Option.some.inj hrun
    exact ⟨_, .accepted hinv hstores haccept⟩
  | append_singleton calls c ih =>
    simp only [List.map_append, List.map_cons, List.map_nil] at hrun
    obtain ⟨g₂, hrun, hstep⟩ := Lts.run_concat_eq_some.mp hrun
    have hbefore : (Session.mk myClient calls).Serves client :=
      Session.Serves.of_concat (show ((Session.mk myClient calls).concat c.1 c.2).Serves client from
        hserves)
    obtain ⟨c₂, hstate⟩ := ih hbefore hrun
    obtain ⟨c₃, hstate, -, -⟩ := hstate.step hserves hstep
    exact ⟨c₃, hstate⟩

/-! ### Sessions one after another -/

theorem sequential_concat (sessions : List Session) (session : Session) :
    sequential (sessions ++ [session]) =
      sequential sessions ++ session.steps sessions.length := by
  simp [sequential, List.zipIdx_append]

theorem Session.fst_of_mem_steps {i : Nat} {session : Session} {c : Nat × DeviceCall}
    (hc : c ∈ session.steps i) : c.1 = i := by
  rcases List.mem_cons.mp hc with rfl | hc
  · rfl
  · obtain ⟨x, -, rfl⟩ := List.mem_map.mp hc
    rfl

/-- The requests of the clients, with what they get. -/
def exchanges (served : List (Client × Session)) : List (Request × List UInt8) :=
  served.map fun s => (s.1.request, s.2.sent)

namespace ServedInTurn

/-- The clients before the last one were served in turn, too. -/
theorem of_concat {s : Client × Session} (h : ServedInTurn K C (served ++ [s]) g) :
    ∃ g₀, ServedInTurn K C served g₀ ∧
      (DeviceServer.lts K C).run g₀ (s.2.steps served.length) = some g := by
  have hrun := h.run
  rw [List.map_append, List.map_singleton, sequential_concat, List.length_map] at hrun
  obtain ⟨g₀, hrun₀, hlast⟩ := Lts.run_append_eq_some.mp hrun
  refine ⟨g₀, ⟨fun x hx => h.serves x (List.mem_append_left _ hx), hrun₀, fun i hi => ?_⟩, hlast⟩
  obtain ⟨c, hc, hpc⟩ := h.returned i (by rw [List.length_append]; omega)
  have hsame := Lts.locals_of_run_of_ne (i := i) hlast fun x hx => by
    rw [Session.fst_of_mem_steps hx]
    omega
  exact ⟨c, hsame ▸ hc, hpc⟩

/-- What the clients get is what the log answers, and the driver stores its lines. -/
theorem refines (h : ServedInTurn K C served g) :
    ∃ log, LineLog.lts.run BoundedLog.empty (exchanges served) = some log ∧
      g.shared.driver.Stores log := by
  induction served using List.reverseRecOn generalizing g with
  | nil =>
    obtain rfl := Option.some.inj h.run
    exact ⟨_, rfl, .init⟩
  | append_singleton served s ih =>
    obtain ⟨g₀, h₀, hlast⟩ := h.of_concat
    obtain ⟨log, hlog, hstores⟩ := ih h₀
    obtain ⟨c, hstate⟩ := Session.state_of_run (h.serves s (by simp))
      (DeviceServer.driverInv_of_run h₀.run) hstores hlast
    obtain ⟨c', hc', hpc⟩ := h.returned served.length (by simp)
    obtain rfl := Option.some.inj (hstate.locals_eq.symm.trans hc')
    have hphase := hstate.phase
    simp only [Phase, hpc] at hphase
    obtain ⟨-, hafter, hsent⟩ := hphase
    refine ⟨_, ?_, hafter⟩
    rw [exchanges, List.map_append, List.map_singleton]
    refine Lts.run_concat_eq_some.mpr ⟨log, hlog, Lts.ofCalls_step_eq_some.mpr ?_⟩
    exact congrArg some (Prod.ext hsent.symm rfl)

end ServedInTurn

/-! ### Serving any clients -/

theorem Session.steps_concat (i : Nat) (session : Session) (call : Call) (out : DeviceOutcome) :
    (session.concat call out).steps i = session.steps i ++ [(i, .call call out)] := by
  simp [steps, concat]

theorem DeviceServer.step_call {s' : DeviceState} {c' : Conn} (hc : g.locals i = some c)
    (htrans : Conn.Trans C c call c')
    (hcall : deviceCall K i g.shared out call = some s') :
    (lts K C).step g (i, .call call out) = some ⟨s', Function.update g.locals i (some c')⟩ := by
  refine Lts.interleave_step.mpr ⟨s', some c', ?_, rfl⟩
  simp only [step, hc, Conn.step_of_trans htrans, hcall, Option.bind_eq_bind, Option.bind_some]

/-- A session that was begun can be brought to its end. -/
theorem SessionState.exists_returned {g₀ : Threads Nat DeviceState (Option Conn)}
    (h : SessionState K log client i session g c) (hserves : session.Serves client)
    (hready : Ready i g.shared c) (hfits : client.line.length ≤ K.kmallocMaxSize)
    (hrun : (DeviceServer.lts K C).run g₀ (session.steps i) = some g) :
    ∃ (session' : Session) (g' : _) (c' : Conn), (DeviceServer.lts K C).run g₀ (session'.steps i) = some g' ∧
      session'.Serves client ∧ g'.locals i = some c' ∧ c'.pc = .returned ∧
      Ready i g'.shared c' := by
  induction hn : remaining client log session.received session.sent c using Nat.strongRecOn
    generalizing session g c with
  | ind n ih =>
    by_cases hpc : c.pc = .returned
    · exact ⟨session, g, c, hrun, hserves, h.locals_eq, hpc, hready⟩
    · obtain ⟨call, s', c', hgranted, htrans, hcall, hpieces, hend⟩ :=
        h.phase.exists_call hready h.inv hfits hserves.pieces hpc
      have hserves' := hserves.concat hgranted hpieces hend
      have hstep := DeviceServer.step_call h.locals_eq htrans hcall
      obtain ⟨c₂, hstate, -, -⟩ := h.step hserves' hstep
      have hc₂ := hstate.locals_eq
      simp only [Function.update_self, Option.some.injEq] at hc₂
      subst hc₂
      refine ih _ ?_ hstate hserves' (hready.step htrans hcall) ?_ rfl
      · have hphase := hstate.phase
        rw [Session.received_concat, Session.sent_concat] at hphase ⊢
        rw [← hn]
        exact hphase.remaining_lt htrans hpieces
      · rw [Session.steps_concat]
        exact Lts.run_concat_eq_some.mpr ⟨g, hrun, hstep⟩

/-- The server between two sessions: there are threads, the mutex and descriptors left. -/
structure Idle (n : Nat) (g : Threads Nat DeviceState (Option Conn)) : Prop where
  unused : ∀ i, n ≤ i → g.locals i = none
  mutex : g.shared.gWriteMutex = none
  room : ∃ m, ∀ fd, m ≤ fd → g.shared.Free fd = true

/-- An idle server can serve one more client. -/
theorem Idle.exists_session (h : Idle i g) (hinv : g.shared.driver.Inv K)
    (hstores : g.shared.driver.Stores log) (hfits : client.line.length ≤ K.kmallocMaxSize) :
    ∃ (session : Session) (g' : _) (c : Conn),
      (DeviceServer.lts K C).run g (session.steps i) = some g' ∧
      session.Serves client ∧ g'.locals i = some c ∧ c.pc = .returned ∧ Idle (i + 1) g' := by
  obtain ⟨m, hfree⟩ := h.room
  have haccept : (DeviceServer.lts K C).step g (i, .accept m) =
      some ⟨{ g.shared with sockets := Function.update g.shared.sockets m true },
        Function.update g.locals i (some (.start m))⟩ := by
    refine Lts.interleave_step.mpr ⟨_, _, ?_, rfl⟩
    simp [DeviceServer.step, h.unused i le_rfl, hfree m le_rfl]
  have hready : Ready i { g.shared with sockets := Function.update g.shared.sockets m true }
      (.start m) := by
    refine ⟨h.mutex, m + 1, fun fd hle => ?_⟩
    have hne : fd ≠ m := by omega
    have hfd := hfree fd (by omega)
    simp only [DeviceState.Free, Function.update_of_ne hne] at hfd ⊢
    exact hfd
  have hserves : (Session.mk m []).Serves client :=
    ⟨by simp, List.nil_prefix, fun pre beyond out post heq => by simp at heq⟩
  obtain ⟨session, g', c, hrun, hserves, hc, hpc, hready⟩ :=
    (SessionState.accepted hinv hstores haccept).exists_returned hserves hready hfits
      (Lts.run_cons_eq_some.mpr ⟨_, haccept, rfl⟩)
  refine ⟨session, g', c, hrun, hserves, hc, hpc, fun j hj => ?_, ?_, hready.room⟩
  · have hsame := Lts.locals_of_run_of_ne (i := j) hrun fun x hx => by
      rw [Session.fst_of_mem_steps hx]
      omega
    rw [hsame]
    exact h.unused j (by omega)
  · rw [hready.mutex, hpc]
    rfl

/-- Any clients can be served in turn whose lines the kernel has memory for. -/
theorem exists_servedInTurn (K : Kernel) (C : Libc) {clients : List Client}
    (hfits : ∀ client ∈ clients, client.line.length ≤ K.kmallocMaxSize) :
    ∃ served g, served.map Prod.fst = clients ∧ ServedInTurn K C served g ∧
      Idle served.length g := by
  induction clients using List.reverseRecOn with
  | nil =>
    refine ⟨[], DeviceServer.init, rfl, ⟨by simp, rfl, by simp⟩, fun _ _ => rfl, rfl, 0, ?_⟩
    exact fun _ _ => rfl
  | append_singleton clients client ih =>
    obtain ⟨served, g, rfl, hserved, hidle⟩ := ih fun x hx => hfits x (List.mem_append_left _ hx)
    obtain ⟨log, -, hstores⟩ := hserved.refines
    obtain ⟨session, g', c, hrun, hserves, hc, hpc, hidle'⟩ := hidle.exists_session (C := C)
      (DeviceServer.driverInv_of_run hserved.run) hstores (hfits client (by simp))
    refine ⟨served ++ [(client, session)], g', by simp, ⟨?_, ?_, ?_⟩, ?_⟩
    · intro x hx
      rcases List.mem_append.mp hx with hx | hx
      · exact hserved.serves x hx
      · rw [List.mem_singleton.mp hx]
        exact hserves
    · rw [List.map_append, List.map_singleton, sequential_concat, List.length_map]
      exact Lts.run_append_eq_some.mpr ⟨g, hserved.run, hrun⟩
    · intro i hi
      by_cases hlast : i = served.length
      · subst hlast
        exact ⟨c, hc, hpc⟩
      · have hsame := Lts.locals_of_run_of_ne (i := i) hrun fun x hx => by
          rw [Session.fst_of_mem_steps hx]
          exact Ne.symm hlast
        rw [hsame]
        refine hserved.returned i ?_
        rw [List.length_append, List.length_singleton] at hi
        omega
    · rw [List.length_append]
      exact hidle'

end Aesd
