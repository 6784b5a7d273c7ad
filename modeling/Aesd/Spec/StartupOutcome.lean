import Aesd.Native.Startup

/-!
# What the server has open when it starts to accept

The listening socket gets the lowest descriptor that is not in use, and the daemon closes the
standard descriptors whatever they are. `Startup.startup_outcome`: a daemon listens in its accept
loop just if the standard descriptors were all open at its start, and what it then has open is
told for each descriptor. A start that fails removes the data file in the build that has one, and
that file may be the one of a server that is running.
-/

namespace Aesd

/-- A call that fails and is looked at. -/
def StartupCall.Fails : StartupCall → Bool
  | .socket ok | .setsockopt ok | .bind ok | .listen ok | .setsid ok | .chdir ok
  | .openDevNull ok => !ok
  | .fork child => child.isNone
  | _ => false

namespace Startup

variable {createDaemon usesCharDevice : Bool} {fds₀ : Descriptors Nat} {s s' : Startup}
  {es : List StartupCall} {call : StartupCall}

/-- The standard descriptors are in use. -/
def StdOpen (fds₀ : Descriptors Nat) : Prop := ∀ fd < 3, (fds₀.get fd).isSome

/-- `g_my_socket` is the listening socket. -/
def Listens (s : Startup) : Prop := ∃ fd, s.gMySocket = some fd ∧ s.fds.get fd = some .socket

/-- The open files with the socket, by their descriptors. -/
def withSocket (fds₀ : Descriptors Nat) (fd : Nat) : Option StartFile :=
  if fd = fds₀.lowest then some .socket else (fds₀.get fd).map .inherited

/-- The open files after the standard descriptors have been made to stand for `/dev/null`, those
    for which `dup2` succeeded. -/
def redirected (fds₀ : Descriptors Nat) (devnull : Nat) (es : List StartupCall) (fd : Nat) :
    Option StartFile :=
  if fd < 3 then if .dup2 fd true ∈ es then some .devNull else none
  else if fd = devnull then some .devNull else withSocket fds₀ fd

/-- `dup2` was not called for the descriptors from `n` on. -/
def Before (n : Nat) (es : List StartupCall) : Prop := ∀ fd ok, n ≤ fd → .dup2 fd ok ∉ es

/-- What the process has open, by where it is. -/
def Inv (fds₀ : Descriptors Nat) (es : List StartupCall) (s : Startup) : Prop :=
  match s.pc with
  | .socket => Before 0 es ∧ ∀ fd, s.fds.get fd = (fds₀.get fd).map .inherited
  | .setsockopt | .bind | .listen =>
    s.gMySocket = some fds₀.lowest ∧ Before 0 es ∧ ∀ fd, s.fds.get fd = withSocket fds₀ fd
  | .fork | .exit | .setsid | .chdir | .openDevNull =>
    s.gMySocket = some fds₀.lowest ∧ s.createDaemon = true ∧ Before 0 es ∧
      ∀ fd, s.fds.get fd = withSocket fds₀ fd
  | .closeStd n =>
    s.gMySocket = some fds₀.lowest ∧ s.createDaemon = true ∧ Before 0 es ∧ n < 3 ∧
      withSocket fds₀ s.devnull = none ∧ ∀ fd, s.fds.get fd =
        if fd < n then none else if fd = s.devnull then some .devNull else withSocket fds₀ fd
  | .dup2Std n =>
    s.gMySocket = some fds₀.lowest ∧ s.createDaemon = true ∧ Before n es ∧ n < 3 ∧
      withSocket fds₀ s.devnull = none ∧ ∀ fd, s.fds.get fd = redirected fds₀ s.devnull es fd
  | .closeDevNull =>
    s.gMySocket = some fds₀.lowest ∧ s.createDaemon = true ∧
      withSocket fds₀ s.devnull = none ∧ ∀ fd, s.fds.get fd = redirected fds₀ s.devnull es fd
  | .acceptLoop =>
    s.gMySocket = some fds₀.lowest ∧
      if s.createDaemon then withSocket fds₀ s.devnull = none ∧ ∀ fd, s.fds.get fd =
        if fd = s.devnull then none else redirected fds₀ s.devnull es fd
      else ∀ fd, s.fds.get fd = withSocket fds₀ fd
  | .cleanup | .returned | .exited => True

theorem Before.concat {n : Nat} (h : Before n es) (hcall : ∀ fd ok, call ≠ .dup2 fd ok) :
    Before n (es ++ [call]) := by
  intro fd ok hle hmem
  rcases List.mem_append.mp hmem with hmem | hmem
  · exact h fd ok hle hmem
  · exact hcall fd ok (List.mem_singleton.mp hmem).symm

theorem redirected_concat {devnull : Nat} (hcall : ∀ fd ok, call ≠ .dup2 fd ok) (fd : Nat) :
    redirected fds₀ devnull (es ++ [call]) fd = redirected fds₀ devnull es fd := by
  simp [redirected, Ne.symm (hcall fd true)]

/-- The descriptor of `/dev/null` stands for it, or is closed. -/
theorem redirected_devnull {devnull : Nat} (h : (redirected fds₀ devnull es devnull).isSome) :
    redirected fds₀ devnull es devnull = some .devNull := by
  unfold redirected at h ⊢
  split
  · next hlt =>
    rw [if_pos hlt] at h
    split
    · rfl
    · next hnot => simp [hnot] at h
  · rw [if_pos rfl]

/-- `dup2` of the descriptor `n`. -/
theorem redirected_dup2 {devnull n : Nat} (hn : n < 3) (ok : Bool) (fd : Nat) :
    redirected fds₀ devnull (es ++ [.dup2 n ok]) fd =
      if fd = n ∧ ok = true then some .devNull else redirected fds₀ devnull es fd := by
  by_cases hfd : fd = n
  · subst hfd
    cases ok <;> simp [redirected, hn]
  · simp [redirected, hfd]

/-- What a call that is looked at leaves: the process goes on or comes to `cleanup`. -/
theorem Inv.goOn {pc : StartupPc} (ok : Bool) (h : Inv fds₀ es { s with pc := pc }) :
    Inv fds₀ es (s.goOn ok pc) := by
  cases ok with
  | false => trivial
  | true => exact h

theorem Inv.step (h : Inv fds₀ es s) (hstep : s.step call = some s') :
    Inv fds₀ (es ++ [call]) s' := by
  unfold Startup.step at hstep
  split at hstep
  case h_1 hpc =>
    obtain rfl := Option.some.inj hstep
    simp only [Inv, hpc] at h ⊢
    obtain ⟨hbefore, hget⟩ := h
    have hlowest : s.fds.lowest = fds₀.lowest := Descriptors.lowest_congr (by simp [hget])
    refine ⟨by rw [hlowest], hbefore.concat (by simp), fun fd => ?_⟩
    rw [Descriptors.get_opened, hlowest, hget, withSocket]
  case h_3 hpc =>
    obtain rfl := Option.some.inj hstep
    simp only [Inv, hpc] at h
    exact .goOn _ ⟨h.1, h.2.1.concat (by simp), h.2.2⟩
  case h_4 hpc =>
    obtain rfl := Option.some.inj hstep
    simp only [Inv, hpc] at h
    exact .goOn _ ⟨h.1, h.2.1.concat (by simp), h.2.2⟩
  case h_5 hpc =>
    obtain rfl := Option.some.inj hstep
    simp only [Inv, hpc] at h
    apply Inv.goOn
    -- without `-d` the accept loop comes next
    cases hdaemon : s.createDaemon with
    | true => exact ⟨h.1, rfl, h.2.1.concat (by simp), h.2.2⟩
    | false =>
      show s.gMySocket = _ ∧ _
      rw [if_neg (by simp)]
      exact ⟨h.1, h.2.2⟩
  case h_7 child hpc =>
    obtain rfl := Option.some.inj hstep
    simp only [Inv, hpc] at h
    cases child with
    | true => exact ⟨h.1, h.2.1, h.2.2.1.concat (by simp), h.2.2.2⟩
    | false => exact ⟨h.1, h.2.1, h.2.2.1.concat (by simp), h.2.2.2⟩
  case h_9 hpc =>
    obtain rfl := Option.some.inj hstep
    simp only [Inv, hpc] at h
    exact .goOn _ ⟨h.1, h.2.1, h.2.2.1.concat (by simp), h.2.2.2⟩
  case h_10 hpc =>
    obtain rfl := Option.some.inj hstep
    simp only [Inv, hpc] at h
    exact .goOn _ ⟨h.1, h.2.1, h.2.2.1.concat (by simp), h.2.2.2⟩
  case h_11 hpc =>
    obtain rfl := Option.some.inj hstep
    simp only [Inv, hpc] at h
    obtain ⟨hsocket, hdaemon, hbefore, hget⟩ := h
    refine ⟨hsocket, hdaemon, hbefore.concat (by simp), by omega, ?_, fun fd => ?_⟩
    · rw [← hget]
      exact s.fds.get_lowest
    · rw [Descriptors.get_opened, hget]
      rfl
  case h_13 n fd hpc =>
    obtain ⟨rfl, hstep⟩ := Option.ite_none_right_eq_some.mp hstep
    obtain rfl := Option.some.inj hstep
    simp only [Inv, hpc] at h
    obtain ⟨hsocket, hdaemon, hbefore, hn, hnone, hget⟩ := h
    have hbefore' : Before 0 (es ++ [.close fd]) := hbefore.concat (by simp)
    by_cases hlast : fd < 2
    · simp only [Inv, if_pos hlast]
      refine ⟨hsocket, hdaemon, hbefore', by omega, hnone, fun i => ?_⟩
      rw [Descriptors.get_close, hget]
      by_cases hi : i = fd
      · rw [if_pos hi, if_pos (by omega)]
      · rw [if_neg hi]
        by_cases hlt : i < fd
        · rw [if_pos hlt, if_pos (by omega)]
        · rw [if_neg hlt, if_neg (show ¬ i < fd + 1 by omega)]
    · simp only [Inv, if_neg hlast]
      refine ⟨hsocket, hdaemon, hbefore', by omega, hnone, fun i => ?_⟩
      rw [Descriptors.get_close, hget, redirected, if_neg (hbefore' i true (Nat.zero_le _))]
      by_cases hi : i = fd
      · rw [if_pos hi, if_pos (by omega)]
      · rw [if_neg hi]
        by_cases hlt : i < fd
        · rw [if_pos hlt, if_pos (by omega)]
        · rw [if_neg hlt, if_neg (show ¬ i < 3 by omega)]
  case h_14 n fd ok hpc =>
    obtain ⟨⟨rfl, hok⟩, hstep⟩ := Option.ite_none_right_eq_some.mp hstep
    obtain rfl := Option.some.inj hstep
    simp only [Inv, hpc] at h
    obtain ⟨hsocket, hdaemon, hbefore, hn, hnone, hget⟩ := h
    have hbefore' : Before (fd + 1) (es ++ [.dup2 fd ok]) := by
      intro i ok' hle hmem
      rcases List.mem_append.mp hmem with hmem | hmem
      · exact hbefore i ok' (by omega) hmem
      · obtain ⟨rfl, -⟩ := StartupCall.dup2.inj (List.mem_singleton.mp hmem)
        omega
    have hget' : ∀ i, (if ok then s.fds.dup2 s.devnull fd else s.fds).get i =
        redirected fds₀ s.devnull (es ++ [.dup2 fd ok]) i := by
      intro i
      rw [redirected_dup2 hn]
      cases ok with
      | false => simpa using hget i
      | true =>
        have hopen : s.fds.get s.devnull = some .devNull := by
          have hsome := hok rfl
          rw [hget] at hsome ⊢
          exact redirected_devnull hsome
        simp only [if_true, and_true]
        rw [Descriptors.get_dup2 hopen, hget]
    by_cases hlast : fd < 2
    · simp only [Inv, if_pos hlast]
      exact ⟨hsocket, hdaemon, hbefore', by omega, hnone, hget'⟩
    · simp only [Inv, if_neg hlast]
      exact ⟨hsocket, hdaemon, hnone, hget'⟩
  case h_15 fd hpc =>
    obtain ⟨rfl, hstep⟩ := Option.ite_none_right_eq_some.mp hstep
    obtain rfl := Option.some.inj hstep
    simp only [Inv, hpc] at h
    obtain ⟨hsocket, hdaemon, hnone, hget⟩ := h
    refine ⟨hsocket, ?_⟩
    show if s.createDaemon = true then _ else _
    rw [if_pos hdaemon]
    refine ⟨hnone, fun i => ?_⟩
    rw [Descriptors.get_close, hget, redirected_concat (by simp)]
  case h_17 => simp at hstep
  all_goals
    obtain rfl := Option.some.inj hstep
    trivial

theorem inv_of_run (hrun : lts.run (start createDaemon usesCharDevice fds₀) es = some s) :
    Inv fds₀ es s := by
  have hstart : Inv fds₀ [] (start createDaemon usesCharDevice fds₀) :=
    ⟨by simp [Before], fun fd => rfl⟩
  exact Lts.run_induction (P := Inv fds₀) hstart (fun _ _ _ _ _ h hstep => h.step hstep) hrun

/-- What a step does to all but the descriptors. -/
theorem step_outcome (hstep : s.step call = some s') :
    s'.createDaemon = s.createDaemon ∧ s'.usesCharDevice = s.usesCharDevice ∧
      (call.Fails = true ↔ s'.pc = .cleanup) ∧
      (s.pc = .cleanup ∧ s'.pc = .returned ∧ s'.dataFileRemoved = !s.usesCharDevice ∨
        s.pc ≠ .cleanup ∧ s.pc ≠ .returned ∧ s'.pc ≠ .returned ∧
          s'.dataFileRemoved = s.dataFileRemoved) := by
  unfold Startup.step at hstep
  split at hstep
  case h_3 ok hpc =>
    obtain rfl := Option.some.inj hstep
    cases ok <;> simp [goOn, StartupCall.Fails, hpc]
  case h_4 ok hpc =>
    obtain rfl := Option.some.inj hstep
    cases ok <;> simp [goOn, StartupCall.Fails, hpc]
  case h_5 ok hpc =>
    obtain rfl := Option.some.inj hstep
    cases ok <;> cases hdaemon : s.createDaemon <;>
      simp [goOn, StartupCall.Fails, hpc, hdaemon]
  case h_7 child hpc =>
    obtain rfl := Option.some.inj hstep
    cases child <;> simp [StartupCall.Fails, hpc]
  case h_9 ok hpc =>
    obtain rfl := Option.some.inj hstep
    cases ok <;> simp [goOn, StartupCall.Fails, hpc]
  case h_10 ok hpc =>
    obtain rfl := Option.some.inj hstep
    cases ok <;> simp [goOn, StartupCall.Fails, hpc]
  case h_13 n fd hpc =>
    obtain ⟨rfl, hstep⟩ := Option.ite_none_right_eq_some.mp hstep
    obtain rfl := Option.some.inj hstep
    by_cases hlast : fd < 2 <;> simp [StartupCall.Fails, hpc, hlast]
  case h_14 n fd ok hpc =>
    obtain ⟨⟨rfl, -⟩, hstep⟩ := Option.ite_none_right_eq_some.mp hstep
    obtain rfl := Option.some.inj hstep
    by_cases hlast : fd < 2 <;> simp [StartupCall.Fails, hpc, hlast]
  case h_15 fd hpc =>
    obtain ⟨rfl, hstep⟩ := Option.ite_none_right_eq_some.mp hstep
    obtain rfl := Option.some.inj hstep
    simp [StartupCall.Fails, hpc]
  case h_17 => simp at hstep
  all_goals
    next hpc =>
    obtain rfl := Option.some.inj hstep
    simp [StartupCall.Fails, hpc]

/-- A start fails just if a call does that is looked at, and the data file is removed by a start
    that has failed. -/
theorem outcome_of_run (hrun : lts.run (start createDaemon usesCharDevice fds₀) es = some s) :
    s.createDaemon = createDaemon ∧ s.usesCharDevice = usesCharDevice ∧
      ((∃ call ∈ es, call.Fails = true) ↔ s.pc = .cleanup ∨ s.pc = .returned) ∧
      (s.dataFileRemoved = true ↔ s.pc = .returned ∧ usesCharDevice = false) := by
  refine Lts.run_induction (P := fun es s => s.createDaemon = createDaemon ∧
    s.usesCharDevice = usesCharDevice ∧
      ((∃ call ∈ es, call.Fails = true) ↔ s.pc = .cleanup ∨ s.pc = .returned) ∧
      (s.dataFileRemoved = true ↔ s.pc = .returned ∧ usesCharDevice = false))
    ⟨rfl, rfl, by simp [start], by simp [start]⟩ (fun es s call s' _ ih hstep => ?_) hrun
  obtain ⟨hdaemon, hdevice, hfails, hremoved⟩ := ih
  obtain ⟨hdaemon', hdevice', hfails', hpc⟩ := step_outcome hstep
  have hsplit : (∃ c ∈ es ++ [call], c.Fails = true) ↔
      (∃ c ∈ es, c.Fails = true) ∨ call.Fails = true := by
    simp [or_and_right, exists_or]
  refine ⟨hdaemon'.trans hdaemon, hdevice'.trans hdevice, ?_, ?_⟩
  · rw [hsplit, hfails, hfails']
    rcases hpc with ⟨hpc, hpc', -⟩ | ⟨hpc, hpc', hpc'', -⟩
    · simp [hpc, hpc']
    · simp [hpc, hpc', hpc'']
  · rcases hpc with ⟨hpc, hpc', hfile⟩ | ⟨hpc, hpc', hpc'', hfile⟩
    · rw [hfile, hdevice, hpc']
      simp
    · rw [hfile, hremoved]
      simp [hpc', hpc'']

theorem stdOpen_iff : StdOpen fds₀ ↔ 3 ≤ fds₀.lowest := by
  constructor
  · intro h
    by_contra hlt
    have hsome := h fds₀.lowest (by omega)
    rw [Descriptors.get_lowest] at hsome
    simp at hsome
  · intro hle fd hfd
    rw [Option.isSome_iff_ne_none]
    intro hnone
    have := Descriptors.lowest_le hnone
    omega

theorem withSocket_lowest (fds₀ : Descriptors Nat) :
    withSocket fds₀ fds₀.lowest = some .socket := if_pos rfl

/-- For every start, whatever its calls return: it comes to `cleanup` just if a call fails that
    is looked at, and then it removes the data file in the build that has one. In the accept loop
    the server listens, but a daemon does so only if the standard descriptors were all open at
    its start. If they were, they stand for `/dev/null` then, where `dup2` succeeded, and apart
    from them there is what was open before and the socket. -/
theorem startup_outcome (hrun : lts.run (start createDaemon usesCharDevice fds₀) es = some s) :
    ((∃ call ∈ es, call.Fails = true) ↔ s.pc = .cleanup ∨ s.pc = .returned) ∧
    (s.dataFileRemoved = true ↔ s.pc = .returned ∧ usesCharDevice = false) ∧
    (s.pc = .acceptLoop →
      (s.Listens ↔ (createDaemon = true → StdOpen fds₀)) ∧
      ((createDaemon = true → StdOpen fds₀) → ∀ fd, s.fds.get fd =
        if createDaemon = true ∧ fd < 3 then
          if .dup2 fd true ∈ es then some .devNull else none
        else withSocket fds₀ fd)) := by
  obtain ⟨hdaemon, -, hfails, hremoved⟩ := outcome_of_run hrun
  refine ⟨hfails, hremoved, fun hpc => ?_⟩
  have hinv := inv_of_run hrun
  simp only [Inv, hpc, hdaemon] at hinv
  obtain ⟨hsocket, hget⟩ := hinv
  have hlistens : s.Listens ↔ s.fds.get fds₀.lowest = some .socket := by
    simp [Listens, hsocket]
  rw [hlistens]
  cases createDaemon with
  | false =>
    rw [if_neg (by simp)] at hget
    simp [hget, withSocket_lowest]
  | true =>
    rw [if_pos rfl] at hget
    obtain ⟨hnone, hget⟩ := hget
    have hne : fds₀.lowest ≠ s.devnull := by
      intro heq
      rw [← heq, withSocket_lowest] at hnone
      simp at hnone
    simp only [true_imp_iff, true_and]
    rw [stdOpen_iff, hget, if_neg hne, redirected, if_neg hne]
    constructor
    · -- below 3 the socket is closed with the standard descriptors
      by_cases hlt : fds₀.lowest < 3
      · rw [if_pos hlt]
        refine iff_of_false ?_ (by omega)
        split <;> simp
      · rw [if_neg hlt]
        exact iff_of_true (withSocket_lowest fds₀) (by omega)
    · intro hle fd
      rw [hget]
      by_cases hfd : fd = s.devnull
      · -- `/dev/null` came above the standard descriptors
        have hge : ¬ fd < 3 := by
          intro hlt
          have hin := stdOpen_iff.mpr hle fd hlt
          rw [hfd] at hin hlt
          rw [withSocket, if_neg (Ne.symm hne)] at hnone
          simp [Option.map_eq_none_iff.mp hnone] at hin
        rw [if_pos hfd, if_neg hge, hfd, hnone]
      · rw [if_neg hfd, redirected, if_neg hfd]

/-- A daemon that was started with its standard input closed. -/
def closedStdin : Descriptors Nat where
  get fd := if fd = 1 ∨ fd = 2 then some fd else none
  bound := 3
  unused fd hfd := by
    rw [if_neg]
    omega

theorem startup_outcome_closedStdin :
    ∃ s, lts.run (start true true closedStdin)
        [.socket true, .setsockopt true, .bind true, .listen true, .fork (some true), .setsid true,
          .chdir true, .openDevNull true, .close 0, .close 1, .close 2, .dup2 0 true, .dup2 1 true,
          .dup2 2 true, .close 3] = some s ∧
      s.pc = .acceptLoop ∧ ¬ s.Listens := by
  obtain ⟨s, hrun, hpc⟩ : ∃ s, lts.run (start true true closedStdin)
        [.socket true, .setsockopt true, .bind true, .listen true, .fork (some true), .setsid true,
          .chdir true, .openDevNull true, .close 0, .close 1, .close 2, .dup2 0 true, .dup2 1 true,
          .dup2 2 true, .close 3] = some s ∧ s.pc = .acceptLoop :=
    ⟨Option.get _ (by decide), (Option.some_get _).symm, by decide⟩
  refine ⟨s, hrun, hpc, fun hlistens => ?_⟩
  have hopen := ((startup_outcome hrun).2.2 hpc).1.mp hlistens rfl 0 (by omega)
  exact absurd hopen (by decide)

end Startup

end Aesd
