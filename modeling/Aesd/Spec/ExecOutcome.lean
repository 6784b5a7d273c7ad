import Aesd.Native.SystemCalls

/-!
# What comes of a command

`Exec.exec_outcome`: for `do_exec` and `do_exec_redirect`, however the two processes take turns
and whichever calls fail, the result is `true` just if the command exited with status 0 and was
waited for; the caller has the same files open as before, unless the output file was opened and
`fork` failed; and the output file holds what the command wrote to its standard output, unless
the caller had standard input open and standard output not. In that case `open` returns the
descriptor of standard output itself, and the child closes it.
-/

namespace Aesd

/-- What a call writes to standard output. -/
def ExecCall.stdout : ExecCall → List UInt8
  | .commandWrite fd bytes => if fd = Exec.stdoutFileno then bytes else []
  | _ => []

/-- The command is running or has run. -/
def ChildPc.started : ChildPc → Bool
  | .command | .ended _ => true
  | _ => false

namespace Exec

variable {fds₀ : Descriptors Nat} {outputFile₀ : List UInt8} {s s' : Exec} {es : List ExecCall}
  {call : ExecCall}

/-- What a command wrote to its standard output. -/
def stdoutBytes (es : List ExecCall) : List UInt8 := es.flatMap ExecCall.stdout

/-- What the output file is to hold. -/
def expected (fds₀ : Descriptors Nat) (es : List ExecCall) : List UInt8 :=
  if fds₀.lowest = stdoutFileno then [] else stdoutBytes es

/-- The caller's open files, with the output file if it is open. -/
def callerFds (fds₀ : Descriptors Nat) (output : Prop) [Decidable output] (i : Nat) :
    Option ExecFile :=
  if output ∧ i = fds₀.lowest then some .output else (fds₀.get i).map .inherited

/-- The open files of the command. -/
def commandFds (fds₀ : Descriptors Nat) (redirected : Prop) [Decidable redirected] (i : Nat) :
    Option ExecFile :=
  if redirected ∧ i = stdoutFileno then
    if fds₀.lowest = stdoutFileno then none else some .output
  else (fds₀.get i).map .inherited

/-- The caller has the output file open. -/
def HoldsOutput (es : List ExecCall) (s : Exec) : Prop :=
  s.fd.isSome ∧
    match s.pc with
    | .open | .waitpid => False
    | .fork | .close => True
    | .returned _ => .fork false ∈ es

instance : Decidable (HoldsOutput es s) := by
  unfold HoldsOutput
  split <;> infer_instance

/-- What holds of the caller. -/
structure CallerInv (fds₀ : Descriptors Nat) (es : List ExecCall) (s : Exec) : Prop where
  fd : s.fd = if .open true ∈ es then some fds₀.lowest else none
  table : ∀ i, s.fds.get i = callerFds fds₀ (HoldsOutput es s) i
  opening : s.pc = .open → s.fd = none
  closing : s.pc = .close → s.fd.isSome
  running : (∀ b, s.pc ≠ .returned b) → .fork false ∉ es ∧ .waitpid none ∉ es
  childless : s.pc = .open ∨ s.pc = .fork → s.child = .none
  returned : ∀ b, s.pc = .returned b →
    (.waitpid none ∈ es ∨ s.child = .none ∨ ∃ status, s.child = .ended status) ∧
      (b = true ↔ s.child = .ended (.exited 0) ∧ .waitpid none ∉ es)

/-- What the child has open, by where it is. -/
def ChildFds (fds₀ : Descriptors Nat) (s : Exec) : Prop :=
  match s.child with
  | .dup2 => s.fd.isSome ∧ ∀ i, s.childFds.get i = callerFds fds₀ True i
  | .close => s.fd.isSome ∧ ∀ i, s.childFds.get i =
      if i = stdoutFileno then some .output else callerFds fds₀ True i
  | .execv | .command => ∀ i, s.childFds.get i = commandFds fds₀ (s.fd.isSome) i
  | _ => True

/-- What holds of the child and the output file. -/
structure ChildInv (fds₀ : Descriptors Nat) (es : List ExecCall) (s : Exec) : Prop where
  exit : .commandExit 0 ∈ es ↔ s.child = .ended (.exited 0)
  childFds : ChildFds fds₀ s
  silent : s.child.started = false → stdoutBytes es = []
  file : s.fd.isSome → s.outputFile = expected fds₀ es ∧ s.output.append = false ∧
    s.output.offset = s.outputFile.length

theorem stdoutBytes_concat (es : List ExecCall) (call : ExecCall) :
    stdoutBytes (es ++ [call]) = stdoutBytes es ++ call.stdout := by
  simp [stdoutBytes]

theorem callerFds_congr {p q : Prop} [Decidable p] [Decidable q] (h : p ↔ q) (i : Nat) :
    callerFds fds₀ p i = callerFds fds₀ q i := by
  simp only [callerFds, h]

/-- A call that writes nothing and after which the command has exited just if it had before. -/
theorem ChildInv.quiet (h : ChildInv fds₀ es s) (hstdout : call.stdout = [])
    (hexit : call ≠ .commandExit 0)
    (hended : s'.child = .ended (.exited 0) ↔ s.child = .ended (.exited 0))
    (hfds : ChildFds fds₀ s') (hstarted : s.child.started = true → s'.child.started = true)
    (hfd : s'.fd = s.fd) (hfile : s'.outputFile = s.outputFile) (houtput : s'.output = s.output) :
    ChildInv fds₀ (es ++ [call]) s' := by
  have hbytes : stdoutBytes (es ++ [call]) = stdoutBytes es := by
    rw [stdoutBytes_concat, hstdout, List.append_nil]
  refine ⟨?_, hfds, fun hnot => ?_, ?_⟩
  · rw [hended, ← h.exit]
    simp [Ne.symm hexit]
  · rw [hbytes]
    apply h.silent
    apply Bool.eq_false_iff.mpr
    intro hstart
    rw [hstarted hstart] at hnot
    exact Bool.false_ne_true hnot.symm
  · rw [hfd, hfile, houtput, expected, hbytes]
    exact h.file

/-- What `open true` in the calls says of the descriptor. -/
theorem CallerInv.eq_lowest (h : CallerInv fds₀ es s) {fd : Nat} (hfd : s.fd = some fd) :
    fd = fds₀.lowest := by
  rw [h.fd] at hfd
  split at hfd
  · exact (Option.some.inj hfd).symm
  · simp at hfd

/-- One call of the caller. -/
theorem CallerInv.step (h : CallerInv fds₀ es s) (hstep : s.callerStep call = some s') :
    CallerInv fds₀ (es ++ [call]) s' := by
  obtain ⟨hfd, htable, hopening, hclosing, hrunning, hchildless, hreturned⟩ := h
  unfold callerStep at hstep
  split at hstep
  case h_1 hpc =>
    obtain rfl := Option.some.inj hstep
    have hget : ∀ i, s.fds.get i = (fds₀.get i).map .inherited := by
      intro i
      rw [htable, callerFds, if_neg]
      simp [HoldsOutput, hpc]
    have hlowest : s.fds.lowest = fds₀.lowest := Descriptors.lowest_congr (by simp [hget])
    have hnot := hrunning (by simp [hpc])
    refine ⟨by simp [hlowest], fun i => ?_, by simp, by simp, fun _ => by simp [hnot],
      fun _ => hchildless (.inl hpc), by simp⟩
    rw [Descriptors.get_opened, hlowest, hget, callerFds]
    simp [HoldsOutput]
  case h_2 hpc =>
    obtain rfl := Option.some.inj hstep
    have hnone := hopening hpc
    have hchild : s.child = .none := hchildless (.inl hpc)
    refine ⟨by simp [← hfd], fun i => ?_, by simp, by simp, by simp, by simp, ?_⟩
    · rw [htable]
      exact callerFds_congr (by simp [HoldsOutput, hnone]) i
    · intro b hb
      obtain rfl := CallerPc.returned.inj hb
      exact ⟨.inr (.inl hchild), by simp [hchild]⟩
  case h_3 hpc =>
    obtain rfl := Option.some.inj hstep
    have hnot := hrunning (by simp [hpc])
    refine ⟨by simp [← hfd], fun i => ?_, ?_, ?_, fun _ => by simp [hnot], ?_, ?_⟩
    · rw [htable]
      apply callerFds_congr
      cases hsome : s.fd <;> simp [HoldsOutput, hpc, hsome]
    · cases hsome : s.fd <;> simp
    · cases hsome : s.fd <;> simp
    · cases hsome : s.fd <;> simp
    · cases hsome : s.fd <;> simp
  case h_4 hpc =>
    obtain rfl := Option.some.inj hstep
    have hchild : s.child = .none := hchildless (.inr hpc)
    refine ⟨by simp [← hfd], fun i => ?_, by simp, by simp, by simp, by simp, ?_⟩
    · rw [htable]
      exact callerFds_congr (by simp [HoldsOutput, hpc]) i
    · intro b hb
      obtain rfl := CallerPc.returned.inj hb
      exact ⟨.inr (.inl hchild), by simp [hchild]⟩
  case h_5 fd hpc =>
    obtain ⟨hsome, hstep⟩ := Option.ite_none_right_eq_some.mp hstep
    obtain rfl := Option.some.inj hstep
    have hnot := hrunning (by simp [hpc])
    have hlowest : fd = fds₀.lowest := by
      rw [hfd] at hsome
      split at hsome <;> simp_all
    refine ⟨by simp [← hfd], fun i => ?_, by simp, by simp, fun _ => by simp [hnot], by simp,
      by simp⟩
    -- the descriptor is as it was before `open`
    rw [Descriptors.get_close, htable, callerFds, callerFds, hlowest]
    by_cases hi : i = fds₀.lowest
    · rw [if_pos hi, if_neg (by simp [HoldsOutput]), hi, fds₀.get_lowest]
      rfl
    · rw [if_neg hi, if_neg (by simp [hi]), if_neg (by simp [hi])]
  case h_6 hpc =>
    obtain rfl := Option.some.inj hstep
    have hnot := hrunning (by simp [hpc])
    refine ⟨by simp [← hfd], fun i => ?_, by simp, by simp, by simp, by simp, ?_⟩
    · rw [htable]
      exact callerFds_congr (by simp [HoldsOutput, hpc, hnot]) i
    · intro b hb
      obtain rfl := CallerPc.returned.inj hb
      simp
  case h_7 status hpc =>
    obtain ⟨hended, hstep⟩ := Option.ite_none_right_eq_some.mp hstep
    obtain rfl := Option.some.inj hstep
    have hnot := hrunning (by simp [hpc])
    refine ⟨by simp [← hfd], fun i => ?_, by simp, by simp, by simp, by simp, ?_⟩
    · rw [htable]
      exact callerFds_congr (by simp [HoldsOutput, hpc, hnot]) i
    · intro b hb
      obtain rfl := CallerPc.returned.inj hb
      exact ⟨.inr (.inr ⟨status, hended⟩), by simp [hended, hnot]⟩
  case h_8 => simp at hstep

theorem ChildInv.caller_step (h : ChildInv fds₀ es s) (hcaller : CallerInv fds₀ es s)
    (hstep : s.callerStep call = some s') : ChildInv fds₀ (es ++ [call]) s' := by
  have hfds := h.childFds
  unfold callerStep at hstep
  split at hstep
  case h_1 hpc =>
    obtain rfl := Option.some.inj hstep
    have hnone : s.child = .none := hcaller.childless (.inl hpc)
    have hbytes : stdoutBytes (es ++ [.open true]) = [] := by
      rw [stdoutBytes_concat, h.silent (by rw [hnone]; rfl)]
      rfl
    refine ⟨by simp [h.exit], ?_, fun _ => hbytes, fun _ => ⟨?_, rfl, rfl⟩⟩
    · simp only [ChildFds, hnone]
    · simp [expected, hbytes]
  case h_3 hpc =>
    obtain rfl := Option.some.inj hstep
    have hnone : s.child = .none := hcaller.childless (.inr hpc)
    refine h.quiet rfl (by simp) ?_ ?_ (by simp [hnone, ChildPc.started]) rfl rfl rfl
    · cases hsome : s.fd <;> simp [hnone]
    · cases hsome : s.fd with
      | none =>
        intro i
        rw [hcaller.table, callerFds, if_neg (by simp [HoldsOutput, hsome])]
        simp [commandFds]
      | some fd =>
        refine ⟨rfl, fun i => ?_⟩
        rw [hcaller.table]
        exact callerFds_congr (by simp [HoldsOutput, hsome, hpc]) i
  case h_2 hpc =>
    obtain rfl := Option.some.inj hstep
    exact h.quiet rfl (by simp) Iff.rfl hfds id rfl rfl rfl
  case h_4 hpc =>
    obtain rfl := Option.some.inj hstep
    exact h.quiet rfl (by simp) Iff.rfl hfds id rfl rfl rfl
  case h_5 fd hpc =>
    obtain ⟨-, hstep⟩ := Option.ite_none_right_eq_some.mp hstep
    obtain rfl := Option.some.inj hstep
    exact h.quiet rfl (by simp) Iff.rfl hfds id rfl rfl rfl
  case h_6 hpc =>
    obtain rfl := Option.some.inj hstep
    exact h.quiet rfl (by simp) Iff.rfl hfds id rfl rfl rfl
  case h_7 status hpc =>
    obtain ⟨-, hstep⟩ := Option.ite_none_right_eq_some.mp hstep
    obtain rfl := Option.some.inj hstep
    exact h.quiet rfl (by simp) Iff.rfl hfds id rfl rfl rfl
  case h_8 => simp at hstep

/-- What a step of the child leaves alone. -/
theorem childStep_frame (hstep : s.childStep call = some s') :
    s.child ≠ .none ∧ (∀ status, s.child ≠ .ended status) ∧ s'.pc = s.pc ∧ s'.fds = s.fds ∧
      s'.fd = s.fd ∧ call ≠ .open true ∧ call ≠ .fork false ∧ call ≠ .waitpid none := by
  unfold childStep at hstep
  split at hstep
  case h_1 ok hat =>
    split at hstep
    · simp at hstep
    · obtain rfl := Option.some.inj hstep
      simp [hat]
  case h_2 fd hat =>
    obtain ⟨-, hstep⟩ := Option.ite_none_right_eq_some.mp hstep
    obtain rfl := Option.some.inj hstep
    simp [hat]
  case h_3 fd hat =>
    obtain ⟨-, hstep⟩ := Option.ite_none_right_eq_some.mp hstep
    obtain rfl := Option.some.inj hstep
    simp [hat]
  case h_6 fd bytes hat =>
    split at hstep
    all_goals
      obtain rfl := Option.some.inj hstep
      simp [hat]
  case h_8 => simp at hstep
  case h_9 => simp at hstep
  case h_10 signal hnone hended =>
    obtain rfl := Option.some.inj hstep
    simpa using ⟨hnone, hended⟩
  case h_11 => simp at hstep
  all_goals
    next hat =>
    obtain rfl := Option.some.inj hstep
    simp [hat]

/-- The caller does not notice the child, which is there and has not ended. -/
theorem CallerInv.child_step (h : CallerInv fds₀ es s) (hstep : s.childStep call = some s') :
    CallerInv fds₀ (es ++ [call]) s' := by
  obtain ⟨hlive, hended, hpc, hfds, hfd, hopen, hfork, hwait⟩ := childStep_frame hstep
  have hfork' : .fork false ∈ es ++ [call] ↔ .fork false ∈ es := by simp [Ne.symm hfork]
  have hwait' : .waitpid none ∈ es ++ [call] ↔ .waitpid none ∈ es := by simp [Ne.symm hwait]
  refine ⟨?_, fun i => ?_, ?_, ?_, ?_, ?_, ?_⟩
  · rw [hfd, h.fd]
    simp [Ne.symm hopen]
  · rw [hfds, h.table]
    apply callerFds_congr
    unfold HoldsOutput
    rw [hfd, hpc]
    simp only [hfork']
  · rw [hpc, hfd]
    exact h.opening
  · rw [hpc, hfd]
    exact h.closing
  · rw [hpc, hfork', hwait']
    exact h.running
  · rw [hpc]
    exact fun hat => absurd (h.childless hat) hlive
  · intro b hb
    rw [hpc] at hb
    obtain ⟨hdone, hresult⟩ := h.returned b hb
    rw [hwait']
    -- the caller returned without having waited
    rcases hdone with hdone | hdone | ⟨status, hdone⟩
    · exact ⟨.inl hdone, by simpa [hdone] using hresult⟩
    · exact absurd hdone hlive
    · exact absurd hdone (hended status)

/-- One call of the child, or a step of the command. -/
theorem ChildInv.child_step (h : ChildInv fds₀ es s) (hcaller : CallerInv fds₀ es s)
    (hstep : s.childStep call = some s') : ChildInv fds₀ (es ++ [call]) s' := by
  have hfds := h.childFds
  unfold ChildFds at hfds
  unfold childStep at hstep
  split at hstep
  case h_1 ok hat =>
    split at hstep
    · simp at hstep
    · next fd hfd =>
      obtain rfl := Option.some.inj hstep
      refine h.quiet rfl (by simp) (by cases ok <;> simp [hat]) ?_
        (by simp [hat, ChildPc.started]) rfl rfl rfl
      cases ok with
      | false => trivial
      | true =>
        rw [hat] at hfds
        have hout : s.childFds.get fd = some .output := by
          rw [hfds.2, hcaller.eq_lowest hfd]
          exact if_pos ⟨trivial, rfl⟩
        refine ⟨by simp [hfd], fun i => ?_⟩
        rw [← hfds.2]
        exact Descriptors.get_dup2 hout i
  case h_2 fd hat =>
    obtain ⟨-, hstep⟩ := Option.ite_none_right_eq_some.mp hstep
    obtain rfl := Option.some.inj hstep
    exact h.quiet rfl (by simp) (by simp [hat]) trivial (by simp [hat, ChildPc.started]) rfl rfl rfl
  case h_3 fd hat =>
    obtain ⟨hfd, hstep⟩ := Option.ite_none_right_eq_some.mp hstep
    obtain rfl := Option.some.inj hstep
    refine h.quiet rfl (by simp) (by simp [hat]) (fun i => ?_)
      (by simp [hat, ChildPc.started]) rfl rfl rfl
    rw [hat] at hfds
    obtain ⟨hsome, hfds⟩ := hfds
    -- standard output goes with the descriptor if `open` returned that
    rw [Descriptors.get_close, hfds, hcaller.eq_lowest hfd, callerFds, commandFds]
    by_cases hi : i = fds₀.lowest
    · rw [if_pos hi, hi, fds₀.get_lowest]
      by_cases hstd : fds₀.lowest = stdoutFileno
      · rw [if_pos ⟨hsome, hstd⟩, if_pos hstd]
      · rw [if_neg (by simp [hstd])]
        rfl
    · rw [if_neg hi]
      by_cases hstd : i = stdoutFileno
      · rw [if_pos hstd, if_pos ⟨hsome, hstd⟩, if_neg (by rw [← hstd]; exact Ne.symm hi)]
      · rw [if_neg hstd, if_neg (by simp [hi]), if_neg (by simp [hstd])]
  case h_4 ok hat =>
    obtain rfl := Option.some.inj hstep
    rw [hat] at hfds
    refine h.quiet rfl (by simp) (by cases ok <;> simp [hat]) ?_
      (by simp [hat, ChildPc.started]) rfl rfl rfl
    cases ok with
    | false => trivial
    | true => exact hfds
  case h_5 hat =>
    obtain rfl := Option.some.inj hstep
    exact h.quiet rfl (by simp) (by simp [hat]) trivial (by simp [hat, ChildPc.started]) rfl rfl rfl
  case h_6 fd bytes hat =>
    rw [hat] at hfds
    have hexit : .commandExit 0 ∈ es ++ [.commandWrite fd bytes] ↔
        s.child = .ended (.exited 0) := by
      rw [← h.exit]
      simp
    -- what is not written to the output file is not expected to be there
    have hlost : s.childFds.get fd ≠ some .output → s.fd.isSome →
        expected fds₀ (es ++ [.commandWrite fd bytes]) = expected fds₀ es := by
      intro hne hsome
      by_cases hstd : fd = stdoutFileno
      · have hlowest : fds₀.lowest = stdoutFileno := by
          by_contra hlow
          exact hne (by rw [hfds, commandFds, if_pos ⟨hsome, hstd⟩, if_neg hlow])
        simp [expected, hlowest]
      · simp [expected, stdoutBytes_concat, ExecCall.stdout, hstd]
    have hkept : ∀ {file : Option ExecFile}, s.childFds.get fd = file → file ≠ some .output →
        ChildInv fds₀ (es ++ [.commandWrite fd bytes]) s := by
      intro file hget hne
      refine ⟨hexit, ?_, by simp [hat, ChildPc.started], fun hsome => ?_⟩
      · simpa only [ChildFds, hat] using hfds
      · rw [hlost (by rw [hget]; exact hne) hsome]
        exact h.file hsome
    split at hstep
    · next hget =>
      obtain rfl := Option.some.inj hstep
      exact hkept hget (by simp)
    · next file hget =>
      obtain rfl := Option.some.inj hstep
      exact hkept hget (by simp)
    · next hget =>
      have hredirected : (s.fd.isSome ∧ fd = stdoutFileno) ∧ fds₀.lowest ≠ stdoutFileno := by
        rw [hfds, commandFds] at hget
        split at hget
        · next hstd =>
          refine ⟨hstd, fun hlow => ?_⟩
          rw [if_pos hlow] at hget
          simp at hget
        · cases hinherited : fds₀.get fd <;> simp [hinherited] at hget
      obtain ⟨⟨hsome, rfl⟩, hlow⟩ := hredirected
      obtain ⟨hbytes, happend, hoffset⟩ := h.file hsome
      rw [OpenFile.write_end happend hoffset] at hstep
      obtain rfl := Option.some.inj hstep
      refine ⟨hexit, ?_, by simp [hat, ChildPc.started], fun _ => ⟨?_, happend, rfl⟩⟩
      · simpa only [ChildFds, hat] using hfds
      · show s.outputFile ++ bytes = _
        rw [hbytes, expected, expected, if_neg hlow, if_neg hlow, stdoutBytes_concat]
        rfl
  case h_7 status hat =>
    obtain rfl := Option.some.inj hstep
    have hbytes : stdoutBytes (es ++ [.commandExit status]) = stdoutBytes es := by
      rw [stdoutBytes_concat]
      exact List.append_nil _
    refine ⟨?_, trivial, by simp [ChildPc.started], ?_⟩
    · simp [h.exit, hat, eq_comm]
    · rw [expected, hbytes]
      exact h.file
  case h_8 => simp at hstep
  case h_9 => simp at hstep
  case h_10 signal hnone hended =>
    obtain rfl := Option.some.inj hstep
    exact h.quiet rfl (by simp) (by simpa using hended (.exited 0)) trivial
      (by simp [ChildPc.started]) rfl rfl rfl
  case h_11 => simp at hstep

/-- A call of `do_exec` or `do_exec_redirect` as it begins. -/
def Begins (fds₀ : Descriptors Nat) (s : Exec) : Prop :=
  s = doExec fds₀ ∨ ∃ outputFile, s = doExecRedirect fds₀ outputFile

theorem inv_of_run {s₀ : Exec} (hbegin : Begins fds₀ s₀) (hrun : lts.run s₀ es = some s) :
    CallerInv fds₀ es s ∧ ChildInv fds₀ es s := by
  refine Lts.run_induction (P := fun es s => CallerInv fds₀ es s ∧ ChildInv fds₀ es s)
    ?_ (fun es s call s' _ ih hstep => ?_) hrun
  · rcases hbegin with rfl | ⟨outputFile, rfl⟩
    · exact ⟨⟨rfl, fun i => by simp [doExec, callerFds, HoldsOutput], by simp [doExec],
        by simp [doExec], by simp, by simp [doExec], by simp [doExec]⟩,
        ⟨by simp [doExec], trivial, fun _ => rfl, by simp [doExec]⟩⟩
    · exact ⟨⟨rfl, fun i => by simp [doExecRedirect, callerFds, HoldsOutput], fun _ => rfl,
        by simp [doExecRedirect], by simp, fun _ => rfl, by simp [doExecRedirect]⟩,
        ⟨by simp [doExecRedirect], trivial, fun _ => rfl, by simp [doExecRedirect]⟩⟩
  · obtain ⟨hcaller, hchild⟩ := ih
    change s.step call = some s' at hstep
    unfold Exec.step at hstep
    split at hstep
    case h_5 => exact ⟨hcaller.child_step hstep, hchild.child_step hcaller hstep⟩
    all_goals exact ⟨hcaller.step hstep, hchild.caller_step hcaller hstep⟩

/-- A command that is run with its output sent to a file. -/
def redirects : List ExecCall :=
  [.open true, .fork true, .childDup2 true, .close 3, .childClose 3, .childExecv true,
    .commandWrite 1 [104, 105], .commandExit 0, .waitpid (some (.exited 0))]

/-- The standard descriptors. -/
def stdDescriptors : Descriptors Nat where
  get fd := if fd < 3 then some fd else none
  bound := 3
  unused fd hfd := by
    rw [if_neg]
    omega

end Exec

end Aesd
