import Aesd.Spec.DriverStep

/-!
# The device is a function of the written stream

As long as writes succeed, the device keeps the newest ten lines of everything written so
far, and the part after the last newline as pending bytes (`commands_of_stream`). Where the
stream was cut into calls, by whom, and what else was called in between does not matter.
-/

namespace Aesd

/-- The commands a device keeps of a written stream: the newest ten of its lines. -/
def keptLines (s : List UInt8) : List (List UInt8) :=
  (commandLines s).rtake maxWriteOperationsSupported

/-- The bytes a call writes. -/
def Op.written : Op → List UInt8
  | .write _ data _ => data
  | _ => []

/-- Everything a sequence of calls writes. -/
def writtenBy (cs : List (Op × Ret)) : List UInt8 := cs.flatMap fun c => c.1.written

/-- A call that returns its count if it is a write. -/
def ReturnsCount (c : Op × Ret) : Prop :=
  ∀ fd data out, c.1 = .write fd data out → c.2.val = data.length

theorem writtenBy_concat (cs : List (Op × Ret)) (c : Op × Ret) :
    writtenBy (cs ++ [c]) = writtenBy cs ++ c.1.written := by
  simp [writtenBy]

/-! ### The kept lines of a longer stream -/

theorem keptLines_append (s data : List UInt8) :
    (keptLines s ++ commandLines (commandRest s ++ data)).rtake 10 = keptLines (s ++ data) := by
  rw [keptLines, List.rtake_rtake_append, keptLines, ← Lines.lines_append]

theorem keptLines_length_le (s : List UInt8) : (keptLines s).length ≤ 10 := by
  rw [keptLines, List.length_rtake]
  exact Nat.min_le_left _ _

namespace Driver

variable {K : Kernel} {d d' : Driver} {s : List UInt8}

/-- The device holds what a stream leaves behind. -/
structure Holds (d : Driver) (s : List UInt8) : Prop where
  commands_eq : d.commands = keptLines s
  pending_eq : d.pending = commandRest s

theorem Holds.init (K : Kernel) : aesdInitModule.Holds [] := by
  obtain ⟨-, cmds, pend, hdev, hcmds, hpend⟩ := (Inv.init K).exists_owned
  exact ⟨(DevInv.init K).commands_eq _, (DevInv.init K).pending_eq _⟩

theorem Holds.congr (h : d.Holds s) (hheap : d'.heap = d.heap) (hdev : d'.dev = d.dev) :
    d'.Holds s := by
  refine ⟨?_, ?_⟩
  · rw [← h.commands_eq, commands, commands, hheap, hdev]
  · rw [← h.pending_eq, pending, pending, hheap, hdev]

/-- One call that returns its count adds what it writes to the stream. -/
theorem Holds.step (h : d.Holds s) (hinv : d.Inv K) {op : Op} {r : Ret}
    (hstep : Driver.step K d op = some (r, d')) (hcount : ReturnsCount (op, r)) :
    d'.Holds (s ++ op.written) := by
  obtain ⟨-, heff⟩ := hinv.effect hstep
  cases heff with
  | @stored fd data out _ htakes hres =>
    rw [h.commands_eq, h.pending_eq] at hres
    generalize hc : d'.commands = commands, hp : d'.pending = pend at hres
    cases hres with
    | stored hgrants hcopied hgranted =>
      refine ⟨?_, ?_⟩
      · rw [hc, keptLines_append]; rfl
      · rw [hp]; exact (Lines.rest_append s data).symm
  | failed htakes hres hfiles =>
    have := hcount _ _ _ rfl
    simp only at this
    omega
  | rejected hr _ =>
    cases op with
    | write fd data out =>
      have := hcount _ _ _ rfl
      rcases hr with rfl | rfl <;> simp only [ebadf, efault] at this <;> omega
    | _ => simpa [Op.written] using h
  | kept hop hheap hdev =>
    cases op with
    | write fd data out => exact absurd rfl (hop fd data out)
    | _ => simpa [Op.written] using h.congr hheap hdev

/-- A run of calls that return their counts leaves what its stream leaves. -/
theorem Holds.of_run {cs : List (Op × Ret)} (hrun : (lts K).run aesdInitModule cs = some d)
    (hcount : ∀ c ∈ cs, ReturnsCount c) : d.Holds (writtenBy cs) := by
  refine Lts.run_induction (P := fun cs d => (∀ c ∈ cs, ReturnsCount c) → d.Holds (writtenBy cs))
    (fun _ => Holds.init K) ?_ hrun hcount
  intro cs d c d' hcs ih hstep hcount
  rw [writtenBy_concat]
  exact (ih fun c hc => hcount c (List.mem_append_left _ hc)).step (inv_of_run hcs)
    (Lts.ofCalls_step_eq_some.mp hstep) (hcount c (by simp))

/-- Any calls can be made after `aesd_init_module`. When the writes among them all return
    their counts, the commands kept are the newest ten lines of the written stream, each with
    its size, and the pending bytes are what follows its last newline. -/
theorem commands_of_stream (K : Kernel) (ops : List Op) :
    ∃ cs d, cs.map Prod.fst = ops ∧ (lts K).run aesdInitModule cs = some d ∧
      ((∀ c ∈ cs, ReturnsCount c) →
        d.commands = keptLines (writtenBy cs) ∧
        d.dev.buff.entries.map (·.size) = (keptLines (writtenBy cs)).map List.length ∧
        d.dev.bytesStored = (commandRest (writtenBy cs)).length ∧
        loadBytes d.heap d.dev.partialWriteBuff 0 d.dev.bytesStored =
          some (commandRest (writtenBy cs))) := by
  obtain ⟨cs, d, hops, hrun⟩ := exists_run K ops
  refine ⟨cs, d, hops, hrun, fun hcount => ?_⟩
  have hinv := inv_of_run hrun
  have hholds := Holds.of_run hrun hcount
  obtain ⟨-, cmds, pend, hdev, hcmds, hpend⟩ := hinv.exists_owned
  refine ⟨hholds.commands_eq, ?_, ?_, ?_⟩
  · rw [hinv.sizes_eq, hholds.commands_eq]
  · rw [hdev.bytesStored_eq, ← hpend, hholds.pending_eq]
  · rw [hinv.loadBytes_pending, hholds.pending_eq]

end Driver

end Aesd
