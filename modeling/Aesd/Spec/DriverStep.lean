import Aesd.Spec.WriteCorrect
import Aesd.Spec.ReadCorrect

/-!
# What one call does to the driver

`Driver.Effect` lists everything a system call can do: store a written buffer, fail to, or
leave heap and device alone. Every call on a driver in order is answered, with one of these
effects, and leaves the driver in order (`Driver.step_total`). So every sequence of calls
from `aesd_init_module` is a run, and what holds of its states follows from the effects.
-/

namespace Aesd

/-- The descriptor of a call. -/
def Op.fd : Op → Nat
  | .open fd | .release fd | .write fd _ _ | .read fd _ _ | .llseek fd _ _ | .ioctl fd _ _ _ => fd

namespace Driver

variable {K : Kernel} {d d' : Driver}

@[simp] theorem commands_setPos (d : Driver) (fd : Nat) (fPos : Int) :
    (d.setPos fd fPos).commands = d.commands := rfl

@[simp] theorem pending_setPos (d : Driver) (fd : Nat) (fPos : Int) :
    (d.setPos fd fPos).pending = d.pending := rfl

@[simp] theorem contents_setPos (d : Driver) (fd : Nat) (fPos : Int) :
    (d.setPos fd fPos).contents = d.contents := rfl

@[simp] theorem heap_setPos (d : Driver) (fd : Nat) (fPos : Int) :
    (d.setPos fd fPos).heap = d.heap := rfl

@[simp] theorem dev_setPos (d : Driver) (fd : Nat) (fPos : Int) :
    (d.setPos fd fPos).dev = d.dev := rfl

@[simp] theorem files_setPos_self (d : Driver) (fd : Nat) (fPos : Int) :
    (d.setPos fd fPos).files fd = some fPos := by
  simp [setPos]

theorem files_setPos_of_ne (d : Driver) {fd i : Nat} (fPos : Int) (h : i ≠ fd) :
    (d.setPos fd fPos).files i = d.files i := by
  simp [setPos, h]

/-- Storing back the position a file has changes nothing. -/
theorem setPos_of_files_eq {fd : Nat} {fPos : Int} (h : d.files fd = some fPos) :
    d.setPos fd fPos = d := by
  have hfiles : (fun i => if i = fd then some fPos else d.files i) = d.files := by
    funext i
    split
    · next hi => rw [hi, h]
    · rfl
  rw [setPos, hfiles]

@[simp] theorem setPos_setPos (d : Driver) (fd : Nat) (p q : Int) :
    (d.setPos fd p).setPos fd q = d.setPos fd q := by
  simp only [setPos, Driver.mk.injEq, true_and]
  funext i
  split <;> rfl

/-! ### The invariant, read through the pointers -/

namespace Inv

/-- A driver in order stores the commands its owned blocks hold. -/
theorem exists_owned (h : d.Inv K) :
    d.dev.buffLock = false ∧ ∃ cmds pend, DevInv K d.heap d.dev cmds pend ∧
      d.commands = cmds.map Prod.snd ∧ d.pending = pend := by
  obtain ⟨hlock, cmds, pend, hdev⟩ := h
  exact ⟨hlock, cmds, pend, hdev, hdev.commands_eq d.files, hdev.pending_eq d.files⟩

theorem commands_length_le (h : d.Inv K) : d.commands.length ≤ 10 := by
  obtain ⟨-, cmds, pend, hdev, hcmds, -⟩ := h.exists_owned
  simpa [hcmds] using hdev.commands_length_le

theorem isLine (h : d.Inv K) : ∀ c ∈ d.commands, Lines.IsLine isNewline c := by
  obtain ⟨-, cmds, pend, hdev, hcmds, -⟩ := h.exists_owned
  intro c hc
  rw [hcmds] at hc
  obtain ⟨o, ho, rfl⟩ := List.mem_map.mp hc
  exact hdev.owns.isLine o ho

/-- The sizes in the ring are the lengths of the stored commands. -/
theorem sizes_eq (h : d.Inv K) : d.dev.buff.entries.map (·.size) = d.commands.map List.length := by
  obtain ⟨-, cmds, pend, hdev, hcmds, -⟩ := h.exists_owned
  rw [hdev.ring.entries_eq, DevInv.sizes_eq, hcmds]

theorem loadBytes_pending (h : d.Inv K) :
    loadBytes d.heap d.dev.partialWriteBuff 0 d.dev.bytesStored = some d.pending := by
  obtain ⟨-, cmds, pend, hdev, -, hpend⟩ := h.exists_owned
  rw [hdev.loadBytes_pending, hpend]

theorem pending_length_le (h : d.Inv K) : d.pending.length ≤ K.kmallocMaxSize := by
  obtain ⟨-, cmds, pend, hdev, -, hpend⟩ := h.exists_owned
  rw [hpend]
  exact hdev.owns.holds.length_le

/-- Ten blocks of memory are well within the range of a file position. -/
theorem contents_length_lt (h : d.Inv K) : d.contents.length < 2 ^ 63 := by
  obtain ⟨-, cmds, pend, hdev, hcmds, -⟩ := h.exists_owned
  have hle : ∀ n ∈ (cmds.map Prod.snd).map List.length, n ≤ K.kmallocMaxSize := by
    simp only [List.map_map, List.mem_map]
    rintro _ ⟨c, hc, rfl⟩
    exact hdev.owns.length_le c hc
  have hsum := List.sum_le_card_nsmul _ _ hle
  have hmax := K.kmallocMaxSize_lt
  rw [contents, hcmds, List.length_flatten]
  simp only [List.length_map, Nat.nsmul_eq_mul] at hsum
  calc ((cmds.map Prod.snd).map List.length).sum ≤ cmds.length * K.kmallocMaxSize := hsum
    _ ≤ 10 * K.kmallocMaxSize := Nat.mul_le_mul_right _ hdev.commands_length_le
    _ < 2 ^ 63 := by omega

/-- File positions are no part of what the invariant speaks about. -/
theorem of_heap_dev_eq (h : d.Inv K) (hheap : d'.heap = d.heap) (hdev : d'.dev = d.dev) :
    d'.Inv K := by
  rw [Driver.Inv, hheap, hdev]
  exact h

end Inv

/-! ### Other descriptors -/

/-- A call changes the position of its own file only. -/
theorem step_files_of_ne {op : Op} {r : Ret} (hstep : step K d op = some (r, d')) {fd : Nat}
    (hne : fd ≠ op.fd) : d'.files fd = d.files fd := by
  cases op with
  | «open» fd' =>
    simp only [step] at hstep
    split at hstep <;> simp only [Option.some.injEq, Prod.mk.injEq] at hstep <;>
      obtain ⟨-, rfl⟩ := hstep
    · rfl
    · exact files_setPos_of_ne _ _ hne
  | release fd' =>
    simp only [step] at hstep
    split at hstep <;> simp only [Option.some.injEq, Prod.mk.injEq] at hstep <;>
      obtain ⟨-, rfl⟩ := hstep
    · exact if_neg hne
    · rfl
  | write fd' data out =>
    simp only [step] at hstep
    cases hfd : d.files fd' <;> simp only [hfd] at hstep
    · simp only [Option.some.injEq, Prod.mk.injEq] at hstep
      rw [hstep.2]
    · split at hstep
      · simp only [Option.bind_eq_bind, Option.bind_eq_some_iff, Option.some.injEq,
          Prod.mk.injEq] at hstep
        obtain ⟨x, -, -, rfl⟩ := hstep
        exact files_setPos_of_ne _ _ hne
      · simp only [Option.some.injEq, Prod.mk.injEq] at hstep
        rw [hstep.2]
  | _ fd' =>
    simp only [step] at hstep
    cases hfd : d.files fd' <;> simp only [hfd] at hstep
    · simp only [Option.some.injEq, Prod.mk.injEq] at hstep
      rw [hstep.2]
    · simp only [Option.bind_eq_bind, Option.bind_eq_some_iff, Option.some.injEq,
        Prod.mk.injEq] at hstep
      obtain ⟨x, -, -, rfl⟩ := hstep
      exact files_setPos_of_ne _ _ hne

/-- Only a release closes a file. -/
theorem step_files_isSome {op : Op} {r : Ret} (hstep : step K d op = some (r, d'))
    (hop : ∀ fd, op ≠ .release fd) {fd : Nat} (h : (d.files fd).isSome) :
    (d'.files fd).isSome := by
  by_cases hfd : fd = op.fd
  · subst hfd
    cases op with
    | «open» fd =>
      simp only [step, if_pos (show (d.files fd).isSome = true from h), Option.some.injEq,
        Prod.mk.injEq] at hstep
      rw [← hstep.2]
      exact h
    | release fd => exact absurd rfl (hop fd)
    | write fd data out =>
      obtain ⟨p, hp⟩ := Option.isSome_iff_exists.mp h
      simp only [step, show d.files fd = some p from hp] at hstep
      split at hstep
      · simp only [Option.bind_eq_bind, Option.bind_eq_some_iff, Option.some.injEq,
          Prod.mk.injEq] at hstep
        obtain ⟨x, -, -, rfl⟩ := hstep
        simp [Op.fd]
      · simp only [Option.some.injEq, Prod.mk.injEq] at hstep
        rw [← hstep.2]
        exact h
    | _ fd =>
      obtain ⟨p, hp⟩ := Option.isSome_iff_exists.mp h
      simp only [step, show d.files fd = some p from hp, Option.bind_eq_bind,
        Option.bind_eq_some_iff, Option.some.injEq, Prod.mk.injEq] at hstep
      obtain ⟨x, -, -, rfl⟩ := hstep
      simp [Op.fd]
  · rw [step_files_of_ne hstep hfd]
    exact h

/-! ### Effects -/

/-- A call that answers that it is not for the driver: no such file, or no such memory. -/
def Rejected (r : Ret) : Prop := r = ebadf ∨ r = efault

/-- A write of `data` reaches `aesd_write`: the file is open and the buffer lies in user
    memory. -/
def TakesWrite (d : Driver) (fd : Nat) (data : List UInt8) : Prop :=
  (d.files fd).isSome ∧ data.length < 2 ^ 63

/-- Everything a call can do to a driver `d`. -/
inductive Effect (K : Kernel) (d : Driver) : Op → Ret → Driver → Prop
  /-- An `aesd_write` that returned its count. -/
  | stored {fd : Nat} {data : List UInt8} {out : WriteOutcome} {d' : Driver} :
    d.TakesWrite fd data →
    WriteResult K out data d.commands d.pending true d'.commands d'.pending →
    Effect K d (.write fd data out) ⟨data.length, []⟩ d'
  /-- An `aesd_write` that failed. -/
  | failed {fd : Nat} {data : List UInt8} {out : WriteOutcome} {d' : Driver} :
    d.TakesWrite fd data →
    WriteResult K out data d.commands d.pending false d'.commands d'.pending →
    d'.files = d.files → Effect K d (.write fd data out) ⟨-1, []⟩ d'
  /-- A call that does not reach the driver. -/
  | rejected {op : Op} {r : Ret} : Rejected r →
    (∀ fd data out, op = .write fd data out → ¬ d.TakesWrite fd data) → Effect K d op r d
  /-- A call of any other operation. -/
  | kept {op : Op} {r : Ret} {d' : Driver} : (∀ fd data out, op ≠ .write fd data out) →
    d'.heap = d.heap → d'.dev = d.dev → Effect K d op r d'

namespace Inv

/-- Every call is answered, with one of the effects, and keeps the driver in order. -/
theorem step_total (h : d.Inv K) (op : Op) :
    ∃ r d', step K d op = some (r, d') ∧ d'.Inv K ∧ Effect K d op r d' := by
  obtain ⟨hlock, cmds, pend, hdev, hcmds, hpend⟩ := h.exists_owned
  cases op with
  | «open» fd =>
    simp only [step]
    split
    · exact ⟨_, _, rfl, h, .rejected (.inl rfl) (by simp)⟩
    · exact ⟨_, _, rfl, h.of_heap_dev_eq rfl rfl, .kept (by simp) rfl rfl⟩
  | release fd =>
    simp only [step]
    split
    · exact ⟨_, _, rfl, h.of_heap_dev_eq rfl rfl, .kept (by simp) rfl rfl⟩
    · exact ⟨_, _, rfl, h, .rejected (.inl rfl) (by simp)⟩
  | write fd data out =>
    simp only [step]
    cases hfd : d.files fd with
    | none =>
      refine ⟨_, _, rfl, h, .rejected (.inl rfl) ?_⟩
      rintro _ _ _ ⟨⟩ htakes
      simp [TakesWrite, hfd] at htakes
    | some fPos =>
      dsimp only
      by_cases hlen : data.length < 2 ^ 63
      · have htakes : d.TakesWrite fd data := ⟨by simp [hfd], hlen⟩
        obtain ⟨ok, fPos', heap', dev', cmds', pend', hwrite, hfPos, hlock', hdev', hres, -⟩ :=
          aesdWrite_spec hdev hlock hlen fPos out
        rw [← hcmds, ← hpend, ← hdev'.commands_eq (d.setPos fd fPos').files,
          ← hdev'.pending_eq (d.setPos fd fPos').files] at hres
        rw [if_pos hlen, hwrite, Option.bind_eq_bind, Option.bind_some]
        refine ⟨_, _, rfl, ⟨hlock', cmds', pend', hdev'⟩, ?_⟩
        cases ok with
        | false =>
          have hsame : (d.setPos fd fPos').files = d.files := by
            rw [hfPos rfl, setPos_of_files_eq hfd]
          exact .failed htakes hres hsame
        | true =>
          rw [if_pos rfl, loffT_of_lt hlen]
          exact .stored htakes hres
      · rw [if_neg hlen]
        refine ⟨_, _, rfl, h, .rejected (.inr rfl) ?_⟩
        rintro _ _ _ ⟨⟩ htakes
        exact hlen htakes.2
  | read fd count copied =>
    simp only [step]
    cases hfd : d.files fd with
    | none => exact ⟨_, _, rfl, h, .rejected (.inl rfl) (by simp)⟩
    | some fPos =>
      obtain ⟨ret, fPos', hread, -⟩ := hdev.aesdRead_total hlock fPos count copied
      dsimp only
      rw [hread, Option.bind_eq_bind, Option.bind_some]
      exact ⟨_, _, rfl, h.of_heap_dev_eq rfl rfl, .kept (by simp) rfl rfl⟩
  | llseek fd offset whence =>
    simp only [step]
    cases hfd : d.files fd with
    | none => exact ⟨_, _, rfl, h, .rejected (.inl rfl) (by simp)⟩
    | some fPos =>
      obtain ⟨ret, fPos', hseek⟩ := DevInv.aesdLlseek_total hlock K fPos offset whence
      dsimp only
      rw [hseek, Option.bind_eq_bind, Option.bind_some]
      exact ⟨_, _, rfl, h.of_heap_dev_eq rfl rfl, .kept (by simp) rfl rfl⟩
  | ioctl fd cmd arg copied =>
    simp only [step]
    cases hfd : d.files fd with
    | none => exact ⟨_, _, rfl, h, .rejected (.inl rfl) (by simp)⟩
    | some fPos =>
      obtain ⟨ret, fPos', hio, -⟩ := hdev.aesdIoctl_total hlock fPos cmd arg copied
      dsimp only
      rw [hio, Option.bind_eq_bind, Option.bind_some]
      exact ⟨_, _, rfl, h.of_heap_dev_eq rfl rfl, .kept (by simp) rfl rfl⟩

/-- The effect of an answered call. -/
theorem effect (h : d.Inv K) {op : Op} {r : Ret} (hstep : step K d op = some (r, d')) :
    d'.Inv K ∧ Effect K d op r d' := by
  obtain ⟨r₁, d₁, hstep₁, hinv, heff⟩ := h.step_total op
  rw [hstep, Option.some.injEq, Prod.mk.injEq] at hstep₁
  obtain ⟨rfl, rfl⟩ := hstep₁
  exact ⟨hinv, heff⟩

end Inv

/-! ### Runs from `aesd_init_module` -/

/-- The driver is in order after every run. -/
theorem inv_of_run {cs : List (Op × Ret)} (hrun : (lts K).run aesdInitModule cs = some d) :
    d.Inv K :=
  Lts.run_invariant (Inv.init K)
    (fun _ _ _ h hstep => (h.effect (Lts.ofCalls_step_eq_some.mp hstep)).1) hrun

/-- Every sequence of calls is a run: no call gets stuck in a loop, waits for a lock that
    nobody holds, or reaches outside the blocks it may use. -/
theorem exists_run (K : Kernel) (ops : List Op) :
    ∃ cs d, cs.map Prod.fst = ops ∧ (lts K).run aesdInitModule cs = some d :=
  Lts.ofCalls_exists_run (I := Driver.Inv K)
    (fun _ op h => by
      obtain ⟨r, d', hstep, hinv, -⟩ := h.step_total op
      exact ⟨r, d', hstep, hinv⟩)
    ops (Inv.init K)

end Driver

end Aesd
