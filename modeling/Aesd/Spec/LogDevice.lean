import Aesd.Spec.SeekCorrect
import Aesd.Spec.StreamCorrect

/-!
# The driver as a log

What the driver is for, without its memory: a log that writes append to, of which the lines are
stored one after another as commands, and the newest ten of those can be read
(`LogDevice.Step`). It has no buffers, no ring and no arithmetic of sizes.

`Driver.refines_log`: whatever is called and whichever allocation or copy fails, the driver does
what the log does. In particular no byte that a write has left in the device is lost or
reordered before it is stored, also not by a write that fails halfway.
-/

namespace Aesd

/-- Everything that writes have left in the device, how many of its lines are stored, and the
    positions of the open files. -/
structure LogDevice where
  log : List UInt8
  stored : Nat
  files : Nat → Option Int

namespace LogDevice

/-- The device at its start. -/
def init : LogDevice := ⟨[], 0, fun _ => none⟩

/-- The commands that can be read. -/
def commands (a : LogDevice) : List (List UInt8) :=
  ((commandLines a.log).take a.stored).rtake maxWriteOperationsSupported

/-- What is not stored yet. -/
def pending (a : LogDevice) : List UInt8 :=
  ((commandLines a.log).drop a.stored).flatten ++ commandRest a.log

/-- What can be read. -/
def contents (a : LogDevice) : List UInt8 := a.commands.flatten

/-- The file with descriptor `fd` is at position `fPos` from now on. -/
def setPos (a : LogDevice) (fd : Nat) (fPos : Int) : LogDevice :=
  { a with files := Function.update a.files fd (some fPos) }

/-- `data` is taken, and `stored` lines are stored then. -/
def append (a : LogDevice) (data : List UInt8) (stored : Nat) : LogDevice :=
  { a with log := a.log ++ data, stored := stored }

/-- What a call may do, and answer. -/
inductive Step (K : Kernel) (a : LogDevice) : Op × Ret → LogDevice → Prop
  | closed {op : Op} : a.files op.fd = none → (∀ fd, op ≠ .open fd) → Step K a (op, ebadf) a
  | open {fd : Nat} : a.files fd = none → Step K a (.open fd, ⟨fd, []⟩) (a.setPos fd 0)
  | openBusy {fd : Nat} : (a.files fd).isSome → Step K a (.open fd, ebadf) a
  | release {fd : Nat} : (a.files fd).isSome →
    Step K a (.release fd, ⟨0, []⟩) { a with files := Function.update a.files fd none }
  /-- All of the data is taken, and all lines are stored. -/
  | write {fd : Nat} {data : List UInt8} {out : WriteOutcome} {fPos : Int} :
    a.files fd = some fPos → data.length < 2 ^ 63 →
    Step K a (.write fd data out, ⟨data.length, []⟩)
      ((a.append data (commandLines (a.log ++ data)).length).setPos fd
        (loffT (sizeT (sizeTOfLoff fPos + data.length))))
  /-- All of the data is taken, but not all lines are stored. -/
  | writeCut {fd stored : Nat} {data : List UInt8} {out : WriteOutcome} :
    (a.files fd).isSome → a.stored ≤ stored → stored < (commandLines (a.log ++ data)).length →
    Step K a (.write fd data out, ⟨-1, []⟩) (a.append data stored)
  /-- Nothing is taken. -/
  | writeRefused {fd : Nat} {data : List UInt8} {out : WriteOutcome} : (a.files fd).isSome →
    Step K a (.write fd data out, ⟨-1, []⟩) a
  | writeOutside {fd : Nat} {data : List UInt8} {out : WriteOutcome} : (a.files fd).isSome →
    2 ^ 63 ≤ data.length → Step K a (.write fd data out, efault) a
  /-- A read returns the next part of the contents. -/
  | read {fd count : Nat} {fPos : Int} {bytes : List UInt8} :
    a.files fd = some fPos → sizeTOfLoff fPos < a.contents.length →
    bytes = (a.contents.drop (sizeTOfLoff fPos)).take bytes.length → bytes.length ≤ count →
    (0 < count → bytes ≠ []) →
    Step K a (.read fd count true, ⟨bytes.length, bytes⟩)
      (a.setPos fd ((sizeTOfLoff fPos + bytes.length : Nat) : Int))
  | readFault {fd count : Nat} {fPos : Int} :
    a.files fd = some fPos → sizeTOfLoff fPos < a.contents.length →
    Step K a (.read fd count false, ⟨-1, []⟩) a
  | readEnd {fd count : Nat} {copied : Bool} {fPos : Int} :
    a.files fd = some fPos → a.contents.length ≤ sizeTOfLoff fPos →
    Step K a (.read fd count copied, ⟨0, []⟩) a
  | llseek {fd : Nat} {offset whence fPos : Int} : a.files fd = some fPos →
    Step K a (.llseek fd offset whence,
        ⟨(K.fixedSizeLlseek fPos offset whence a.contents.length).1, []⟩)
      (a.setPos fd (K.fixedSizeLlseek fPos offset whence a.contents.length).2)
  /-- A seek request moves the file to the byte it names. -/
  | ioctl {fd : Nat} {arg : AesdSeekto} : (a.files fd).isSome →
    arg.writeCmdOffset.toNat < (a.commands.getD arg.writeCmd.toNat []).length →
    Step K a (.ioctl fd aesdcharIocseekto arg true, ⟨0, []⟩)
      (a.setPos fd (((a.commands.take arg.writeCmd.toNat).flatten.length +
        arg.writeCmdOffset.toNat : Nat) : Int))
  | ioctlRefused {fd cmd : Nat} {arg : AesdSeekto} {copied : Bool} : (a.files fd).isSome →
    cmd ≠ aesdcharIocseekto ∨ copied = false ∨
      (a.commands.getD arg.writeCmd.toNat []).length ≤ arg.writeCmdOffset.toNat →
    Step K a (.ioctl fd cmd arg copied, ⟨-1, []⟩) a

end LogDevice

namespace Driver

variable {K : Kernel} {d d' : Driver} {a : LogDevice}

/-- The driver is in the state of the log `a`. -/
structure Represents (d : Driver) (a : LogDevice) : Prop where
  commands_eq : d.commands = a.commands
  pending_eq : d.pending = a.pending
  files_eq : d.files = a.files
  stored_le : a.stored ≤ (commandLines a.log).length

namespace Represents

theorem contents_eq (h : d.Represents a) : d.contents = a.contents := by
  rw [contents, h.commands_eq, LogDevice.contents]

theorem setPos (h : d.Represents a) (fd : Nat) (fPos : Int) :
    (d.setPos fd fPos).Represents (a.setPos fd fPos) := by
  refine ⟨h.commands_eq, h.pending_eq, ?_, h.stored_le⟩
  funext i
  simp only [Driver.setPos, LogDevice.setPos, Function.update_apply, h.files_eq]

/-- Data that was taken, with `m` more lines stored. -/
theorem append (h : d.Represents a) {data : List UInt8} {m : Nat}
    (hm : m ≤ (commandLines (d.pending ++ data)).length) (hfiles : d'.files = d.files)
    (hcommands : d'.commands =
      (d.commands ++ (commandLines (d.pending ++ data)).take m).rtake 10)
    (hpending : d'.pending =
      ((commandLines (d.pending ++ data)).drop m).flatten ++ commandRest (d.pending ++ data)) :
    d'.Represents (a.append data (a.stored + m)) ∧
      a.stored + (commandLines (d.pending ++ data)).length =
        (commandLines (a.log ++ data)).length := by
  -- the pending bytes go on as the log does
  have hsplit := Lines.split_drop_append h.stored_le data
  have hlines : commandLines (d.pending ++ data) = (commandLines (a.log ++ data)).drop a.stored := by
    rw [h.pending_eq, commandLines, Lines.lines, LogDevice.pending, hsplit]
  have hrest : commandRest (d.pending ++ data) = commandRest (a.log ++ data) := by
    rw [h.pending_eq, commandRest, Lines.rest, LogDevice.pending, hsplit]
  have hold : (commandLines (a.log ++ data)).take a.stored = (commandLines a.log).take a.stored := by
    rw [commandLines, Lines.lines_append, List.take_append_of_le_length h.stored_le]
  have hle : a.stored ≤ (commandLines (a.log ++ data)).length := by
    rw [commandLines, Lines.lines_append, List.length_append]
    have := h.stored_le
    exact Nat.le_add_right_of_le this
  rw [hlines, List.length_drop] at hm ⊢
  refine ⟨⟨?_, ?_, hfiles.trans h.files_eq, ?_⟩, by omega⟩
  · rw [hcommands, h.commands_eq, LogDevice.commands, List.rtake_rtake_append, hlines, ← hold,
      ← List.take_add]
    rfl
  · rw [hpending, hlines, hrest, List.drop_drop]
    rfl
  · show a.stored + m ≤ (commandLines (a.log ++ data)).length
    omega

end Represents

/-! ### The positions after a call -/

/-- A write that fails leaves the file where it is. -/
theorem aesdWrite_fPos {heap heap' : Heap UInt8} {dev dev' : AesdDev} {fPos fPos' ret : Int}
    {data : List UInt8} {out : WriteOutcome}
    (h : aesdWrite K heap dev fPos data out = some (ret, fPos', heap', dev')) :
    ret = -1 ∧ fPos' = fPos ∨
      ret = loffT data.length ∧ fPos' = loffT (sizeT (sizeTOfLoff fPos + data.length)) := by
  unfold aesdWrite at h
  simp only [Option.bind_eq_bind, Option.bind_eq_some_iff, Prod.exists] at h
  obtain ⟨dev₁, -, granted, heap₂, dev₂, -, h⟩ := h
  split at h
  · obtain ⟨rfl, rfl, -⟩ := Prod.mk.inj (Option.some.inj h)
    exact .inl ⟨rfl, rfl⟩
  simp only [Option.bind_eq_some_iff, Prod.exists] at h
  obtain ⟨left, heap₃, -, h⟩ := h
  split at h
  · obtain ⟨rfl, rfl, -⟩ := Prod.mk.inj (Option.some.inj h)
    exact .inl ⟨rfl, rfl⟩
  simp only [Option.bind_eq_some_iff, Prod.exists] at h
  obtain ⟨stored, heap₄, dev₄, -, h⟩ := h
  split at h
  · obtain ⟨rfl, rfl, -⟩ := Prod.mk.inj (Option.some.inj h)
    exact .inl ⟨rfl, rfl⟩
  · obtain ⟨rfl, rfl, -⟩ := Prod.mk.inj (Option.some.inj h)
    exact .inr ⟨rfl, rfl⟩

/-- A read at any position, also one that `lseek` has set outside of the contents. -/
theorem Inv.read_any (h : d.Inv K) {fd : Nat} {fPos : Int} (hfd : d.files fd = some fPos)
    (count : Nat) :
    (d.contents.length ≤ sizeTOfLoff fPos ∧ ∀ copied,
      step K d (.read fd count copied) = some (⟨0, []⟩, d)) ∨
    (sizeTOfLoff fPos < d.contents.length ∧ ∃ n, n ≤ count ∧ (0 < count → 0 < n) ∧
      sizeTOfLoff fPos + n ≤ d.contents.length ∧
      step K d (.read fd count true) =
        some (⟨n, (d.contents.drop (sizeTOfLoff fPos)).take n⟩,
          d.setPos fd ((sizeTOfLoff fPos + n : Nat) : Int)) ∧
      step K d (.read fd count false) = some (⟨-1, []⟩, d)) := by
  have hlen := h.contents_length_lt
  obtain ⟨hlock, cmds, pend, hdev, hcmds, -⟩ := h.exists_owned
  rw [contents, hcmds] at hlen ⊢
  have hsame : d.setPos fd fPos = d := setPos_of_files_eq hfd
  have hstep : ∀ copied ret fPos', aesdRead d.heap d.dev fPos count copied =
      some (ret, fPos', d.dev) → step K d (.read fd count copied) = some (ret, d.setPos fd fPos') := by
    intro copied ret fPos' hread
    simp only [step, hfd, hread, Option.bind_eq_bind, Option.bind_some]
  have hsum : ((cmds.map entryOf).map (·.size)).sum = (cmds.map Prod.snd).flatten.length := by
    rw [DevInv.sizes_eq, List.length_flatten]
  have hfind := hdev.ring.find_spec (sizeTOfLoff_lt fPos) (by omega)
  rw [DevInv.sizes_eq] at hfind hsum
  cases hloc : ((cmds.map Prod.snd).map List.length).locate (sizeTOfLoff fPos) with
  | none =>
    rw [hloc, Option.map_none] at hfind
    rw [List.locate_eq_none, hsum] at hloc
    refine .inl ⟨hloc, fun copied => ?_⟩
    rw [hstep copied _ _ (hdev.aesdRead_of_none hlock hfind count copied), hsame]
  | some q =>
    obtain ⟨j, b⟩ := q
    rw [hloc, Option.map_some] at hfind
    obtain ⟨hj, hb, -⟩ := List.locate_eq_some.mp hloc
    obtain ⟨hj', hdrop⟩ := List.drop_flatten_of_locate hloc
    simp only [List.length_map, List.getElem_map] at hj hb hdrop
    obtain ⟨n, hn, hread⟩ := hdev.aesdRead_of_some hlock hj hb hfind count true
    obtain ⟨_, -, hfault⟩ := hdev.aesdRead_of_some hlock hj hb hfind count false
    -- what is left of the contents starts with what is left of the command
    have hleft := congrArg List.length hdrop
    simp only [List.length_drop, List.length_append] at hleft
    have hpn : sizeTOfLoff fPos + n ≤ (cmds.map Prod.snd).flatten.length := by omega
    refine .inr ⟨by omega, n, by omega, by omega, hpn, ?_, ?_⟩
    · rw [hstep true _ _ hread, sizeT_of_lt (by omega), loffT_of_lt (by omega), hdrop,
        List.take_append_of_le_length (by simp; omega)]
    · rw [hstep false _ _ hfault, hsame]

/-! ### One call -/

theorem Inv.write_represents (h : d.Inv K) (ha : d.Represents a) {fd : Nat} {data : List UInt8}
    {out : WriteOutcome} {r : Ret} (hstep : step K d (.write fd data out) = some (r, d')) :
    ∃ b, LogDevice.Step K a (.write fd data out, r) b ∧ d'.Represents b := by
  obtain ⟨-, heff⟩ := h.effect hstep
  cases heff with
  | stored htakes hres =>
    obtain ⟨fPos, hfd⟩ := Option.isSome_iff_exists.mp htakes.1
    generalize hc : d'.commands = commands, hp : d'.pending = pend at hres
    cases hres with
    | stored _ _ _ =>
      -- the data is written, so the file is behind it
      simp only [step, hfd, if_pos htakes.2, Option.bind_eq_bind, Option.bind_eq_some_iff,
        Prod.exists, Option.some.injEq, Prod.mk.injEq] at hstep
      obtain ⟨ret, fPos', heap', dev', hwrite, hret, hd'⟩ := hstep
      obtain rfl : ret = data.length := congrArg Ret.val hret
      have hfPos : fPos' = loffT (sizeT (sizeTOfLoff fPos + data.length)) := by
        rcases aesdWrite_fPos hwrite with ⟨hneg, -⟩ | ⟨-, hfPos⟩
        · omega
        · exact hfPos
      obtain ⟨d₁, hd₁⟩ : ∃ d₁ : Driver, d₁ = { d with heap := heap', dev := dev' } := ⟨_, rfl⟩
      rw [← hd₁] at hd'
      have hcommands : d₁.commands = (d.commands ++ (commandLines (d.pending ++ data)).take
          (commandLines (d.pending ++ data)).length).rtake 10 := by
        rw [List.take_length, ← hc, ← hd', commands_setPos]
      have hpending : d₁.pending = ((commandLines (d.pending ++ data)).drop
          (commandLines (d.pending ++ data)).length).flatten ++
            commandRest (d.pending ++ data) := by
        rw [List.drop_length, List.flatten_nil, List.nil_append, ← hp, ← hd', pending_setPos]
      obtain ⟨hrep, hlength⟩ := ha.append le_rfl (by rw [hd₁]) hcommands hpending
      rw [hlength] at hrep
      refine ⟨_, .write (ha.files_eq ▸ hfd) htakes.2, ?_⟩
      rw [← hd', hfPos]
      exact hrep.setPos fd _
  | failed htakes hres hfiles =>
    have hopen : (a.files fd).isSome := ha.files_eq ▸ htakes.1
    generalize hc : d'.commands = commands, hp : d'.pending = pend at hres
    cases hres with
    | refused _ =>
      exact ⟨a, .writeRefused hopen, hc.trans ha.commands_eq, hp.trans ha.pending_eq,
        hfiles.trans ha.files_eq, ha.stored_le⟩
    | cut m _ _ hm _ =>
      obtain ⟨hrep, hlength⟩ := ha.append hm.le hfiles hc hp
      exact ⟨_, .writeCut hopen (Nat.le_add_right _ _) (by omega), hrep⟩
  | rejected hrej hno =>
    cases hfd : d.files fd with
    | none =>
      simp only [step, hfd, Option.some.injEq, Prod.mk.injEq] at hstep
      obtain ⟨rfl, -⟩ := hstep
      exact ⟨a, .closed (ha.files_eq ▸ hfd) (by simp), ha⟩
    | some fPos =>
      have hlen : ¬ data.length < 2 ^ 63 := fun hlen => hno fd data out rfl ⟨by simp [hfd], hlen⟩
      simp only [step, hfd, if_neg hlen, Option.some.injEq, Prod.mk.injEq] at hstep
      obtain ⟨rfl, -⟩ := hstep
      refine ⟨a, .writeOutside ?_ (by omega), ha⟩
      rw [← ha.files_eq, hfd]
      rfl
  | kept hop _ _ => exact absurd rfl (hop fd data out)

theorem Inv.ioctl_represents (h : d.Inv K) (ha : d.Represents a) {fd cmd : Nat}
    {arg : AesdSeekto} {copied : Bool} {r : Ret} {fPos : Int} (hfd : d.files fd = some fPos)
    (hstep : step K d (.ioctl fd cmd arg copied) = some (r, d')) :
    ∃ b, LogDevice.Step K a (.ioctl fd cmd arg copied, r) b ∧ d'.Represents b := by
  have hopen : (a.files fd).isSome := by
    rw [← ha.files_eq, hfd]
    rfl
  have hrefused : cmd ≠ aesdcharIocseekto ∨ copied = false →
      step K d (.ioctl fd cmd arg copied) = some (⟨-1, []⟩, d) := by
    intro hno
    have hio : aesdIoctl d.dev fPos cmd arg copied = some (-1, fPos, d.dev) := by
      unfold aesdIoctl
      by_cases hcmd : cmd ≠ aesdcharIocseekto
      · rw [if_pos hcmd]
        rfl
      · rw [if_neg hcmd, if_pos (by simpa using hno.resolve_left hcmd)]
        rfl
    simp only [step, hfd, hio, Option.bind_eq_bind, Option.bind_some]
    exact congrArg (fun d => some (_, d)) (setPos_of_files_eq hfd)
  by_cases hno : cmd ≠ aesdcharIocseekto ∨ copied = false
  · obtain ⟨rfl, rfl⟩ := Prod.mk.inj (Option.some.inj ((hrefused hno).symm.trans hstep))
    exact ⟨a, .ioctlRefused hopen (hno.imp_right .inl), ha⟩
  · simp only [not_or, not_not, Bool.not_eq_false] at hno
    obtain ⟨rfl, rfl⟩ := hno
    rw [h.ioctl_step hfd, ha.commands_eq, offsetOf, ha.commands_eq] at hstep
    split at hstep
    · next hnames =>
      obtain ⟨rfl, rfl⟩ := Prod.mk.inj (Option.some.inj hstep)
      exact ⟨_, .ioctl hopen hnames, ha.setPos fd _⟩
    · next hnames =>
      obtain ⟨rfl, rfl⟩ := Prod.mk.inj (Option.some.inj hstep)
      exact ⟨a, .ioctlRefused hopen (.inr (.inr (by omega))), ha⟩

theorem Inv.step_represents (h : d.Inv K) (ha : d.Represents a) {op : Op} {r : Ret}
    (hstep : step K d op = some (r, d')) :
    ∃ b, LogDevice.Step K a (op, r) b ∧ d'.Represents b := by
  cases op with
  | «open» fd =>
    simp only [step] at hstep
    split at hstep
    · next hfd =>
      obtain ⟨rfl, rfl⟩ := Prod.mk.inj (Option.some.inj hstep)
      exact ⟨a, .openBusy (ha.files_eq ▸ hfd), ha⟩
    · next hfd =>
      obtain ⟨rfl, rfl⟩ := Prod.mk.inj (Option.some.inj hstep)
      rw [Option.not_isSome_iff_eq_none] at hfd
      exact ⟨_, .open (ha.files_eq ▸ hfd), ha.setPos fd 0⟩
  | release fd =>
    simp only [step] at hstep
    split at hstep
    · next hfd =>
      obtain ⟨rfl, rfl⟩ := Prod.mk.inj (Option.some.inj hstep)
      refine ⟨_, .release (ha.files_eq ▸ hfd), ha.commands_eq, ha.pending_eq, ?_, ha.stored_le⟩
      funext i
      simp only [Function.update_apply, ha.files_eq]
    · next hfd =>
      obtain ⟨rfl, rfl⟩ := Prod.mk.inj (Option.some.inj hstep)
      rw [Option.not_isSome_iff_eq_none] at hfd
      exact ⟨a, .closed (ha.files_eq ▸ hfd) (by simp), ha⟩
  | write fd data out => exact h.write_represents ha hstep
  | read fd count copied =>
    cases hfd : d.files fd with
    | none =>
      simp only [step, hfd, Option.some.injEq, Prod.mk.injEq] at hstep
      obtain ⟨rfl, rfl⟩ := hstep
      exact ⟨a, .closed (ha.files_eq ▸ hfd) (by simp), ha⟩
    | some fPos =>
      have hfd' : a.files fd = some fPos := ha.files_eq ▸ hfd
      rcases h.read_any hfd count with ⟨hend, hread⟩ | ⟨hlt, n, hn, hpos, hpn, hread, hfault⟩
      · obtain ⟨rfl, rfl⟩ := Prod.mk.inj (Option.some.inj ((hread copied).symm.trans hstep))
        exact ⟨a, .readEnd hfd' (ha.contents_eq ▸ hend), ha⟩
      · rw [ha.contents_eq] at hlt hpn hread
        cases copied with
        | false =>
          obtain ⟨rfl, rfl⟩ := Prod.mk.inj (Option.some.inj (hfault.symm.trans hstep))
          exact ⟨a, .readFault hfd' hlt, ha⟩
        | true =>
          obtain ⟨rfl, rfl⟩ := Prod.mk.inj (Option.some.inj (hread.symm.trans hstep))
          generalize hbytes : (a.contents.drop (sizeTOfLoff fPos)).take n = bytes
          obtain rfl : bytes.length = n := by
            rw [← hbytes, List.length_take, List.length_drop]
            omega
          exact ⟨_, .read hfd' hlt hbytes.symm hn fun hcount =>
            List.ne_nil_of_length_pos (hpos hcount), ha.setPos fd _⟩
  | llseek fd offset whence =>
    cases hfd : d.files fd with
    | none =>
      simp only [step, hfd, Option.some.injEq, Prod.mk.injEq] at hstep
      obtain ⟨rfl, rfl⟩ := hstep
      exact ⟨a, .closed (ha.files_eq ▸ hfd) (by simp), ha⟩
    | some fPos =>
      rw [h.llseek_step hfd, ha.contents_eq] at hstep
      obtain ⟨rfl, rfl⟩ := Prod.mk.inj (Option.some.inj hstep)
      exact ⟨_, .llseek (ha.files_eq ▸ hfd), ha.setPos fd _⟩
  | ioctl fd cmd arg copied =>
    cases hfd : d.files fd with
    | none =>
      simp only [step, hfd, Option.some.injEq, Prod.mk.injEq] at hstep
      obtain ⟨rfl, rfl⟩ := hstep
      exact ⟨a, .closed (ha.files_eq ▸ hfd) (by simp), ha⟩
    | some fPos => exact h.ioctl_represents ha hfd hstep

/-! ### Runs -/

theorem Represents.init : aesdInitModule.Represents .init := by
  have hholds := Holds.init Kernel.page
  refine ⟨?_, ?_, rfl, Nat.zero_le _⟩
  · rw [hholds.commands_eq]
    rfl
  · rw [hholds.pending_eq]
    rfl

theorem represents_of_run {cs : List (Op × Ret)} {d₀ : Driver} {a₀ : LogDevice}
    (hinv : d₀.Inv K) (ha₀ : d₀.Represents a₀) (hrun : (lts K).run d₀ cs = some d) :
    ∃ a, Lts.Steps (LogDevice.Step K) a₀ cs a ∧ d.Represents a := by
  obtain ⟨a, hsteps, -, ha⟩ := Lts.run_simulation (S := LogDevice.Step K)
    (R := fun d a => d.Inv K ∧ d.Represents a)
    (fun d a c d' ⟨hinv, ha⟩ hstep => by
      have hstep' := Lts.ofCalls_step_eq_some.mp hstep
      obtain ⟨b, hS, hb⟩ := hinv.step_represents ha hstep'
      exact ⟨b, hS, (hinv.effect hstep').1, hb⟩)
    ⟨hinv, ha₀⟩ hrun
  exact ⟨a, hsteps, ha⟩

/-- Any calls can be made after `aesd_init_module`, on any number of files and whichever
    allocation or copy fails: each is answered, and the log does the same and answers the same. -/
theorem refines_log (K : Kernel) (ops : List Op) :
    ∃ cs d a, cs.map Prod.fst = ops ∧ (lts K).run aesdInitModule cs = some d ∧
      Lts.Steps (LogDevice.Step K) .init cs a ∧ d.Represents a := by
  obtain ⟨cs, d, hops, hrun⟩ := exists_run K ops
  obtain ⟨a, hsteps, ha⟩ := represents_of_run (Inv.init K) .init hrun
  exact ⟨cs, d, a, hops, hrun, hsteps, ha⟩

end Driver

/-! ### What becomes of the written bytes -/

/-- `bytes` are the data of writes among the calls, in order: of all that returned their count
    and of some of those that failed. -/
inductive Taken : List (Op × Ret) → List UInt8 → Prop
  | nil : Taken [] []
  | taken {cs : List (Op × Ret)} {bytes data : List UInt8} {fd : Nat} {out : WriteOutcome}
    {r : Ret} : Taken cs bytes → Taken (cs ++ [(.write fd data out, r)]) (bytes ++ data)
  | skipped {cs : List (Op × Ret)} {bytes : List UInt8} {c : Op × Ret} : Taken cs bytes →
    (∀ fd data out, c.1 = .write fd data out → c.2.val < 0) → Taken (cs ++ [c]) bytes

namespace LogDevice

variable {K : Kernel} {a b : LogDevice}

/-- From `a` on, `taken` was taken and `b.stored - a.stored` lines were stored. -/
structure Extends (a b : LogDevice) (taken : List UInt8) : Prop where
  log_eq : b.log = a.log ++ taken
  stored_le : a.stored ≤ b.stored
  stored_le_length : b.stored ≤ (commandLines b.log).length

/-- What one call takes. -/
theorem Step.extends {c : Op × Ret} (h : Step K a c b) (hle : a.stored ≤ (commandLines a.log).length) :
    (∃ fd data out, c.1 = .write fd data out ∧ a.Extends b data) ∨
      (∀ fd data out, c.1 = .write fd data out → c.2.val < 0) ∧ a.Extends b [] := by
  have hkept : a.Extends a [] := ⟨(List.append_nil _).symm, le_rfl, hle⟩
  cases h with
  | @write fd data out fPos _ _ =>
    refine .inl ⟨fd, data, out, rfl, rfl, ?_, le_rfl⟩
    show a.stored ≤ (commandLines (a.log ++ data)).length
    rw [commandLines, Lines.lines_append, List.length_append]
    exact Nat.le_add_right_of_le hle
  | @writeCut fd stored data out _ hstored hlt =>
    exact .inl ⟨fd, data, out, rfl, rfl, hstored, hlt.le⟩
  | closed _ _ | openBusy _ | writeRefused _ | writeOutside _ _ | readFault _ _ | readEnd _ _
  | ioctlRefused _ _ =>
    exact .inr ⟨by simp [ebadf, efault], hkept⟩
  | «open» _ | release _ | read _ _ _ _ _ | llseek _ | ioctl _ _ =>
    exact .inr ⟨by simp, (List.append_nil _).symm, le_rfl, hle⟩

/-- What a run takes. -/
theorem extends_of_steps {cs : List (Op × Ret)} (h : Lts.Steps (Step K) a cs b)
    (hle : a.stored ≤ (commandLines a.log).length) :
    ∃ taken, Taken cs taken ∧ a.Extends b taken := by
  induction h with
  | nil => exact ⟨[], .nil, (List.append_nil _).symm, le_rfl, hle⟩
  | @concat cs c b b' _ hstep ih =>
    obtain ⟨taken, htaken, hlog, hstored, hlength⟩ := ih
    obtain ⟨op, r⟩ := c
    rcases hstep.extends hlength with ⟨fd, data, out, rfl, hext⟩ | ⟨hno, hext⟩
    · exact ⟨taken ++ data, .taken htaken, by rw [hext.log_eq, hlog, List.append_assoc],
        hstored.trans hext.stored_le, hext.stored_le_length⟩
    · exact ⟨taken, .skipped htaken hno, by rw [hext.log_eq, hlog, List.append_nil],
        hstored.trans hext.stored_le, hext.stored_le_length⟩

/-- The lines stored in between leave the pending bytes in front, and enter the commands behind. -/
theorem Extends.window {taken : List UInt8} (h : a.Extends b taken)
    (hle : a.stored ≤ (commandLines a.log).length) :
    ∃ new, (∀ line ∈ new, Lines.IsLine isNewline line) ∧
      a.pending ++ taken = new.flatten ++ b.pending ∧
      b.commands = (a.commands ++ new).rtake 10 := by
  obtain ⟨hlog, hstored, hlength⟩ := h
  -- the lines between the two counts
  let new := ((commandLines b.log).drop a.stored).take (b.stored - a.stored)
  have hnew : (commandLines b.log).drop a.stored = new ++ (commandLines b.log).drop b.stored := by
    have hdrop : (commandLines b.log).drop b.stored =
        ((commandLines b.log).drop a.stored).drop (b.stored - a.stored) := by
      rw [List.drop_drop, Nat.add_sub_cancel' hstored]
    rw [hdrop, List.take_append_drop]
  refine ⟨new, fun line hline => ?_, ?_, ?_⟩
  · exact Lines.isLine_of_mem_lines (List.mem_of_mem_drop (List.mem_of_mem_take hline))
  · have hsplit := Lines.split_drop_append hle taken
    rw [← hlog] at hsplit
    calc a.pending ++ taken
        = (Lines.lines isNewline (a.pending ++ taken)).flatten ++
            Lines.rest isNewline (a.pending ++ taken) :=
          (Lines.flatten_lines_append_rest _).symm
      _ = ((commandLines b.log).drop a.stored).flatten ++ commandRest b.log := by
          rw [Lines.lines, Lines.rest, LogDevice.pending, hsplit]
      _ = new.flatten ++ b.pending := by
          rw [hnew, List.flatten_append, List.append_assoc, LogDevice.pending]
  · have hold : (commandLines b.log).take a.stored = (commandLines a.log).take a.stored := by
      rw [hlog, commandLines, Lines.lines_append, List.take_append_of_le_length hle]
    have htake : (commandLines b.log).take b.stored = (commandLines a.log).take a.stored ++ new := by
      rw [← hold, ← List.take_add, Nat.add_sub_cancel' hstored]
    rw [commands, htake, commands, List.rtake_rtake_append]

end LogDevice

namespace Driver

variable {K : Kernel} {d₁ d₂ : Driver}

/-- Between any two moments of a run no byte is lost and none comes twice: the pending bytes and
    what was taken since are the lines stored since and the bytes still pending, and the
    commands are the newest ten of the old ones and those lines. -/
theorem bytes_conserved {cs₁ cs₂ : List (Op × Ret)}
    (hrun₁ : (lts K).run aesdInitModule cs₁ = some d₁) (hrun₂ : (lts K).run d₁ cs₂ = some d₂) :
    ∃ new taken, Taken cs₂ taken ∧ (∀ line ∈ new, Lines.IsLine isNewline line) ∧
      d₁.pending ++ taken = new.flatten ++ d₂.pending ∧
      d₂.commands = (d₁.commands ++ new).rtake 10 := by
  obtain ⟨a, -, ha⟩ := represents_of_run (Inv.init K) .init hrun₁
  obtain ⟨b, hsteps, hb⟩ := represents_of_run (inv_of_run hrun₁) ha hrun₂
  obtain ⟨taken, htaken, hext⟩ := LogDevice.extends_of_steps hsteps ha.stored_le
  obtain ⟨new, hnew, hbytes, hcommands⟩ := hext.window ha.stored_le
  refine ⟨new, taken, htaken, hnew, ?_, ?_⟩
  · rw [ha.pending_eq, hb.pending_eq, hbytes]
  · rw [ha.commands_eq, hb.commands_eq, hcommands]

/-- Of `"a\nb\n"` only the first line gets a buffer, and the write fails. A write of `"c\n"`
    then stores two lines. -/
def lateLine : List (Op × Ret) :=
  [(.open 3, ⟨3, []⟩), (.write 3 [97, newline, 98, newline] ⟨true, 0, fun m => m == 0⟩, ⟨-1, []⟩),
    (.write 3 [99, newline] .ok, ⟨2, []⟩)]

theorem bytes_conserved_lateLine :
    ∃ (d₁ d₂ : Driver) (new : List (List UInt8)) (taken : List UInt8),
      (lts .page).run aesdInitModule (lateLine.take 2) = some d₁ ∧
      (lts .page).run d₁ (lateLine.drop 2) = some d₂ ∧ Taken (lateLine.drop 2) taken ∧
      d₁.pending = [98, newline] ∧ d₁.pending ++ taken = new.flatten ++ d₂.pending ∧
      d₂.commands = (d₁.commands ++ new).rtake 10 := by
  obtain ⟨d₁, hrun₁, hpending⟩ :
      ∃ d₁, (lts .page).run aesdInitModule (lateLine.take 2) = some d₁ ∧
        d₁.pending = [98, newline] :=
    ⟨((lts .page).run aesdInitModule (lateLine.take 2)).get (by decide), (Option.some_get _).symm,
      by decide⟩
  obtain ⟨d₂, hrun⟩ : ∃ d₂, (lts .page).run aesdInitModule lateLine = some d₂ :=
    ⟨((lts .page).run aesdInitModule lateLine).get (by decide), (Option.some_get _).symm⟩
  have hrun₂ : (lts .page).run d₁ (lateLine.drop 2) = some d₂ := by
    rw [← List.take_append_drop 2 lateLine, Lts.run_append, hrun₁, Option.bind_some] at hrun
    exact hrun
  obtain ⟨new, taken, htaken, -, hbytes, hcommands⟩ := bytes_conserved hrun₁ hrun₂
  exact ⟨d₁, d₂, new, taken, hrun₁, hrun₂, htaken, hpending, hbytes, hcommands⟩

end Driver

end Aesd
