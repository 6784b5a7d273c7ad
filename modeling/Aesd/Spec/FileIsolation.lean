import Aesd.Spec.LogDevice

/-!
# What the users of a file see

The files of the device share the commands and nothing else. `Driver.answers_independent`: take
from a run all reads, seeks and seek requests on other files than the watched ones. What is left
is a run again with the same answers, and the watched files are where they were.
-/

namespace Aesd

/-- A call that is made on a watched file, or opens, closes or writes. -/
def Op.Matters (watched : Nat → Bool) : Op → Bool
  | .open _ | .release _ | .write _ _ _ => true
  | .read fd _ _ | .llseek fd _ _ | .ioctl fd _ _ _ => watched fd

namespace Driver

variable {K : Kernel} {d d' e : Driver} {watched : Nat → Bool}

/-- `e` is as `d` to those who use the watched files. -/
structure SameFor (watched : Nat → Bool) (d e : Driver) : Prop where
  heap_eq : e.heap = d.heap
  dev_eq : e.dev = d.dev
  files_eq : ∀ fd, watched fd = true → e.files fd = d.files fd
  isSome_eq : ∀ fd, (e.files fd).isSome = (d.files fd).isSome

namespace SameFor

theorem refl (watched : Nat → Bool) (d : Driver) : SameFor watched d d :=
  ⟨rfl, rfl, fun _ _ => rfl, fun _ => rfl⟩

/-- The same file is moved in both, to the same position if it is watched. -/
theorem setPos (h : SameFor watched d e) {fd : Nat} {p q : Int}
    (hpos : watched fd = true → q = p) : SameFor watched (d.setPos fd p) (e.setPos fd q) := by
  refine ⟨h.heap_eq, h.dev_eq, fun i hi => ?_, fun i => ?_⟩
  · by_cases hfd : i = fd
    · subst hfd
      rw [files_setPos_self, files_setPos_self, hpos hi]
    · rw [files_setPos_of_ne _ _ hfd, files_setPos_of_ne _ _ hfd, h.files_eq i hi]
  · by_cases hfd : i = fd
    · subst hfd
      rw [files_setPos_self, files_setPos_self]
      rfl
    · rw [files_setPos_of_ne _ _ hfd, files_setPos_of_ne _ _ hfd, h.isSome_eq i]

theorem files_eq_none (h : SameFor watched d e) {fd : Nat} (hfd : d.files fd = none) :
    e.files fd = none := by
  have := h.isSome_eq fd
  rw [hfd] at this
  exact Option.not_isSome_iff_eq_none.mp (by simp [this])

theorem exists_files_eq (h : SameFor watched d e) {fd : Nat} {p : Int}
    (hfd : d.files fd = some p) :
    ∃ q, e.files fd = some q ∧ (watched fd = true → q = p) := by
  have hsome := h.isSome_eq fd
  rw [hfd] at hsome
  obtain ⟨q, hq⟩ := Option.isSome_iff_exists.mp hsome
  refine ⟨q, hq, fun hw => ?_⟩
  exact Option.some.inj ((hq.symm.trans (h.files_eq fd hw)).trans hfd)

end SameFor

/-- A write answers and stores the same, whatever the position of its file. -/
theorem aesdWrite_of_fPos {heap heap' : Heap UInt8} {dev dev' : AesdDev} {p p' ret : Int}
    {data : List UInt8} {out : WriteOutcome} (q : Int)
    (h : aesdWrite K heap dev p data out = some (ret, p', heap', dev')) :
    ∃ q', aesdWrite K heap dev q data out = some (ret, q', heap', dev') ∧ (q = p → q' = p') := by
  unfold aesdWrite at h ⊢
  simp only [Option.bind_eq_bind, Option.bind_eq_some_iff, Prod.exists] at h
  obtain ⟨dev₁, hlock, granted, heap₂, dev₂, hgrow, h⟩ := h
  simp only [hlock, hgrow, Option.bind_eq_bind, Option.bind_some]
  by_cases hgranted : (!granted) = true
  · rw [if_pos hgranted] at h ⊢
    obtain ⟨rfl, rfl, rfl, rfl⟩ : -1 = ret ∧ p = p' ∧ heap₂ = heap' ∧ dev₂.unlock = dev' := by
      simpa using h
    exact ⟨q, rfl, id⟩
  rw [if_neg hgranted] at h ⊢
  simp only [Option.bind_eq_some_iff, Prod.exists] at h
  obtain ⟨left, heap₃, hcopy, h⟩ := h
  simp only [hcopy, Option.bind_some]
  by_cases hleft : left ≠ 0
  · rw [if_pos hleft] at h ⊢
    obtain ⟨rfl, rfl, rfl, rfl⟩ : -1 = ret ∧ p = p' ∧ heap₃ = heap' ∧ dev₂.unlock = dev' := by
      simpa using h
    exact ⟨q, rfl, id⟩
  rw [if_neg hleft] at h ⊢
  simp only [Option.bind_eq_some_iff, Prod.exists] at h
  obtain ⟨stored, heap₄, dev₄, hloop, h⟩ := h
  simp only [hloop, Option.bind_some]
  by_cases hstored : (!stored) = true
  · rw [if_pos hstored] at h ⊢
    obtain ⟨rfl, rfl, rfl, rfl⟩ : -1 = ret ∧ p = p' ∧ heap₄ = heap' ∧ dev₄.unlock = dev' := by
      simpa using h
    exact ⟨q, rfl, id⟩
  · rw [if_neg hstored] at h ⊢
    obtain ⟨rfl, rfl, rfl, rfl⟩ : loffT data.length = ret ∧
        loffT (sizeT (sizeTOfLoff p + data.length)) = p' ∧ heap₄ = heap' ∧
          dev₄.unlock = dev' := by
      simpa using h
    exact ⟨_, rfl, fun hqp => by rw [hqp]⟩

/-- A call that matters gets the same answer. -/
theorem SameFor.step (h : SameFor watched d e) {op : Op} {r : Ret}
    (hmatters : op.Matters watched = true) (hstep : Driver.step K d op = some (r, d')) :
    ∃ e', Driver.step K e op = some (r, e') ∧ SameFor watched d' e' := by
  obtain ⟨heap, dev, files⟩ := e
  obtain rfl : heap = d.heap := h.heap_eq
  obtain rfl : dev = d.dev := h.dev_eq
  -- a closed file is closed in both
  have hclosed : ∀ {fd : Nat}, d.files fd = none → files fd = none := fun hfd =>
    h.files_eq_none hfd
  -- a watched file is at the same position
  have hcall : ∀ {α : Type} (x? : Option α) (post : α → Ret × Int × AesdDev) (fd : Nat),
      (x?.bind fun x => some ((post x).1, { d with dev := (post x).2.2 }.setPos fd (post x).2.1)) =
        some (r, d') →
      ∃ e', (x?.bind fun x => some ((post x).1,
        ({ heap := d.heap, dev := (post x).2.2, files } : Driver).setPos fd (post x).2.1)) =
          some (r, e') ∧ SameFor watched d' e' := by
    intro α x? post fd hstep
    obtain ⟨x, hx, hstep⟩ := Option.bind_eq_some_iff.mp hstep
    obtain ⟨rfl, rfl⟩ := Prod.mk.inj (Option.some.inj hstep)
    have hdev : SameFor watched { d with dev := (post x).2.2 }
        { heap := d.heap, dev := (post x).2.2, files } := ⟨rfl, rfl, h.files_eq, h.isSome_eq⟩
    exact ⟨_, Option.bind_eq_some_iff.mpr ⟨x, hx, rfl⟩, hdev.setPos fun _ => rfl⟩
  cases op with
  | «open» fd =>
    have hsome : (files fd).isSome = (d.files fd).isSome := h.isSome_eq fd
    simp only [Driver.step, hsome] at hstep ⊢
    by_cases hopen : (d.files fd).isSome = true
    · rw [if_pos hopen] at hstep ⊢
      obtain ⟨rfl, rfl⟩ := Prod.mk.inj (Option.some.inj hstep)
      exact ⟨_, rfl, h⟩
    · rw [if_neg hopen] at hstep ⊢
      obtain ⟨rfl, rfl⟩ := Prod.mk.inj (Option.some.inj hstep)
      exact ⟨_, rfl, h.setPos fun _ => rfl⟩
  | release fd =>
    have hsome : (files fd).isSome = (d.files fd).isSome := h.isSome_eq fd
    simp only [Driver.step, hsome] at hstep ⊢
    by_cases hopen : (d.files fd).isSome = true
    · rw [if_pos hopen] at hstep ⊢
      obtain ⟨rfl, rfl⟩ := Prod.mk.inj (Option.some.inj hstep)
      refine ⟨_, rfl, rfl, rfl, fun i hi => ?_, fun i => ?_⟩
      · by_cases hfd : i = fd
        · simp [hfd]
        · simpa [hfd] using h.files_eq i hi
      · by_cases hfd : i = fd
        · simp [hfd]
        · simpa [hfd] using h.isSome_eq i
    · rw [if_neg hopen] at hstep ⊢
      obtain ⟨rfl, rfl⟩ := Prod.mk.inj (Option.some.inj hstep)
      exact ⟨_, rfl, h⟩
  | write fd data out =>
    simp only [Driver.step] at hstep ⊢
    cases hfd : d.files fd with
    | none =>
      simp only [hfd] at hstep
      obtain ⟨rfl, rfl⟩ := Prod.mk.inj (Option.some.inj hstep)
      exact ⟨⟨d.heap, d.dev, files⟩, by rw [hclosed hfd], h⟩
    | some p =>
      obtain ⟨q, hq, hqp⟩ := h.exists_files_eq hfd
      simp only [hfd] at hstep
      simp only [show files fd = some q from hq]
      by_cases hlen : data.length < 2 ^ 63
      · rw [if_pos hlen] at hstep ⊢
        simp only [Option.bind_eq_bind, Option.bind_eq_some_iff, Option.some.injEq,
          Prod.mk.injEq, Prod.exists] at hstep
        obtain ⟨ret, p', heap', dev', hwrite, rfl, rfl⟩ := hstep
        obtain ⟨q', hwrite', hpos⟩ := aesdWrite_of_fPos q hwrite
        have hdev : SameFor watched { d with heap := heap', dev := dev' }
            { heap := heap', dev := dev', files } := ⟨rfl, rfl, h.files_eq, h.isSome_eq⟩
        exact ⟨_, Option.bind_eq_some_iff.mpr ⟨_, hwrite', rfl⟩,
          hdev.setPos fun hw => hpos (hqp hw)⟩
      · rw [if_neg hlen] at hstep ⊢
        obtain ⟨rfl, rfl⟩ := Prod.mk.inj (Option.some.inj hstep)
        exact ⟨_, rfl, h⟩
  | read fd count copied =>
    have hfiles : files fd = d.files fd := h.files_eq fd hmatters
    cases hfd : d.files fd with
    | none =>
      simp only [Driver.step, hfd] at hstep
      obtain ⟨rfl, rfl⟩ := Prod.mk.inj (Option.some.inj hstep)
      exact ⟨_, by simp only [Driver.step, hclosed hfd], h⟩
    | some p =>
      simp only [Driver.step, hfiles, hfd] at hstep ⊢
      exact hcall (aesdRead d.heap d.dev p count copied) id fd hstep
  | llseek fd offset whence =>
    have hfiles : files fd = d.files fd := h.files_eq fd hmatters
    cases hfd : d.files fd with
    | none =>
      simp only [Driver.step, hfd] at hstep
      obtain ⟨rfl, rfl⟩ := Prod.mk.inj (Option.some.inj hstep)
      exact ⟨_, by simp only [Driver.step, hclosed hfd], h⟩
    | some p =>
      simp only [Driver.step, hfiles, hfd] at hstep ⊢
      exact hcall (aesdLlseek K d.dev p offset whence) (fun x => (⟨x.1, []⟩, x.2)) fd hstep
  | ioctl fd cmd arg copied =>
    have hfiles : files fd = d.files fd := h.files_eq fd hmatters
    cases hfd : d.files fd with
    | none =>
      simp only [Driver.step, hfd] at hstep
      obtain ⟨rfl, rfl⟩ := Prod.mk.inj (Option.some.inj hstep)
      exact ⟨_, by simp only [Driver.step, hclosed hfd], h⟩
    | some p =>
      simp only [Driver.step, hfiles, hfd] at hstep ⊢
      exact hcall (aesdIoctl d.dev p cmd arg copied) (fun x => (⟨x.1, []⟩, x.2)) fd hstep

/-- Any other call goes unnoticed. -/
theorem SameFor.skip (h : SameFor watched d e) (hinv : d.Inv K) {op : Op} {r : Ret}
    (hmatters : op.Matters watched = false) (hstep : Driver.step K d op = some (r, d')) :
    SameFor watched d' e := by
  have hkind : watched op.fd = false ∧ (∀ fd, op ≠ .release fd) ∧ (∀ fd, op ≠ .open fd) ∧
      ∀ fd data out, op ≠ .write fd data out := by
    cases op <;> simp_all [Op.Matters, Op.fd]
  obtain ⟨hwatched, hrelease, hopen, hwrite⟩ := hkind
  -- neither the memory nor the device is touched
  have hsame : d'.heap = d.heap ∧ d'.dev = d.dev := by
    obtain ⟨-, heff⟩ := hinv.effect hstep
    cases heff with
    | stored _ _ => exact absurd rfl (hwrite _ _ _)
    | failed _ _ _ => exact absurd rfl (hwrite _ _ _)
    | rejected _ _ => exact ⟨rfl, rfl⟩
    | kept _ hheap hdev => exact ⟨hheap, hdev⟩
  -- and the file stays open or closed
  have hsome : ∀ fd, (d'.files fd).isSome = (d.files fd).isSome := by
    intro fd
    by_cases hfd : fd = op.fd
    · cases hclosed : d.files op.fd with
      | none =>
        have hd' : d' = d := by
          cases op with
          | «open» fd => exact absurd rfl (hopen fd)
          | release fd => exact absurd rfl (hrelease fd)
          | write fd data out => exact absurd rfl (hwrite fd data out)
          | _ fd =>
            simp only [Driver.step, show d.files fd = none from hclosed, Option.some.injEq,
              Prod.mk.injEq] at hstep
            exact hstep.2.symm
        rw [hd']
      | some p =>
        have hbefore : (d.files fd).isSome = true := by rw [hfd, hclosed]; rfl
        rw [step_files_isSome hstep hrelease hbefore, hbefore]
    · rw [step_files_of_ne hstep hfd]
  refine ⟨h.heap_eq.trans hsame.1.symm, h.dev_eq.trans hsame.2.symm, fun fd hfd => ?_,
    fun fd => (h.isSome_eq fd).trans (hsome fd).symm⟩
  have hne : fd ≠ op.fd := by
    rintro rfl
    rw [hwatched] at hfd
    exact Bool.false_ne_true hfd
  rw [step_files_of_ne hstep hne]
  exact h.files_eq fd hfd

/-- In every run: without the reads, seeks and seek requests on files that are not watched it is
    a run still, in which every call gets the same answer as before; it leaves the same
    commands and pending bytes, and the watched files at the same positions. -/
theorem answers_independent {cs : List (Op × Ret)} (hrun : (lts K).run aesdInitModule cs = some d)
    (watched : Nat → Bool) :
    ∃ e, (lts K).run aesdInitModule (cs.filter fun c => c.1.Matters watched) = some e ∧
      e.commands = d.commands ∧ e.pending = d.pending ∧
      ∀ fd, watched fd = true → e.files fd = d.files fd := by
  obtain ⟨e, hrun', hsame⟩ : ∃ e, (lts K).run aesdInitModule
      (cs.filter fun c => c.1.Matters watched) = some e ∧ SameFor watched d e := by
    refine Lts.run_induction (P := fun cs d => ∃ e, (lts K).run aesdInitModule
      (cs.filter fun c => c.1.Matters watched) = some e ∧ SameFor watched d e)
      ⟨_, rfl, .refl watched _⟩ (fun cs d c d' hcs ih hstep => ?_) hrun
    obtain ⟨e, hrun', hsame⟩ := ih
    have hstep' := Lts.ofCalls_step_eq_some.mp hstep
    rw [List.filter_append]
    cases hmatters : c.1.Matters watched with
    | false =>
      rw [List.filter_cons_of_neg (by simp [hmatters]), List.filter_nil, List.append_nil]
      exact ⟨e, hrun', hsame.skip (inv_of_run hcs) hmatters hstep'⟩
    | true =>
      obtain ⟨e', he', hsame'⟩ := hsame.step hmatters hstep'
      rw [List.filter_cons_of_pos (by simp [hmatters]), List.filter_nil]
      exact ⟨e', Lts.run_concat_eq_some.mpr ⟨e, hrun', Lts.ofCalls_step_eq_some.mpr he'⟩, hsame'⟩
  refine ⟨e, hrun', ?_, ?_, hsame.files_eq⟩
  · rw [commands, commands, hsame.heap_eq, hsame.dev_eq]
  · rw [pending, pending, hsame.heap_eq, hsame.dev_eq]

/-- Files 3 and 4 are read in turns, and file 4 is moved by a seek request. -/
def twoReaders : List (Op × Ret) :=
  [(.open 3, ⟨3, []⟩), (.open 4, ⟨4, []⟩), (.write 3 [97, newline, 98, newline] .ok, ⟨4, []⟩),
    (.ioctl 4 aesdcharIocseekto ⟨1, 0⟩ true, ⟨0, []⟩), (.llseek 3 0 0, ⟨0, []⟩),
    (.read 4 9 true, ⟨2, [98, newline]⟩), (.read 3 9 true, ⟨2, [97, newline]⟩)]

theorem answers_independent_twoReaders :
    ∃ e, (lts .page).run aesdInitModule
        [(.open 3, ⟨3, []⟩), (.open 4, ⟨4, []⟩),
          (.write 3 [97, newline, 98, newline] .ok, ⟨4, []⟩), (.llseek 3 0 0, ⟨0, []⟩),
          (.read 3 9 true, ⟨2, [97, newline]⟩)] = some e ∧
      e.files 3 = some 2 := by
  obtain ⟨d, hrun, hfiles⟩ : ∃ d, (lts .page).run aesdInitModule twoReaders = some d ∧
      d.files 3 = some 2 :=
    ⟨((lts .page).run aesdInitModule twoReaders).get (by decide), (Option.some_get _).symm,
      by decide⟩
  obtain ⟨e, he, -, -, hsame⟩ := answers_independent hrun fun fd => fd == 3
  exact ⟨e, he, (hsame 3 rfl).trans hfiles⟩

end Driver

end Aesd
