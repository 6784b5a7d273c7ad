import Aesd.Spec.DriverStep

/-!
# When a failed write leaves no trace

Three of the four ways in which `aesd_write` can fail leave the device as it was. The fourth
does not: when the buffer for one of the complete commands is refused, the data is already
part of the pending bytes and the commands before it are already in the ring, so the caller
who tries again writes them a second time. `Driver.writes_atomic_iff` shows that this is the
only way: in a run every failed write is atomic just when no write of the run is refused a
command buffer.
-/

namespace Aesd

namespace Driver

variable {K : Kernel} {d d' : Driver}

/-- A write whose data was taken over is then refused the buffer of a complete command. -/
def CommandRefused (K : Kernel) (d : Driver) (c : Op × Ret) : Prop :=
  ∃ fd data out, c.1 = .write fd data out ∧ d.TakesWrite fd data ∧
    Grants K (d.pending.length + data.length) out.grow ∧ min out.notCopied data.length = 0 ∧
    ∃ m < (commandLines (d.pending ++ data)).length, out.command m = false

/-- If the call is a write that fails, then commands, pending bytes and file positions stay,
    and the same buffer, written again with success, adds each of its commands once. -/
def FailsCleanly (K : Kernel) (d : Driver) (c : Op × Ret) : Prop :=
  ∀ fd data out, c.1 = .write fd data out → c.2.val < 0 →
    ∀ d', step K d c.1 = some (c.2, d') →
      (d'.commands = d.commands ∧ d'.pending = d.pending ∧ d'.files = d.files) ∧
      ∀ out' r d'', step K d' (.write fd data out') = some (r, d'') → 0 ≤ r.val →
        d''.commands = (d.commands ++ commandLines (d.pending ++ data)).rtake 10 ∧
        d''.pending = commandRest (d.pending ++ data)

/-- What a write that does not fail does. -/
theorem Inv.write_stored (h : d.Inv K) {fd : Nat} {data : List UInt8} {out : WriteOutcome} {r : Ret}
    (hstep : step K d (.write fd data out) = some (r, d')) (hr : 0 ≤ r.val) :
    d'.commands = (d.commands ++ commandLines (d.pending ++ data)).rtake 10 ∧
      d'.pending = commandRest (d.pending ++ data) := by
  obtain ⟨-, heff⟩ := h.effect hstep
  cases heff with
  | stored htakes hres =>
    generalize d'.commands = commands, d'.pending = pend at hres ⊢
    cases hres with
    | stored hgrants hcopied hgranted => exact ⟨rfl, rfl⟩
  | failed htakes hres hfiles => exact absurd hr (by decide)
  | rejected hrej _ => rcases hrej with rfl | rfl <;> exact absurd hr (by decide)
  | kept hop hheap hdev => exact absurd rfl (hop fd data out)

/-- A write that is granted everything returns its count. -/
theorem Inv.write_granted (h : d.Inv K) {fd : Nat} {data : List UInt8} {out : WriteOutcome}
    (htakes : d.TakesWrite fd data) (hgrants : Grants K (d.pending.length + data.length) out.grow)
    (hcopied : out.notCopied = 0) (hcommands : ∀ m, out.command m = true) :
    ∃ d', step K d (.write fd data out) = some (⟨data.length, []⟩, d') := by
  obtain ⟨r, d', hstep, -, heff⟩ := h.step_total (.write fd data out)
  cases heff with
  | stored _ _ => exact ⟨d', hstep⟩
  | failed _ hres _ =>
    generalize d'.commands = commands, d'.pending = pend at hres
    cases hres with
    | refused hno => exact absurd ⟨hgrants, by rw [hcopied, Nat.zero_min]⟩ hno
    | cut m _ _ _ hrefused =>
      rw [hcommands] at hrefused
      exact nomatch hrefused
  | rejected _ hno => exact absurd htakes (hno fd data out rfl)
  | kept hop _ _ => exact absurd rfl (hop fd data out)

/-- A failed write that was not refused a command buffer changes nothing. -/
theorem Inv.write_failed (h : d.Inv K) {c : Op × Ret} (hok : ¬ CommandRefused K d c)
    {fd : Nat} {data : List UInt8} {out : WriteOutcome} (hc : c.1 = .write fd data out)
    (hr : c.2.val < 0) (hstep : step K d c.1 = some (c.2, d')) :
    d'.commands = d.commands ∧ d'.pending = d.pending ∧ d'.files = d.files := by
  obtain ⟨op, r⟩ := c
  obtain rfl : op = .write fd data out := hc
  obtain ⟨-, heff⟩ := h.effect hstep
  cases heff with
  | stored htakes hres => simp only at hr; omega
  | failed htakes hres hfiles =>
    generalize hcmds : d'.commands = commands, hpend : d'.pending = pend at hres
    cases hres with
    | refused hno => exact ⟨rfl, rfl, hfiles⟩
    | cut m hgrants hcopied hm hrefused =>
      exact absurd ⟨fd, data, out, rfl, htakes, hgrants, hcopied, m, hm, hrefused⟩ hok
  | rejected hrej _ => exact ⟨rfl, rfl, rfl⟩
  | kept hop hheap hdev => exact absurd rfl (hop fd data out)

theorem Inv.failsCleanly (h : d.Inv K) {c : Op × Ret} (hok : ¬ CommandRefused K d c) :
    FailsCleanly K d c := by
  intro fd data out hc hr d' hstep
  obtain ⟨hcmds, hpend, hfiles⟩ := h.write_failed hok hc hr hstep
  refine ⟨⟨hcmds, hpend, hfiles⟩, fun out' r d'' hretry hr' => ?_⟩
  rw [← hcmds, ← hpend]
  exact (h.effect hstep).1.write_stored hretry hr'

/-- While failed writes are atomic, no newline stays pending. -/
theorem pending_no_newline {cs : List (Op × Ret)} (hrun : (lts K).run aesdInitModule cs = some d)
    (hclean : (lts K).Along (FailsCleanly K) aesdInitModule cs) :
    ∀ x ∈ d.pending, isNewline x = false := by
  refine Lts.run_induction (P := fun cs d => (lts K).Along (FailsCleanly K) aesdInitModule cs →
    ∀ x ∈ d.pending, isNewline x = false) ?_ ?_ hrun hclean
  · intro _ x hx
    rw [show aesdInitModule.pending = [] from (DevInv.init K).pending_eq _] at hx
    exact absurd hx List.not_mem_nil
  · intro cs d c d' hcs ih hstep hclean
    obtain ⟨hbefore, hlast⟩ := Lts.along_concat.mp hclean
    have hpend := ih hbefore
    have hstep' := Lts.ofCalls_step_eq_some.mp hstep
    obtain ⟨op, r⟩ := c
    obtain ⟨-, heff⟩ := (inv_of_run hcs).effect hstep'
    cases heff with
    | stored htakes hres =>
      generalize d'.commands = commands, d'.pending = pend at hres ⊢
      cases hres with
      | stored hgrants hcopied hgranted => exact fun x hx => Lines.sep_eq_false_of_mem_rest hx
    | failed htakes hres hfiles =>
      obtain ⟨⟨-, hsame, -⟩, -⟩ := hlast d hcs _ _ _ rfl (by simp) d' hstep'
      rwa [hsame]
    | rejected hrej _ => exact hpend
    | kept hop hheap hdev =>
      rwa [pending, hheap, hdev, ← pending]

/-- A write that is refused a command buffer is not atomic where no newline was pending. -/
theorem Inv.not_failsCleanly (h : d.Inv K) (hpend : ∀ x ∈ d.pending, isNewline x = false)
    {c : Op × Ret} (hc : CommandRefused K d c) (hstep : step K d c.1 = some (c.2, d')) :
    ¬ FailsCleanly K d c := by
  obtain ⟨op, r⟩ := c
  obtain ⟨fd, data, out, rfl, htakes, hgrants, hcopied, m, hm, hrefused⟩ := hc
  intro hclean
  obtain ⟨-, heff⟩ := h.effect hstep
  cases heff with
  | stored _ hres =>
    generalize d'.commands = commands, d'.pending = pend at hres
    cases hres with
    | stored _ _ hgranted => exact absurd (hgranted m hm) (by simp [hrefused])
  | failed _ hres hfiles =>
    obtain ⟨⟨-, hsame, -⟩, -⟩ := hclean _ _ _ rfl (by simp) d' hstep
    generalize d'.commands = commands, hp : d'.pending = pend at hres hsame
    cases hres with
    | refused hno => exact hno ⟨hgrants, hcopied⟩
    | cut n _ _ hn _ =>
      -- the refused line is pending now, with its newline
      obtain ⟨body, s, hline, hs, -⟩ :=
        Lines.isLine_of_mem_lines (List.getElem_mem hn : (commandLines (d.pending ++ data))[n] ∈ _)
      have hmem : s ∈ ((commandLines (d.pending ++ data)).drop n).flatten ++
          commandRest (d.pending ++ data) := by
        rw [List.drop_eq_getElem_cons hn, hline]
        simp
      rw [hsame] at hmem
      exact absurd hs (by simp [hpend s hmem])
  | rejected _ hno => exact hno _ _ _ rfl htakes
  | kept hop _ _ => exact hop fd data out rfl

/-- In a run, every failed write is atomic if and only if no write whose data was taken over
    is refused the buffer of one of its complete commands. -/
theorem writes_atomic_iff {cs : List (Op × Ret)}
    (hrun : (lts K).run aesdInitModule cs = some d) :
    (lts K).Along (FailsCleanly K) aesdInitModule cs ↔
      (lts K).Along (fun d c => ¬ CommandRefused K d c) aesdInitModule cs := by
  constructor
  · intro hclean pre c post s hcs hpre hrefused
    rw [hcs] at hrun
    obtain ⟨s', hpre', hrest⟩ := Lts.run_append_eq_some.mp hrun
    rw [hpre, Option.some.injEq] at hpre'
    subst hpre'
    obtain ⟨s', hstep, -⟩ := Lts.run_cons_eq_some.mp hrest
    rw [hcs] at hclean
    exact (inv_of_run hpre).not_failsCleanly (pending_no_newline hpre hclean.of_append) hrefused
      (Lts.ofCalls_step_eq_some.mp hstep) (hclean pre c post s rfl hpre)
  · intro hok pre c post s hcs hpre
    exact (inv_of_run hpre).failsCleanly (hok pre c post s hcs hpre)

/-- A file is opened, and `"a\nb\n"` is written to it while there is memory for the first of
    the two commands only. -/
def halfStored : List (Op × Ret) :=
  [(.open 3, ⟨3, []⟩), (.write 3 [97, 10, 98, 10] ⟨true, 0, fun i => i == 0⟩, ⟨-1, []⟩)]

/-- The run is possible, and the failed write has stored its first command. -/
theorem writes_atomic_iff_halfStored :
    ((lts .page).Along (FailsCleanly .page) aesdInitModule halfStored ↔
      (lts .page).Along (fun d c => ¬ CommandRefused .page d c) aesdInitModule halfStored) ∧
    ((lts .page).run aesdInitModule halfStored).isSome :=
  ⟨writes_atomic_iff (d := ((lts .page).run aesdInitModule halfStored).get (by decide))
    (Option.some_get _).symm, by decide⟩

theorem halfStored_not_atomic :
    ((lts .page).run aesdInitModule (halfStored.take 1)).map (fun d => (d.commands, d.pending)) =
        some ([], []) ∧
      ((lts .page).run aesdInitModule halfStored).map (fun d => (d.commands, d.pending)) =
        some ([[97, 10]], [98, 10]) ∧
      ¬ (lts .page).Along (FailsCleanly .page) aesdInitModule halfStored := by
  refine ⟨by decide, by decide, fun hclean => ?_⟩
  have hfails := hclean (halfStored.take 1) _ [] (aesdInitModule.setPos 3 0) rfl rfl
  obtain ⟨⟨hsame, -⟩, -⟩ := hfails 3 [97, 10, 98, 10] _ rfl (by decide)
    (((lts .page).run aesdInitModule halfStored).get (by decide)) rfl
  exact absurd hsame (by decide)

end Driver

end Aesd
