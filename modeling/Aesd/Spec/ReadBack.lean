import Aesd.Spec.DriverStep

/-!
# Reading the device back

A read at position `p` returns a nonempty prefix of what follows `p` in the contents and
moves the position past it, until the position is at the end, where it returns nothing
(`Driver.Inv.read_step`). So reads in a row lay the rest of the contents out in pieces,
one piece a call, with nothing left out or repeated at the border of two commands
(`Driver.reads_return_contents`).
-/

namespace Aesd

namespace Driver

variable {K : Kernel} {d : Driver}

/-- One read at position `p`. -/
theorem Inv.read_step (h : d.Inv K) {p : Nat} (hp : p < 2 ^ 63) (fd count : Nat) :
    (d.contents.length ≤ p ∧ ∀ copied,
      step K (d.setPos fd p) (.read fd count copied) = some (⟨0, []⟩, d.setPos fd p)) ∨
    (p < d.contents.length ∧ ∃ n, n ≤ count ∧ (0 < count → 0 < n) ∧ p + n ≤ d.contents.length ∧
      step K (d.setPos fd p) (.read fd count true) =
        some (⟨n, (d.contents.drop p).take n⟩, d.setPos fd ((p + n : Nat) : Int)) ∧
      step K (d.setPos fd p) (.read fd count false) = some (⟨-1, []⟩, d.setPos fd p)) := by
  have hlen := h.contents_length_lt
  obtain ⟨hlock, cmds, pend, hdev, hcmds, -⟩ := h.exists_owned
  have hstep : ∀ copied, step K (d.setPos fd p) (.read fd count copied) =
      (aesdRead d.heap d.dev p count copied).bind fun r =>
        some (r.1, ({ d with dev := r.2.2 } : Driver).setPos fd r.2.1) := by
    intro copied
    simp only [step, files_setPos_self, heap_setPos, dev_setPos]
    rw [Option.bind_eq_bind]
    refine congrArg _ (funext fun r => ?_)
    exact congrArg (fun d => some (r.1, d)) (setPos_setPos { d with dev := r.2.2 } fd p r.2.1)
  rw [contents, hcmds] at hlen ⊢
  rcases hdev.aesdRead_spec hlock hlen hp count with
    ⟨hend, hread⟩ | ⟨hlt, n, hn, hpos, hpn, hread, hfault⟩
  · refine .inl ⟨hend, fun copied => ?_⟩
    rw [hstep, hread copied, Option.bind_some]
  · refine .inr ⟨hlt, n, hn, hpos, hpn, ?_, ?_⟩
    · rw [hstep, hread, Option.bind_some]
    · rw [hstep, hfault, Option.bind_some]

/-- Reads in a row from position `p`, the `k`-th with room for `counts (i + k)` bytes. -/
theorem Inv.exists_pieces (h : d.Inv K) (fd : Nat) {counts : Nat → Nat}
    (hcounts : ∀ k, 0 < counts k) {p : Nat} (hp : p < 2 ^ 63) (i : Nat) :
    ∃ pieces : List (List UInt8), pieces.flatten = d.contents.drop p ∧
      ∀ k (hk : k < pieces.length), pieces[k] ≠ [] ∧ pieces[k].length ≤ counts (i + k) ∧
        step K (d.setPos fd ((p + (pieces.take k).flatten.length : Nat) : Int))
            (.read fd (counts (i + k)) true) =
          some (⟨pieces[k].length, pieces[k]⟩,
            d.setPos fd ((p + (pieces.take (k + 1)).flatten.length : Nat) : Int)) := by
  have hlen := h.contents_length_lt
  induction hn : d.contents.length - p using Nat.strongRecOn generalizing p i with
  | ind m ih =>
    rcases h.read_step hp fd (counts i) with
      ⟨hend, -⟩ | ⟨hlt, n, hle, hpos, hpn, hread, -⟩
    · exact ⟨[], by rw [List.drop_eq_nil_of_le hend]; rfl, fun k hk => absurd hk (by simp)⟩
    · have hpos' := hpos (hcounts i)
      have hpiece : ((d.contents.drop p).take n).length = n := by
        simp only [List.length_take, List.length_drop]
        omega
      obtain ⟨pieces, hflat, hsteps⟩ := ih (d.contents.length - (p + n)) (by omega)
        (p := p + n) (by omega) (i + 1) rfl
      refine ⟨(d.contents.drop p).take n :: pieces, ?_, fun k hk => ?_⟩
      · rw [List.flatten_cons, hflat, ← List.drop_drop, List.take_append_drop]
      · cases k with
        | zero =>
          refine ⟨?_, ?_, ?_⟩
          · rw [List.getElem_cons_zero, ← List.length_pos_iff, hpiece]
            exact hpos'
          · rw [List.getElem_cons_zero, hpiece]
            exact hle
          · simpa [hpiece] using hread
        | succ k =>
          obtain ⟨hne, hcount, hstep⟩ := hsteps k (by simpa using hk)
          have hi : i + (k + 1) = i + 1 + k := by omega
          rw [hi, List.getElem_cons_succ, List.take_succ_cons, List.take_succ_cons,
            List.flatten_cons, List.flatten_cons, List.length_append, List.length_append, hpiece,
            ← Nat.add_assoc p n, ← Nat.add_assoc p n]
          exact ⟨hne, hcount, hstep⟩

/-- Reading on from position `p` of any reachable device returns the rest of its contents in
    finitely many nonempty pieces, none longer than its count, each call moving the position
    past its piece and changing nothing else; then, and only at the end of the contents, a call
    returns `0`. A call whose copy fails changes nothing at all. -/
theorem reads_return_contents {cs : List (Op × Ret)}
    (hrun : (lts K).run aesdInitModule cs = some d) {p : Nat} (hp : p < 2 ^ 63) (fd : Nat)
    {counts : Nat → Nat} (hcounts : ∀ k, 0 < counts k) :
    (∃ pieces : List (List UInt8), pieces.flatten = d.contents.drop p ∧
      (∀ k (hk : k < pieces.length), pieces[k] ≠ [] ∧ pieces[k].length ≤ counts k ∧
        step K (d.setPos fd ((p + (pieces.take k).flatten.length : Nat) : Int))
            (.read fd (counts k) true) =
          some (⟨pieces[k].length, pieces[k]⟩,
            d.setPos fd ((p + (pieces.take (k + 1)).flatten.length : Nat) : Int))) ∧
      step K (d.setPos fd ((p + pieces.flatten.length : Nat) : Int))
          (.read fd (counts pieces.length) true) =
        some (⟨0, []⟩, d.setPos fd ((p + pieces.flatten.length : Nat) : Int))) ∧
    (∀ q count copied bytes d', q < 2 ^ 63 → 0 < count →
      step K (d.setPos fd (q : Nat)) (.read fd count copied) = some (⟨0, bytes⟩, d') →
        d.contents.length ≤ q) ∧
    ∀ (q : Int) count r d',
      step K (d.setPos fd q) (.read fd count false) = some (r, d') → d' = d.setPos fd q := by
  have hinv := inv_of_run hrun
  have hlen := hinv.contents_length_lt
  refine ⟨?_, ?_, ?_⟩
  · obtain ⟨pieces, hflat, hsteps⟩ := hinv.exists_pieces fd hcounts hp 0
    simp only [Nat.zero_add] at hsteps
    refine ⟨pieces, hflat, hsteps, ?_⟩
    have hrest : pieces.flatten.length = d.contents.length - p := by
      rw [hflat, List.length_drop]
    rcases hinv.read_step (p := p + pieces.flatten.length) (by omega) fd
        (counts pieces.length) with ⟨-, hread⟩ | ⟨hlt, -⟩
    · exact hread true
    · omega
  · intro q count copied bytes d' hq hcount hstep
    rcases hinv.read_step hq fd count with ⟨hend, -⟩ | ⟨-, n, -, hpos, -, hread, hfault⟩
    · exact hend
    · have hn := hpos hcount
      cases copied with
      | true =>
        rw [hread] at hstep
        simp only [Option.some.injEq, Prod.mk.injEq, Ret.mk.injEq] at hstep
        omega
      | false =>
        rw [hfault] at hstep
        simp at hstep
  · intro q count r d' hstep
    obtain ⟨hlock, cmds, pend, hdev, -⟩ := hinv.exists_owned
    obtain ⟨ret, fPos', hread, hsame⟩ := hdev.aesdRead_total hlock q count false
    simp only [step, files_setPos_self, heap_setPos, dev_setPos, hread, hsame rfl,
      Option.bind_eq_bind, Option.bind_some, Option.some.injEq, Prod.mk.injEq] at hstep
    rw [← hstep.2]
    exact setPos_setPos { d with dev := d.dev } fd q q

theorem reads_return_contents_page :
    ∃ d, (lts .page).run aesdInitModule
        [(.open 3, ⟨3, []⟩), (.write 3 [97, 10, 98, 10] .ok, ⟨4, []⟩)] = some d ∧
      ∃ pieces : List (List UInt8), pieces.flatten = [10, 98, 10] ∧
        ∀ k (hk : k < pieces.length), pieces[k] ≠ [] ∧ pieces[k].length ≤ 2 := by
  refine ⟨((lts .page).run aesdInitModule
    [(.open 3, ⟨3, []⟩), (.write 3 [97, 10, 98, 10] .ok, ⟨4, []⟩)]).get (by decide),
    (Option.some_get _).symm, ?_⟩
  obtain ⟨⟨pieces, hflat, hsteps, -⟩, -⟩ := reads_return_contents (K := .page)
    (Option.some_get (by decide : ((lts .page).run aesdInitModule
      [(.open 3, ⟨3, []⟩), (.write 3 [97, 10, 98, 10] .ok, ⟨4, []⟩)]).isSome)).symm
    (p := 1) (by decide) 3 fun _ => show 0 < 2 by decide
  exact ⟨pieces, hflat, fun k hk => ⟨(hsteps k hk).1, (hsteps k hk).2.1⟩⟩

end Driver

end Aesd
