import Aesd.Spec.DriverStep

/-!
# Who owns the kernel memory

Between calls every block the driver has allocated is referenced exactly once, by a slot of
the ring or by `partial_write_buff`. `aesd_cleanup_module` frees what the slots refer to and
never a block twice, but it does not free `partial_write_buff`. So the module leaks one block
unless that pointer has no block when the module goes (`Driver.owned_until_cleanup`):
`PartialHeld` says what calls leave it with one.
-/

namespace Aesd

namespace Driver

variable {K : Kernel} {d d' : Driver}

/-- The blocks the driver refers to, once for each pointer to them. -/
def references (d : Driver) : List Nat :=
  d.dev.usedSlots.flatMap (·.buffptr.blocks) ++ d.dev.partialWriteBuff.blocks

/-- Each live block is referenced exactly once, and no other block is referenced. -/
structure OwnsHeap (d : Driver) : Prop where
  nodup : d.references.Nodup
  mem_live : ∀ i, i ∈ d.heap.live ↔ i ∈ d.references

theorem Inv.ownsHeap (h : d.Inv K) : d.OwnsHeap := by
  obtain ⟨-, cmds, pend, hdev, -⟩ := h.exists_owned
  have hslots : (d.dev.usedSlots.flatMap (·.buffptr.blocks)).Perm (cmds.map Prod.fst) := by
    have hperm := hdev.usedSlots_perm.flatMap_right (·.buffptr.blocks)
    have hids : (cmds.map entryOf).flatMap (·.buffptr.blocks) = cmds.map Prod.fst := by
      rw [List.map_eq_flatMap (f := Prod.fst), List.flatMap_map]
      rfl
    rwa [hids] at hperm
  have hperm := hslots.append_right d.dev.partialWriteBuff.blocks
  exact ⟨hperm.nodup_iff.mpr hdev.owns.nodup, fun i =>
    (hdev.owns.mem_live i).trans (hperm.mem_iff).symm⟩

/-! ### `aesd_cleanup_module` -/

/-- Freeing what a list of entries refers to, each block once. -/
theorem foldlM_kfree (es : List AesdBufferEntry) {heap : Heap UInt8}
    (hnodup : (es.flatMap (·.buffptr.blocks)).Nodup)
    (hlive : ∀ i ∈ es.flatMap (·.buffptr.blocks), i ∈ heap.live) :
    ∃ heap', es.foldlM (fun heap e => kfree heap e.buffptr) heap = some heap' ∧
      ∀ i, i ∈ heap'.live ↔ i ∈ heap.live ∧ i ∉ es.flatMap (·.buffptr.blocks) := by
  induction es generalizing heap with
  | nil => exact ⟨heap, rfl, by simp⟩
  | cons e es ih =>
    obtain ⟨p, size⟩ := e
    rw [List.flatMap_cons] at hnodup hlive
    cases p with
    | null => simpa [List.foldlM_cons, kfree] using ih hnodup hlive
    | zeroSize => simpa [List.foldlM_cons, kfree] using ih hnodup hlive
    | block id =>
      obtain ⟨hnot, hnodup'⟩ := List.nodup_cons.mp hnodup
      obtain ⟨cells, hget⟩ := Option.isSome_iff_exists.mp (Heap.mem_live.mp (hlive id (by simp)))
      obtain ⟨heap₁, hfree, -, hlive₁, -⟩ := Heap.free_of_get hget
      obtain ⟨heap', hfold, hlive'⟩ := @ih heap₁ hnodup' fun i hi => by
        rw [hlive₁, Finset.mem_erase]
        exact ⟨fun he => hnot (he ▸ hi), hlive i (List.mem_cons_of_mem _ hi)⟩
      refine ⟨heap', ?_, fun i => ?_⟩
      · rw [List.foldlM_cons, kfree, hfree, Option.bind_eq_bind, Option.bind_some, hfold]
      · rw [hlive', hlive₁, Finset.mem_erase, List.flatMap_cons]
        simp only [Ptr.blocks_block, List.cons_append, List.nil_append, List.mem_cons, not_or]
        tauto

/-- The module's exit frees every block but that of `partial_write_buff`. -/
theorem OwnsHeap.cleanup (h : d.OwnsHeap) :
    ∃ heap', aesdCleanupModule d.heap d.dev = some heap' ∧
      ∀ i, i ∈ heap'.live ↔ i ∈ d.dev.partialWriteBuff.blocks := by
  obtain ⟨hnodup, -, hdisj⟩ := List.nodup_append.mp h.nodup
  obtain ⟨heap', hfold, hlive⟩ := foldlM_kfree d.dev.usedSlots hnodup
    fun i hi => (h.mem_live i).mpr (List.mem_append_left _ hi)
  refine ⟨heap', hfold, fun i => ?_⟩
  rw [hlive, h.mem_live, references, List.mem_append]
  constructor
  · rintro ⟨hi | hi, hno⟩
    · exact absurd hi hno
    · exact hi
  · exact fun hi => ⟨.inr hi, fun hslot => hdisj i hslot i hi rfl⟩

/-! ### Which calls leave `partial_write_buff` with a block -/

/-- A write that is granted a buffer for at least one byte. -/
def GrowsPartial (K : Kernel) (d : Driver) (c : Op × Ret) : Prop :=
  ∃ fd data out, c.1 = .write fd data out ∧ d.TakesWrite fd data ∧
    0 < d.pending.length + data.length ∧ Grants K (d.pending.length + data.length) out.grow

/-- A write of no byte while none is pending, for which `krealloc` frees the buffer. -/
def EmptiesPartial (d : Driver) (c : Op × Ret) : Prop :=
  ∃ fd out, c.1 = .write fd [] out ∧ d.TakesWrite fd [] ∧ d.pending = []

/-- A write was granted its buffer, and no later write freed it. -/
inductive PartialHeld (K : Kernel) : List (Op × Ret) → Prop
  | grown {cs : List (Op × Ret)} {d : Driver} {c : Op × Ret} :
    (lts K).run aesdInitModule cs = some d → GrowsPartial K d c → PartialHeld K (cs ++ [c])
  | kept {cs : List (Op × Ret)} {d : Driver} {c : Op × Ret} : PartialHeld K cs →
    (lts K).run aesdInitModule cs = some d → ¬ EmptiesPartial d c → PartialHeld K (cs ++ [c])

theorem partialHeld_concat {cs : List (Op × Ret)} {c : Op × Ret}
    (hrun : (lts K).run aesdInitModule cs = some d) :
    PartialHeld K (cs ++ [c]) ↔ GrowsPartial K d c ∨ PartialHeld K cs ∧ ¬ EmptiesPartial d c := by
  constructor
  · intro h
    generalize hcs : cs ++ [c] = cs' at h
    cases h with
    | grown hrun' hgrow =>
      obtain ⟨rfl, rfl⟩ := List.append_inj' hcs rfl |>.imp id (List.singleton_inj.mp)
      rw [hrun, Option.some.injEq] at hrun'
      exact .inl (hrun' ▸ hgrow)
    | kept hheld hrun' hno =>
      obtain ⟨rfl, rfl⟩ := List.append_inj' hcs rfl |>.imp id (List.singleton_inj.mp)
      rw [hrun, Option.some.injEq] at hrun'
      exact .inr ⟨hheld, hrun' ▸ hno⟩
  · rintro (hgrow | ⟨hheld, hno⟩)
    · exact .grown hrun hgrow
    · exact .kept hheld hrun hno

/-- One call and the pointer `partial_write_buff`. -/
theorem Inv.partial_step (h : d.Inv K) {c : Op × Ret} (hstep : step K d c.1 = some (c.2, d')) :
    d'.dev.partialWriteBuff.blocks ≠ [] ↔
      GrowsPartial K d c ∨ d.dev.partialWriteBuff.blocks ≠ [] ∧ ¬ EmptiesPartial d c := by
  by_cases htakes : ∃ fd data out, c.1 = .write fd data out ∧ d.TakesWrite fd data
  · obtain ⟨fd, data, out, hc, hopen, hlen⟩ := htakes
    rw [hc] at hstep
    obtain ⟨fPos, hfd⟩ := Option.isSome_iff_exists.mp hopen
    obtain ⟨hlock, cmds, pend, hdev, -, hpend⟩ := h.exists_owned
    obtain ⟨ok, fPos', heap', dev', cmds', pend', hwrite, -, -, -, -, hgrants, hrefused⟩ :=
      aesdWrite_spec hdev hlock hlen fPos out
    simp only [step, hfd, if_pos hlen, hwrite, Option.bind_eq_bind, Option.bind_some,
      Option.some.injEq, Prod.mk.injEq] at hstep
    have hgrows : GrowsPartial K d c ↔ 0 < pend.length + data.length ∧
        Grants K (pend.length + data.length) out.grow := by
      simp only [GrowsPartial, hc, Op.write.injEq, hpend]
      constructor
      · rintro ⟨_, _, _, ⟨rfl, rfl, rfl⟩, -, hpos, hg⟩; exact ⟨hpos, hg⟩
      · rintro ⟨hpos, hg⟩; exact ⟨_, _, _, ⟨rfl, rfl, rfl⟩, ⟨hopen, hlen⟩, hpos, hg⟩
    have hempties : EmptiesPartial d c ↔ pend.length + data.length = 0 := by
      simp only [EmptiesPartial, hc, Op.write.injEq, hpend, Nat.add_eq_zero_iff,
        List.length_eq_zero_iff]
      constructor
      · rintro ⟨_, _, ⟨rfl, rfl, rfl⟩, -, hnil⟩; exact ⟨hnil, rfl⟩
      · rintro ⟨hnil, rfl⟩; exact ⟨_, _, ⟨rfl, rfl, rfl⟩, ⟨hopen, hlen⟩, hnil⟩
    rw [← hstep.2, dev_setPos, hgrows, hempties]
    by_cases hg : Grants K (pend.length + data.length) out.grow
    · rw [ne_eq, hgrants hg, ← ne_eq, ← Nat.pos_iff_ne_zero]
      tauto
    · have hpos : ¬ pend.length + data.length = 0 := fun hzero => hg (.inl hzero)
      rw [hrefused hg]
      tauto
  · have hgrows : ¬ GrowsPartial K d c := by
      rintro ⟨fd, data, out, hc, ht, -⟩
      exact htakes ⟨fd, data, out, hc, ht⟩
    have hempties : ¬ EmptiesPartial d c := by
      rintro ⟨fd, out, hc, ht, -⟩
      exact htakes ⟨fd, [], out, hc, ht⟩
    have hsame : d'.dev = d.dev := by
      obtain ⟨op, r⟩ := c
      obtain ⟨-, heff⟩ := h.effect hstep
      cases heff with
      | stored ht _ => exact absurd ⟨_, _, _, rfl, ht⟩ htakes
      | failed ht _ _ => exact absurd ⟨_, _, _, rfl, ht⟩ htakes
      | rejected _ _ => rfl
      | kept _ _ hdev => exact hdev
    rw [hsame]
    tauto

theorem partial_blocks_iff {cs : List (Op × Ret)} (hrun : (lts K).run aesdInitModule cs = some d) :
    d.dev.partialWriteBuff.blocks ≠ [] ↔ PartialHeld K cs := by
  refine Lts.run_induction
    (P := fun cs d => d.dev.partialWriteBuff.blocks ≠ [] ↔ PartialHeld K cs) ?_ ?_ hrun
  · constructor
    · exact fun hne => absurd rfl hne
    · intro hheld
      generalize hcs : ([] : List (Op × Ret)) = cs at hheld
      cases hheld <;> exact absurd hcs (by simp)
  · intro cs d c d' hcs ih hstep
    rw [(inv_of_run hcs).partial_step (Lts.ofCalls_step_eq_some.mp hstep), ih,
      partialHeld_concat hcs]

/-- Any calls can be made after `aesd_init_module`, and the module be removed then: no block is
    freed twice, each live block has one owner before the removal, and nothing is allocated
    after it if and only if no write's buffer is still held. -/
theorem owned_until_cleanup (K : Kernel) (ops : List Op) :
    ∃ cs d heap', cs.map Prod.fst = ops ∧ (lts K).run aesdInitModule cs = some d ∧ d.OwnsHeap ∧
      aesdCleanupModule d.heap d.dev = some heap' ∧ (heap'.live = ∅ ↔ ¬ PartialHeld K cs) := by
  obtain ⟨cs, d, hops, hrun⟩ := exists_run K ops
  have howns := (inv_of_run hrun).ownsHeap
  obtain ⟨heap', hcleanup, hlive⟩ := howns.cleanup
  refine ⟨cs, d, heap', hops, hrun, howns, hcleanup, ?_⟩
  rw [← partial_blocks_iff hrun, not_not, Finset.eq_empty_iff_forall_notMem,
    List.eq_nil_iff_forall_not_mem]
  exact forall_congr' fun i => not_congr (hlive i)

/-- One command is written and the file is closed; the module is removed then. The block left
    over is that of `partial_write_buff`, which the first allocation of the run made. -/
theorem cleanup_leaves_partial :
    (((lts .page).run aesdInitModule [(.open 3, ⟨3, []⟩), (.write 3 [97, 10] .ok, ⟨2, []⟩),
        (.release 3, ⟨0, []⟩)]).bind fun d => aesdCleanupModule d.heap d.dev).map Heap.live =
      some {0} := by
  decide

end Driver

end Aesd
