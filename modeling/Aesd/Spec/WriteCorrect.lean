import Aesd.Spec.DriverInvariant

/-!
# `aesd_write`

One lemma for each stage of a write: the grown buffer keeps the pending bytes and has room
for the new ones (`growPartial_spec`), the copy puts them there (`copyFromUser_spec`), and
the newline loop moves the complete lines into the ring, one a round, until it has moved
them all or a command buffer is refused (`newlineLoop_spec`). `aesdWrite_spec` puts them
together; `WriteResult` is everything a write can do to the device.
-/

namespace Aesd

variable {K : Kernel} {heap : Heap UInt8} {dev : AesdDev} {cmds : List OwnedCommand}
  {pend : List UInt8}

/-! ### Allocation -/

/-- The allocator grants a request of `size` bytes: it never refuses one for no byte, and it
    cannot grant one above its largest block. -/
def Grants (K : Kernel) (size : Nat) (granted : Bool) : Prop :=
  size = 0 ∨ granted = true ∧ size ≤ K.kmallocMaxSize

theorem kmalloc_zero (K : Kernel) (heap : Heap UInt8) (granted : Bool) :
    kmalloc K heap 0 granted = (.zeroSize, heap) := by
  simp [kmalloc]

theorem kmalloc_granted {size : Nat} {granted : Bool} (hpos : 0 < size) (hg : granted = true)
    (hmax : size ≤ K.kmallocMaxSize) :
    kmalloc K heap size granted =
      (.block heap.fresh, (heap.alloc (K.uninitBytes heap.fresh size)).2) := by
  rw [kmalloc, if_neg (by omega), if_pos (by simp [hg, hmax])]

theorem kmalloc_refused {size : Nat} {granted : Bool} (hpos : 0 < size)
    (h : ¬ (granted = true ∧ size ≤ K.kmallocMaxSize)) :
    kmalloc K heap size granted = (.null, heap) := by
  rw [kmalloc, if_neg (by omega), if_neg (by simpa using h)]

/-- A granted `krealloc` of a block moves its bytes to a new one. -/
theorem krealloc_granted {id newSize : Nat} {cells : List UInt8}
    (hget : heap.get id = some cells) (hpos : 0 < newSize) (hmax : newSize ≤ K.kmallocMaxSize) :
    ∃ heap' added, krealloc K heap (.block id) newSize true = some (.block heap.fresh, heap') ∧
      heap'.get heap.fresh = some (cells.take newSize ++ added) ∧
      (cells.take newSize ++ added).length = newSize ∧
      heap'.live = insert heap.fresh (heap.live.erase id) ∧
      ∀ i, i ≠ id → i ≠ heap.fresh → heap'.get i = heap.get i := by
  obtain ⟨heap₁, hfree, hfresh, hlive, hsame⟩ := Heap.free_of_get hget
  refine ⟨_, (K.uninitBytes heap.fresh newSize).drop (cells.take newSize).length, by
    simp only [krealloc, if_neg (show ¬ newSize = 0 by omega), Bool.true_and,
      decide_eq_true_eq, if_pos hmax, hget, hfree, hfresh, Option.bind_eq_bind,
      Option.bind_some]; rfl, ?_, ?_, ?_, ?_⟩
  · rw [← hfresh, Heap.get_alloc_self]
  · simp only [List.length_append, List.length_take, List.length_drop, Kernel.length_uninitBytes]
    omega
  · rw [Heap.live_alloc, hfresh, hlive]
  · intro i hi hif
    rw [Heap.get_alloc_of_ne _ (by rw [hfresh]; exact hif), hsame i hi]

/-! ### Ownership -/

namespace Owns

variable {p : Ptr} {heap' : Heap UInt8}

theorem live_of_mem (h : Owns K heap cmds p pend) {c : OwnedCommand} (hc : c ∈ cmds) :
    c.1 ∈ heap.live :=
  (h.mem_live c.1).mpr (List.mem_append_left _ (List.mem_map_of_mem hc))

theorem not_mem_blocks (h : Owns K heap cmds p pend) {c : OwnedCommand} (hc : c ∈ cmds) :
    c.1 ∉ p.blocks :=
  fun hp => (List.nodup_append.mp h.nodup).2.2 c.1 (List.mem_map_of_mem hc) c.1 hp rfl

/-- The partial write buffer gives its block up for another pointer. -/
theorem replace_partial (h : Owns K heap cmds p pend) {q : Ptr} {pend' : List UInt8}
    (hholds : HoldsAt K heap' q pend' 0) (hq : q.blocks.Nodup)
    (hnew : ∀ i ∈ q.blocks, i ∉ heap.live)
    (hlive : ∀ i, i ∈ heap'.live ↔ i ∈ q.blocks ∨ i ∈ heap.live ∧ i ∉ p.blocks)
    (hsame : ∀ i ∈ heap.live, i ∉ p.blocks → heap'.get i = heap.get i) :
    Owns K heap' cmds q pend' := by
  refine { h with stored := fun c hc => ?_, holds := hholds, nodup := ?_, mem_live := fun i => ?_ }
  · rw [hsame c.1 (h.live_of_mem hc) (h.not_mem_blocks hc), h.stored c hc]
  · refine List.nodup_append.mpr ⟨(List.nodup_append.mp h.nodup).1, hq, ?_⟩
    rintro a ha b hb rfl
    exact hnew a hb ((h.mem_live a).mpr (List.mem_append_left _ ha))
  · rw [hlive i, List.mem_append]
    constructor
    · rintro (hi | ⟨hl, hp⟩)
      · exact .inr hi
      · exact .inl ((List.mem_append.mp ((h.mem_live i).mp hl)).resolve_right hp)
    · rintro (hi | hi)
      · obtain ⟨c, hc, rfl⟩ := List.mem_map.mp hi
        exact .inr ⟨h.live_of_mem hc, h.not_mem_blocks hc⟩
      · exact .inl hi

/-- The partial write buffer holds other bytes; the commands are not touched. -/
theorem set_pending (h : Owns K heap cmds p pend) {pend' : List UInt8}
    (hlive : heap'.live = heap.live) (hholds : HoldsAt K heap' p pend' 0)
    (hsame : ∀ i, i ∉ p.blocks → heap'.get i = heap.get i) : Owns K heap' cmds p pend' := by
  refine { h with stored := fun c hc => ?_, holds := hholds,
                  mem_live := fun i => by rw [hlive]; exact h.mem_live i }
  rw [hsame c.1 (h.not_mem_blocks hc), h.stored c hc]

/-- A new block that holds a complete line is one more command. -/
theorem add (h : Owns K heap cmds p pend) {id : Nat} {line : List UInt8}
    (hline : Lines.IsLine isNewline line) (hmax : line.length ≤ K.kmallocMaxSize)
    (hnew : id ∉ heap.live) (hget : heap'.get id = some line)
    (hlive : heap'.live = insert id heap.live)
    (hsame : ∀ i ∈ heap.live, heap'.get i = heap.get i) :
    Owns K heap' (cmds ++ [(id, line)]) p pend := by
  have hid : id ∉ cmds.map Prod.fst ++ p.blocks := fun hi => hnew ((h.mem_live id).mpr hi)
  have hperm : ((cmds ++ [(id, line)]).map Prod.fst ++ p.blocks).Perm
      (id :: (cmds.map Prod.fst ++ p.blocks)) := by
    simp only [List.map_append, List.map_cons, List.map_nil, List.append_assoc]
    exact List.perm_middle
  refine { stored := ?_, isLine := ?_, length_le := ?_, holds := ?_,
           nodup := hperm.nodup_iff.mpr (List.nodup_cons.mpr ⟨hid, h.nodup⟩),
           mem_live := fun i => ?_ }
  · refine List.forall_mem_append.mpr ⟨fun c hc => ?_, by simpa using hget⟩
    rw [hsame c.1 (h.live_of_mem hc), h.stored c hc]
  · exact List.forall_mem_append.mpr ⟨h.isLine, by simpa using hline⟩
  · exact List.forall_mem_append.mpr ⟨h.length_le, by simpa using hmax⟩
  · exact h.holds.congr fun i hi => hsame i ((h.mem_live i).mpr (List.mem_append_right _ hi))
  · rw [hlive, Finset.mem_insert, h.mem_live, hperm.mem_iff, List.mem_cons]

/-- The oldest command can be freed, and is no command any more. -/
theorem free_oldest {c : OwnedCommand} (h : Owns K heap (c :: cmds) p pend) :
    ∃ heap', heap.free c.1 = some heap' ∧ Owns K heap' cmds p pend := by
  obtain ⟨heap', hfree, -, hlive, hsame⟩ := Heap.free_of_get (h.stored c List.mem_cons_self)
  have hnd := h.nodup
  rw [List.map_cons, List.cons_append, List.nodup_cons] at hnd
  refine ⟨heap', hfree, { stored := fun d hd => ?_, isLine := fun d hd => ?_,
                          length_le := fun d hd => ?_, holds := ?_, nodup := hnd.2,
                          mem_live := fun i => ?_ }⟩
  · have hne : d.1 ≠ c.1 := fun he =>
      hnd.1 (List.mem_append_left _ (he ▸ List.mem_map_of_mem hd))
    rw [hsame d.1 hne, h.stored d (List.mem_cons_of_mem _ hd)]
  · exact h.isLine d (List.mem_cons_of_mem _ hd)
  · exact h.length_le d (List.mem_cons_of_mem _ hd)
  · exact h.holds.congr fun i hi => hsame i fun he => hnd.1 (List.mem_append_right _ (he ▸ hi))
  · rw [hlive, Finset.mem_erase, h.mem_live, List.map_cons, List.cons_append, List.mem_cons]
    constructor
    · rintro ⟨hne, hi⟩
      exact hi.resolve_left hne
    · intro hi
      exact ⟨fun he => hnd.1 (he ▸ hi), .inr hi⟩

end Owns

/-! ### Growing the partial write buffer -/

/-- A partial write buffer without a block gets a new one. -/
private theorem kmalloc_partial (h : DevInv K heap dev cmds [])
    (hblocks : dev.partialWriteBuff.blocks = []) (count : Nat) (granted : Bool) :
    (¬ Grants K count granted ∧ kmalloc K heap count granted = (.null, heap)) ∨
      ∃ p heap', Grants K count granted ∧ kmalloc K heap count granted = (p, heap') ∧ p ≠ .null ∧
        DevInv K heap' { dev with partialWriteBuff := p } cmds [] ∧ HoldsAt K heap' p [] count ∧
        (p.blocks = [] ↔ count = 0) := by
  rcases Nat.eq_zero_or_pos count with rfl | hpos
  · refine .inr ⟨.zeroSize, heap, .inl rfl, kmalloc_zero K heap granted, by simp, ?_, ⟨rfl, rfl⟩,
      by simp⟩
    exact ⟨h.owns.replace_partial ⟨rfl, rfl⟩ (by simp) (by simp) (by simp [hblocks])
      (fun _ _ _ => rfl), h.ring, h.bytesStored_eq⟩
  by_cases hg : granted = true ∧ count ≤ K.kmallocMaxSize
  · have hget := Heap.get_alloc_self heap (K.uninitBytes heap.fresh count)
    have hlen : ([] ++ K.uninitBytes heap.fresh count).length ≤ K.kmallocMaxSize := by
      simpa using hg.2
    refine .inr ⟨_, _, .inr hg, kmalloc_granted hpos hg.1 hg.2, by simp, ?_, ?_, by simp; omega⟩
    · refine ⟨h.owns.replace_partial ⟨_, hget, Nat.zero_le _, hlen⟩ (by simp) ?_ ?_ ?_,
        h.ring, h.bytesStored_eq⟩
      · simpa using heap.fresh_not_mem_live
      · intro i; simp [Heap.live_alloc, hblocks]
      · intro i hi _
        exact Heap.get_alloc_of_ne _ fun hif => heap.fresh_not_mem_live (hif ▸ hi)
    · exact ⟨_, hget, by simp, hlen⟩
  · exact .inl ⟨not_or.mpr ⟨by omega, hg⟩, kmalloc_refused hpos hg⟩

/-- Growing keeps the pending bytes and makes room for `count` more, or is refused and
    changes nothing. The grown buffer is a block unless it is to hold no byte at all. -/
theorem growPartial_spec (h : DevInv K heap dev cmds pend) {count : Nat} (hcount : count < 2 ^ 63)
    (granted : Bool) :
    (¬ Grants K (pend.length + count) granted ∧
        growPartial K heap dev count granted = some (false, heap, dev)) ∨
      ∃ heap' p, Grants K (pend.length + count) granted ∧ growPartial K heap dev count granted =
          some (true, heap', { dev with partialWriteBuff := p }) ∧
        DevInv K heap' { dev with partialWriteBuff := p } cmds pend ∧
        HoldsAt K heap' p pend count ∧ (p.blocks = [] ↔ pend.length + count = 0) := by
  have hstored := h.bytesStored_eq
  have hlt := h.pending_length_lt
  have hsize : sizeT (dev.bytesStored + count) = pend.length + count := by
    rw [hstored, sizeT, Nat.mod_eq_of_lt (by omega)]
  have hholds := h.owns.holds
  cases hp : dev.partialWriteBuff with
  | null =>
    rw [hp] at hholds
    obtain ⟨rfl, -⟩ := hholds
    have hsame : ∀ p, { dev with partialWriteBuff := p, bytesStored := 0 } =
        { dev with partialWriteBuff := p } := fun p => by
      rw [← List.length_nil (α := UInt8), ← hstored]
    rcases kmalloc_partial h (by simp [hp]) count granted with
      ⟨hg, hk⟩ | ⟨p, heap', hg, hk, hne, hinv, hroom, hblock⟩
    · refine .inl ⟨by simpa using hg, ?_⟩
      simp only [growPartial, hp, if_true, hk]
      rw [← hp]
    · refine .inr ⟨heap', p, by simpa using hg, ?_, hinv, hroom, by simpa using hblock⟩
      simp only [growPartial, hp, if_true, hk, if_neg hne, hsame]
  | zeroSize =>
    rw [hp] at hholds
    obtain ⟨rfl, -⟩ := hholds
    have hre : krealloc K heap .zeroSize count granted = some (kmalloc K heap count granted) := by
      simp only [krealloc]
      split
      · next h0 => rw [h0, kmalloc_zero]; rfl
      · rfl
    rw [List.length_nil, Nat.zero_add] at hsize
    rcases kmalloc_partial h (by simp [hp]) count granted with
      ⟨hg, hk⟩ | ⟨p, heap', hg, hk, hne, hinv, hroom, hblock⟩
    · refine .inl ⟨by simpa using hg, ?_⟩
      simp [growPartial, hp, hsize, hre, hk]
    · refine .inr ⟨heap', p, by simpa using hg, ?_, hinv, hroom, by simpa using hblock⟩
      simp [growPartial, hp, hsize, hre, hk, hne]
  | block id =>
    rw [hp] at hholds
    obtain ⟨after, hget, -, hmax⟩ := hholds
    have hne : dev.partialWriteBuff ≠ .null := by simp [hp]
    rcases Nat.eq_zero_or_pos (pend.length + count) with hzero | hpos
    · obtain rfl : pend = [] := List.eq_nil_of_length_eq_zero (by omega)
      obtain rfl : count = 0 := by omega
      rw [Nat.add_zero] at hsize
      obtain ⟨heap', hfree, -, hlive, hsame⟩ := Heap.free_of_get hget
      refine .inr ⟨heap', .zeroSize, .inl rfl, ?_, ?_, ⟨rfl, rfl⟩, by simp⟩
      · simp [growPartial, hp, hsize, krealloc, kfree, hfree]
      · refine ⟨h.owns.replace_partial ⟨rfl, rfl⟩ (by simp) (by simp) (fun i => ?_)
          (fun i _ hi => hsame i (by simpa [hp] using hi)), h.ring, h.bytesStored_eq⟩
        simp [hlive, hp, and_comm]
    by_cases hg : granted = true ∧ pend.length + count ≤ K.kmallocMaxSize
    · obtain ⟨heap', added, hre, hget', hlen, hlive, hsame⟩ := krealloc_granted hget hpos hg.2
      have htake : (pend ++ after).take (pend.length + count) = pend ++ after.take count := by
        rw [List.take_length_add_append]
      rw [htake, List.append_assoc] at hget' hlen
      have hnew : heap.fresh ≠ id := fun hf => Heap.ne_fresh_of_get hget hf.symm
      refine .inr ⟨heap', .block heap.fresh, .inr hg, ?_, ?_, ⟨_, hget', ?_, by omega⟩,
        iff_of_false (by simp) hpos.ne'⟩
      · simp [growPartial, hp, hsize, hg.1, hre]
      · refine ⟨h.owns.replace_partial ⟨_, hget', Nat.zero_le _, by omega⟩ (by simp) ?_
          (fun i => ?_) (fun i hi hb => hsame i (by simpa [hp] using hb) ?_),
          h.ring, h.bytesStored_eq⟩
        · simpa using heap.fresh_not_mem_live
        · simp [hlive, hp, and_comm]
        · exact fun hif => heap.fresh_not_mem_live (hif ▸ hi)
      · rw [List.length_append] at hlen; omega
    · refine .inl ⟨not_or.mpr ⟨by omega, hg⟩, ?_⟩
      have hg' : ¬ ((granted && decide (pend.length + count ≤ K.kmallocMaxSize)) = true) := by
        simpa using hg
      have hne0 : ¬ pend.length + count = 0 := by omega
      simp only [growPartial, hp, reduceCtorEq, if_false, hsize, krealloc, if_neg hne0,
        if_neg hg', Option.bind_eq_bind, Option.bind_some, if_true]

/-! ### Copying the user's bytes -/

/-- Bytes stored right after the pending ones, where there is room for them. -/
theorem HoldsAt.store_after {p : Ptr} {new : List UInt8} {room : Nat}
    (h : HoldsAt K heap p pend room) (hroom : new.length ≤ room) :
    ∃ heap', storeBytes heap p pend.length new = some heap' ∧ heap'.live = heap.live ∧
      HoldsAt K heap' p (pend ++ new) 0 ∧ ∀ i, i ∉ p.blocks → heap'.get i = heap.get i := by
  cases p with
  | block id =>
    obtain ⟨after, hget, hle, hmax⟩ := h
    rw [List.length_append] at hmax
    obtain ⟨heap', hstore, hlive, hget', hsame⟩ :=
      storeBytes_block pend.length new hget
        (by rw [List.length_append]; omega)
    rw [List.take_left] at hget'
    refine ⟨heap', hstore, hlive, ⟨_, hget', Nat.zero_le _, ?_⟩, fun i hi => hsame i ?_⟩
    · simp only [List.length_append, List.length_drop]; omega
    · simpa using hi
  | null =>
    obtain rfl : new = [] := List.eq_nil_of_length_eq_zero (by have := h.2; omega)
    exact ⟨heap, by simp [storeBytes], rfl, by simpa using h.mono (Nat.zero_le _), fun _ _ => rfl⟩
  | zeroSize =>
    obtain rfl : new = [] := List.eq_nil_of_length_eq_zero (by have := h.2; omega)
    exact ⟨heap, by simp [storeBytes], rfl, by simpa using h.mono (Nat.zero_le _), fun _ _ => rfl⟩

/-- The copied bytes follow the pending ones. A copy that misses some leaves the pending
    bytes as they were. -/
theorem copyFromUser_spec (h : DevInv K heap dev cmds pend) {data : List UInt8}
    (hdata : data.length < 2 ^ 63) (hroom : HoldsAt K heap dev.partialWriteBuff pend data.length)
    (notCopied : Nat) :
    ∃ heap', copyFromUser heap dev.partialWriteBuff dev.bytesStored data notCopied =
        some (min notCopied data.length, heap') ∧
      DevInv K heap' dev cmds pend ∧
      (min notCopied data.length = 0 →
        DevInv K heap' { dev with bytesStored := sizeT (dev.bytesStored + data.length) } cmds
          (pend ++ data)) := by
  have hlt := h.pending_length_lt
  have hsize : sizeT (dev.bytesStored + data.length) = (pend ++ data).length := by
    rw [h.bytesStored_eq, sizeT, Nat.mod_eq_of_lt (by omega), List.length_append]
  obtain ⟨new, hnew⟩ : ∃ new, new = data.take (data.length - min notCopied data.length) ++
    List.replicate (min notCopied data.length) 0 := ⟨_, rfl⟩
  have hlen : new.length = data.length := by simp [hnew]
  obtain ⟨heap', hstore, hlive, hholds, hsame⟩ := hroom.store_after hlen.le
  refine ⟨heap', ?_, ?_, fun h0 => ?_⟩
  · rw [copyFromUser, h.bytesStored_eq, ← hnew, hstore]; rfl
  · exact ⟨h.owns.set_pending hlive hholds.prefix hsame, h.ring, h.bytesStored_eq⟩
  · have hfull : new = data := by simp [hnew, h0]
    exact ⟨h.owns.set_pending hlive (hfull ▸ hholds) hsame, h.ring, hsize⟩

/-! ### One round of the newline loop -/

/-- A block with a complete line goes into the ring; the oldest command's block is freed
    when it has to make room. -/
theorem DevInv.commit (h : DevInv K heap dev cmds pend) {heap' : Heap UInt8} {id : Nat}
    {line : List UInt8} (howns : Owns K heap' (cmds ++ [(id, line)]) dev.partialWriteBuff pend) :
    ∃ old buff heap'', aesdCircularBufferAddEntry dev.buff ⟨.block id, line.length⟩ =
        some (old, buff) ∧ kfree heap' old = some heap'' ∧
      DevInv K heap'' { dev with buff := buff } ((cmds ++ [(id, line)]).rtake 10) pend := by
  obtain ⟨buff, hadd, hring⟩ := h.ring.addEntry_spec ⟨.block id, line.length⟩
  have hring' : RingInv buff (((cmds ++ [(id, line)]).rtake 10).map entryOf) := by
    rw [List.map_rtake, List.map_append]; exact hring
  have hcut := List.rtake_concat_of_length_le h.commands_length_le (by decide) (id, line)
  rw [List.length_map] at hadd
  by_cases hfull : cmds.length = 10
  · obtain ⟨c₀, tl, rfl⟩ := List.exists_cons_of_length_pos (show 0 < cmds.length by omega)
    obtain ⟨heap'', hfree, howns'⟩ := howns.free_oldest
    rw [if_pos hfull] at hadd hcut
    exact ⟨_, buff, heap'', hadd, hfree, by rw [hcut]; exact howns', hring', h.bytesStored_eq⟩
  · rw [if_neg hfull] at hadd hcut
    exact ⟨_, buff, heap', hadd, rfl, by rw [hcut]; exact howns, hring', h.bytesStored_eq⟩

/-- `memmove` of the bytes behind a line to the front of the partial write buffer. -/
theorem HoldsAt.memmove_front {p : Ptr} {line tail : List UInt8} {room : Nat}
    (h : HoldsAt K heap p (line ++ tail) room) :
    ∃ heap', memmove heap p 0 p line.length tail.length = some heap' ∧ heap'.live = heap.live ∧
      HoldsAt K heap' p tail 0 ∧ ∀ i, i ∉ p.blocks → heap'.get i = heap.get i := by
  cases p with
  | block id =>
    obtain ⟨after, hget, -, hmax⟩ := h
    simp only [List.length_append] at hmax
    have hload : loadBytes heap (.block id) line.length tail.length = some tail := by
      rw [loadBytes_block hget (by simp only [List.length_append]; omega), List.append_assoc,
        List.drop_left, List.take_left]
    obtain ⟨heap', hstore, hlive, hget', hsame⟩ :=
      storeBytes_block 0 tail hget
        (by simp only [List.length_append]; omega)
    rw [List.take_zero, List.nil_append] at hget'
    refine ⟨heap', by simp [memmove, hload, hstore], hlive,
      ⟨_, hget', Nat.zero_le _, ?_⟩, fun i hi => hsame i (by simpa using hi)⟩
    simp only [List.length_append, List.length_drop]
    omega
  | null =>
    obtain ⟨rfl, rfl⟩ := List.append_eq_nil_iff.mp h.1
    exact ⟨heap, rfl, rfl, h.mono (Nat.zero_le _), fun _ _ => rfl⟩
  | zeroSize =>
    obtain ⟨rfl, rfl⟩ := List.append_eq_nil_iff.mp h.1
    exact ⟨heap, rfl, rfl, h.mono (Nat.zero_le _), fun _ _ => rfl⟩

theorem DevInv.memchr_eq (h : DevInv K heap dev cmds pend) :
    memchr heap dev.partialWriteBuff newline dev.bytesStored =
      some (pend.findIdx? isNewline) := by
  simp only [memchr, h.loadBytes_pending, Option.bind_eq_bind, Option.bind_some]

/-- The loop ends when no newline is pending. -/
theorem newlineLoop_done (h : DevInv K heap dev cmds pend) (command : Nat → Bool) (fuel i : Nat)
    (hnone : pend.findIdx? isNewline = none) :
    newlineLoop K command (fuel + 1) i heap dev = some (true, heap, dev) := by
  simp only [newlineLoop, h.memchr_eq, hnone, Option.bind_eq_bind, Option.bind_some]

/-- A refused command buffer ends the loop with nothing changed in this round. -/
theorem newlineLoop_refused (h : DevInv K heap dev cmds pend) (command : Nat → Bool)
    (fuel i n : Nat) (hsome : pend.findIdx? isNewline = some n) (hi : command i = false) :
    newlineLoop K command (fuel + 1) i heap dev = some (false, heap, dev) := by
  simp only [newlineLoop, h.memchr_eq, hsome, Option.bind_eq_bind, Option.bind_some,
    kmalloc_refused (Nat.succ_pos n) (show ¬ (command i = true ∧ n + 1 ≤ K.kmallocMaxSize) by
      simp [hi]), if_true]

/-- A round with a granted command buffer moves the first line into the ring. -/
theorem newlineLoop_round (h : DevInv K heap dev cmds pend) (command : Nat → Bool)
    (fuel i n : Nat) (hsome : pend.findIdx? isNewline = some n) (hi : command i = true) :
    ∃ heap' buff id,
      newlineLoop K command (fuel + 1) i heap dev = newlineLoop K command fuel (i + 1) heap'
        { dev with buff := buff, bytesStored := (pend.drop (n + 1)).length } ∧
      DevInv K heap' { dev with buff := buff, bytesStored := (pend.drop (n + 1)).length }
        ((cmds ++ [(id, pend.take (n + 1))]).rtake 10) (pend.drop (n + 1)) := by
  obtain ⟨hlt, hline, -, -⟩ := Lines.lines_of_findIdx? hsome
  have hlen : (pend.take (n + 1)).length = n + 1 := by simp; omega
  have hmax : n + 1 ≤ K.kmallocMaxSize := by
    have := h.owns.holds.length_le; omega
  have hk : kmalloc K heap (n + 1) (command i) = _ := kmalloc_granted (Nat.succ_pos n) hi hmax
  have hf := Heap.get_alloc_self heap (K.uninitBytes heap.fresh (n + 1))
  have hlive₁ := Heap.live_alloc heap (K.uninitBytes heap.fresh (n + 1))
  have hsame₁ : ∀ i ∈ heap.live, (heap.alloc (K.uninitBytes heap.fresh (n + 1))).2.get i =
      heap.get i := fun i hi => Heap.get_alloc_of_ne _ fun he => heap.fresh_not_mem_live (he ▸ hi)
  generalize (heap.alloc (K.uninitBytes heap.fresh (n + 1))).2 = heap₁ at hk hf hlive₁ hsame₁
  -- memcpy of the line into the new block
  have hholds₁ :
      HoldsAt K heap₁ dev.partialWriteBuff (pend.take (n + 1) ++ pend.drop (n + 1)) 0 := by
    rw [List.take_append_drop]
    exact h.owns.holds.congr fun i hi => hsame₁ i ((h.owns.mem_live i).mpr
      (List.mem_append_right _ hi))
  have hload := hholds₁.prefix.loadBytes_eq
  obtain ⟨heap₂, hstore, hlive₂, hget₂, hsame₂⟩ :=
    storeBytes_block 0 (pend.take (n + 1)) hf (by simp)
  have hget₂' : heap₂.get heap.fresh = some (pend.take (n + 1)) := by
    rw [hget₂, List.take_zero, List.nil_append, List.drop_eq_nil_of_le (by simp; omega),
      List.append_nil]
  have howns : Owns K heap₂ (cmds ++ [(heap.fresh, pend.take (n + 1))]) dev.partialWriteBuff pend :=
    h.owns.add hline (by omega) heap.fresh_not_mem_live hget₂' (by rw [hlive₂, hlive₁])
      fun i hi => by
        rw [hsame₂ i fun he => heap.fresh_not_mem_live (he ▸ hi), hsame₁ i hi]
  -- the ring takes it, and the rest moves to the front
  obtain ⟨old, buff, heap₃, hadd, hfree, hinv⟩ := h.commit howns
  have hholds₃ :
      HoldsAt K heap₃ dev.partialWriteBuff (pend.take (n + 1) ++ pend.drop (n + 1)) 0 := by
    rw [List.take_append_drop]; exact hinv.owns.holds
  obtain ⟨heap₄, hmove, hlive₄, hholds₄, hsame₄⟩ := hholds₃.memmove_front
  refine ⟨heap₄, buff, heap.fresh, ?_, hinv.owns.set_pending hlive₄ hholds₄ hsame₄, hinv.ring, rfl⟩
  have hrem : dev.bytesStored - (n + 1) = (pend.drop (n + 1)).length := by
    rw [h.bytesStored_eq, List.length_drop]
  rw [hlen] at hload hadd hmove
  simp only [newlineLoop, h.memchr_eq, hsome, hk, memmove, hload, hstore, hadd, hfree, hrem,
    Option.bind_eq_bind, Option.bind_some, reduceCtorEq, if_false]
  simp only [memmove, Option.bind_eq_bind] at hmove
  rw [hmove, Option.bind_some]

/-! ### The newline loop -/

/-- The loop moves the complete pending lines into the ring, oldest first, until the first
    one whose buffer is refused. `pend.length + 1` rounds always suffice: each round but
    the last takes at least one byte off. -/
theorem newlineLoop_spec (command : Nat → Bool) (fuel i : Nat)
    (h : DevInv K heap dev cmds pend) (hfuel : pend.length < fuel) :
    ∃ m heap' buff stored cmds',
      newlineLoop K command fuel i heap dev = some (decide (m = (commandLines pend).length), heap',
        { dev with buff := buff, bytesStored := stored }) ∧
      DevInv K heap' { dev with buff := buff, bytesStored := stored } cmds'
        (((commandLines pend).drop m).flatten ++ commandRest pend) ∧
      cmds'.map Prod.snd = (cmds.map Prod.snd ++ (commandLines pend).take m).rtake 10 ∧
      m ≤ (commandLines pend).length ∧ (∀ j < m, command (i + j) = true) ∧
      (m < (commandLines pend).length → command (i + m) = false) := by
  induction fuel generalizing i heap dev cmds pend with
  | zero => omega
  | succ fuel ih =>
    have htrim : (cmds.map Prod.snd).rtake 10 = cmds.map Prod.snd :=
      List.rtake_of_length_le (by simpa using h.commands_length_le)
    cases hfind : pend.findIdx? isNewline with
    | none =>
      have hsep : ∀ x ∈ pend, isNewline x = false := List.findIdx?_eq_none_iff.mp hfind
      have hlines : commandLines pend = [] := Lines.lines_eq_nil hsep
      have hrest : commandRest pend = pend := Lines.rest_eq_self hsep
      refine ⟨0, heap, dev.buff, dev.bytesStored, cmds, ?_, ?_, ?_, by simp, by simp, ?_⟩
      · rw [newlineLoop_done h command fuel i hfind, hlines]; rfl
      · rw [hlines, hrest]; exact h
      · simp [hlines, htrim]
      · simp [hlines]
    | some n =>
      obtain ⟨hlt, hline, hlines, hrest⟩ := Lines.lines_of_findIdx? hfind
      cases hi : command i with
      | false =>
        refine ⟨0, heap, dev.buff, dev.bytesStored, cmds, ?_, ?_, ?_, by simp, by simp, ?_⟩
        · rw [newlineLoop_refused h command fuel i n hfind hi]; simp [hlines]
        · rw [List.drop_zero, Lines.flatten_lines_append_rest]; exact h
        · simp [htrim]
        · simpa using fun _ => hi
      | true =>
        obtain ⟨heap₁, buff₁, id, hround, hinv₁⟩ := newlineLoop_round h command fuel i n hfind hi
        obtain ⟨m, heap', buff, stored, cmds', hloop, hinv, hcmds, hm, hgranted, hrefused⟩ :=
          ih (i + 1) hinv₁ (by simp only [List.length_drop]; omega)
        have hlines' : commandLines pend =
            pend.take (n + 1) :: commandLines (pend.drop (n + 1)) := hlines
        refine ⟨m + 1, heap', buff, stored, cmds', ?_, ?_, ?_, ?_, ?_, ?_⟩
        · rw [hround, hloop, hlines']; simp
        · have hrest' : commandRest pend = commandRest (pend.drop (n + 1)) := hrest
          rw [hlines', List.drop_succ_cons, hrest']; exact hinv
        · rw [hcmds, hlines', List.take_succ_cons, List.map_rtake, List.rtake_rtake_append]
          simp
        · rw [hlines', List.length_cons]; omega
        · intro j hj
          cases j with
          | zero => exact hi
          | succ j => rw [← Nat.add_assoc, Nat.add_right_comm]; exact hgranted j (by omega)
        · intro hlt'
          rw [hlines', List.length_cons] at hlt'
          rw [← Nat.add_assoc, Nat.add_right_comm]
          exact hrefused (by omega)

/-! ### The whole call -/

/-- Everything an `aesd_write` of `data` can do to commands `cmds` and pending bytes `pend`. -/
inductive WriteResult (K : Kernel) (out : WriteOutcome) (data : List UInt8)
    (cmds : List (List UInt8)) (pend : List UInt8) :
    Bool → List (List UInt8) → List UInt8 → Prop
  /-- The partial write buffer was refused, or the copy failed. -/
  | refused :
    ¬ (Grants K (pend.length + data.length) out.grow ∧ min out.notCopied data.length = 0) →
    WriteResult K out data cmds pend false cmds pend
  /-- The buffer of the `m`-th complete command was refused. -/
  | cut (m : Nat) :
    Grants K (pend.length + data.length) out.grow → min out.notCopied data.length = 0 →
    m < (commandLines (pend ++ data)).length → out.command m = false →
    WriteResult K out data cmds pend false
      ((cmds ++ (commandLines (pend ++ data)).take m).rtake 10)
      (((commandLines (pend ++ data)).drop m).flatten ++ commandRest (pend ++ data))
  /-- Every complete command was stored. -/
  | stored :
    Grants K (pend.length + data.length) out.grow → min out.notCopied data.length = 0 →
    (∀ m < (commandLines (pend ++ data)).length, out.command m = true) →
    WriteResult K out data cmds pend true
      ((cmds ++ commandLines (pend ++ data)).rtake 10) (commandRest (pend ++ data))

theorem aesdWrite_spec (h : DevInv K heap dev cmds pend) (hlock : dev.buffLock = false)
    {data : List UInt8} (hdata : data.length < 2 ^ 63) (fPos : Int) (out : WriteOutcome) :
    ∃ ok fPos' heap' dev' cmds' pend',
      aesdWrite K heap dev fPos data out =
        some (if ok then loffT data.length else -1, fPos', heap', dev') ∧
      (ok = false → fPos' = fPos) ∧ dev'.buffLock = false ∧ DevInv K heap' dev' cmds' pend' ∧
      WriteResult K out data (cmds.map Prod.snd) pend ok (cmds'.map Prod.snd) pend' ∧
      (Grants K (pend.length + data.length) out.grow →
        (dev'.partialWriteBuff.blocks = [] ↔ pend.length + data.length = 0)) ∧
      (¬ Grants K (pend.length + data.length) out.grow →
        dev'.partialWriteBuff = dev.partialWriteBuff) := by
  have hlocked := AesdDev.lock_eq hlock
  have h₁ := h.locked
  rcases growPartial_spec h₁ hdata out.grow with
    ⟨hrefused, hgrow⟩ | ⟨heap₂, p, hgrants, hgrow, h₂, hroom, hblock⟩
  · refine ⟨false, fPos, heap, dev, cmds, pend, ?_, fun _ => rfl, hlock, h,
      .refused fun hg => hrefused hg.1, fun hg => absurd hg hrefused, fun _ => rfl⟩
    simp only [aesdWrite, hlocked, hgrow, Option.bind_eq_bind, Option.bind_some, Bool.not_false,
      if_true, AesdDev.unlock_locked hlock]
    rfl
  obtain ⟨heap₃, hcopy, h₃, h₃'⟩ := copyFromUser_spec h₂ hdata hroom out.notCopied
  by_cases hleft : min out.notCopied data.length = 0
  · have h₄ := h₃' hleft
    obtain ⟨m, heap', buff, stored, cmds', hloop, hinv, hcmds, hm, hgranted, hrefused⟩ :=
      newlineLoop_spec out.command
        (sizeT (dev.bytesStored + data.length) + 1) 0 h₄ (by
          have := h₄.bytesStored_eq
          dsimp only at this
          omega)
    simp only [Nat.zero_add] at hgranted hrefused
    rcases hm.lt_or_eq with hlt | rfl
    · refine ⟨false, fPos, heap', AesdDev.unlock _, cmds', _, ?_, fun _ => rfl, rfl,
        hinv.unlock, ?_, fun _ => hblock, fun hg => absurd hgrants hg⟩
      · simp only [aesdWrite, hlocked, hgrow, hcopy, hleft, hloop, Option.bind_eq_bind,
          Option.bind_some, Bool.not_true, Bool.false_eq_true, if_false, decide_eq_false hlt.ne,
          Bool.not_false, if_true, ne_eq, not_true]
        rfl
      · rw [hcmds]
        exact .cut m hgrants hleft hlt (hrefused hlt)
    · refine ⟨true, loffT (sizeT (sizeTOfLoff fPos + data.length)), heap', AesdDev.unlock _, cmds',
        _, ?_, by simp, rfl, hinv.unlock, ?_, fun _ => hblock, fun hg => absurd hgrants hg⟩
      · simp only [aesdWrite, hlocked, hgrow, hcopy, hleft, hloop, Option.bind_eq_bind,
          Option.bind_some, Bool.not_true, Bool.false_eq_true, if_false, decide_true,
          if_true, ne_eq, not_true]
        rfl
      · rw [hcmds, List.take_length, List.drop_length]
        exact .stored hgrants hleft hgranted
  · refine ⟨false, fPos, heap₃, AesdDev.unlock _, cmds, pend, ?_, fun _ => rfl, rfl, h₃.unlock,
      .refused fun hg => hleft hg.2, fun _ => hblock, fun hg => absurd hgrants hg⟩
    simp only [aesdWrite, hlocked, hgrow, hcopy, Option.bind_eq_bind, Option.bind_some,
      Bool.not_true, Bool.false_eq_true, if_false, ne_eq, hleft, not_false_eq_true, if_true]
    rfl

end Aesd
