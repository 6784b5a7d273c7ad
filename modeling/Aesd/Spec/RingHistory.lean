import Aesd.Spec.RingInvariant

/-!
# The ring after any number of additions

`addEntries` calls `aesd_circular_buffer_add_entry` once for each entry of a list. The state
of the ring after it, and what every call handed back, is a function of the list alone
(`addEntries_spec`): the ring keeps the newest ten entries, and the `k`-th call hands back the
entry added ten calls before. So a pointer that was added is either still stored or was
handed back, and each of the two happens once (`addEntries_history`). `find_exact` is what
a lookup in such a ring answers.
-/

namespace Aesd

/-- One call of `aesd_circular_buffer_add_entry` for each entry, with the pointers the calls
    hand back. -/
def addEntries (buffer : AesdCircularBuffer) :
    List AesdBufferEntry → Option (List Ptr × AesdCircularBuffer)
  | [] => some ([], buffer)
  | e :: es => do
    let (old, buffer) ← aesdCircularBufferAddEntry buffer e
    let (olds, buffer) ← addEntries buffer es
    some (old :: olds, buffer)

theorem addEntries_concat {buffer b b' : AesdCircularBuffer} {es : List AesdBufferEntry}
    {e : AesdBufferEntry} {olds : List Ptr} {old : Ptr}
    (hes : addEntries buffer es = some (olds, b))
    (he : aesdCircularBufferAddEntry b e = some (old, b')) :
    addEntries buffer (es ++ [e]) = some (olds ++ [old], b') := by
  induction es generalizing buffer olds with
  | nil =>
    obtain ⟨rfl, rfl⟩ : [] = olds ∧ buffer = b := by simpa [addEntries] using hes
    simp [addEntries, he]
  | cons x xs ih =>
    simp only [addEntries, Option.bind_eq_bind, Option.bind_eq_some_iff, Prod.exists,
      Option.some.injEq, Prod.mk.injEq] at hes
    obtain ⟨o, b₁, hx, os, b₂, hxs, rfl, rfl⟩ := hes
    simp only [List.cons_append, addEntries, hx, ih hxs, Option.bind_eq_bind, Option.bind_some]

theorem setEntry_offs {buffer b : AesdCircularBuffer} {i : Nat} {e : AesdBufferEntry}
    (h : buffer.setEntry i e = some b) : b.inOffs = buffer.inOffs ∧ b.outOffs = buffer.outOffs := by
  simp only [AesdCircularBuffer.setEntry] at h
  split at h
  · obtain rfl := Option.some.inj h
    exact ⟨rfl, rfl⟩
  · exact nomatch h

/-- How an addition moves the two offsets. -/
theorem addEntry_offs {buffer b : AesdCircularBuffer} {e : AesdBufferEntry} {old : Ptr}
    (h : aesdCircularBufferAddEntry buffer e = some (old, b)) :
    b.inOffs = nextOffs buffer.inOffs ∧
      b.outOffs = if buffer.full then nextOffs buffer.outOffs else buffer.outOffs := by
  simp only [aesdCircularBufferAddEntry] at h
  split at h
  · next hfull =>
    simp only [Option.bind_eq_bind, Option.bind_some, Option.bind_eq_some_iff, Option.some.injEq,
      Prod.mk.injEq] at h
    obtain ⟨oldest, -, b₁, hset, -, hb⟩ := h
    obtain ⟨hin, hout⟩ := setEntry_offs hset
    rw [← hb, if_pos hfull]
    split <;> exact ⟨congrArg nextOffs hin, hout⟩
  · next hfull =>
    simp only [Option.bind_eq_bind, Option.bind_some, Option.bind_eq_some_iff, Option.some.injEq,
      Prod.mk.injEq] at h
    obtain ⟨b₁, hset, -, hb⟩ := h
    obtain ⟨hin, hout⟩ := setEntry_offs hset
    rw [← hb, if_neg hfull]
    split <;> exact ⟨congrArg nextOffs hin, hout⟩

/-- What the first `n` of a list of additions hand back: nothing until the ring is full, then
    the oldest entry each time. -/
def handedBack (es : List AesdBufferEntry) : List Ptr :=
  List.replicate (min es.length 10) .null ++ (es.take (es.length - 10)).map (·.buffptr)

theorem handedBack_concat (es : List AesdBufferEntry) (e : AesdBufferEntry) :
    handedBack (es ++ [e]) = handedBack es ++
      [if (es.rtake 10).length = 10 then ((es.rtake 10).headD .zero).buffptr else .null] := by
  rw [List.length_rtake]
  by_cases hlt : es.length < 10
  · have h0 : es.length - 10 = 0 := by omega
    have h1 : es.length + 1 - 10 = 0 := by omega
    simp only [handedBack, List.length_append, List.length_singleton, h0, h1, List.take_zero,
      List.map_nil, List.append_nil, Nat.min_eq_left (show es.length + 1 ≤ 10 by omega),
      Nat.min_eq_left hlt.le, if_neg (show ¬ min 10 es.length = 10 by omega),
      List.replicate_succ']
  · have hge : 10 ≤ es.length := Nat.le_of_not_lt hlt
    have hidx : es.length - 10 < es.length := by omega
    have hhead : ((es.rtake 10).headD .zero).buffptr = es[es.length - 10].buffptr := by
      rw [List.rtake, List.drop_eq_getElem_cons hidx]
      rfl
    have htake : (es ++ [e]).take (es.length + 1 - 10) =
        es.take (es.length - 10) ++ [es[es.length - 10]] := by
      rw [show es.length + 1 - 10 = es.length - 10 + 1 by omega,
        List.take_append_of_le_length (by omega), List.take_succ_eq_append_getElem hidx]
    simp only [handedBack, List.length_append, List.length_singleton, htake, List.map_append,
      Nat.min_eq_right hge, Nat.min_eq_right (show 10 ≤ es.length + 1 by omega), hhead,
      Nat.min_eq_left hge, if_true, List.append_assoc, List.map_cons, List.map_nil]

/-- The ring after the entries of a list were added to an empty one. -/
theorem addEntries_spec (es : List AesdBufferEntry) :
    ∃ buffer, addEntries aesdCircularBufferInit es = some (handedBack es, buffer) ∧
      RingInv buffer (es.rtake 10) ∧ buffer.inOffs = es.length % 10 ∧
      buffer.outOffs = if es.length ≤ 10 then 0 else es.length % 10 := by
  induction es using List.reverseRecOn with
  | nil => exact ⟨aesdCircularBufferInit, rfl, RingInv.init, rfl, rfl⟩
  | append_singleton es e ih =>
    obtain ⟨buffer, hadd, hring, hin, hout⟩ := ih
    obtain ⟨b, he, hb⟩ := hring.addEntry_spec e
    obtain ⟨hbin, hbout⟩ := addEntry_offs he
    rw [List.rtake_rtake_append] at hb
    have hfull := hring.full_iff
    rw [List.length_rtake] at hfull
    refine ⟨b, ?_, hb, ?_, ?_⟩
    · rw [handedBack_concat, addEntries_concat hadd he]
    · rw [hbin, hin, nextOffs_eq, List.length_append, List.length_singleton, Nat.mod_add_mod]
    · rw [hbout, nextOffs_eq, hout, List.length_append, List.length_singleton]
      cases hf : buffer.full with
      | false =>
        rw [hf] at hfull
        have hlt : es.length < 10 := by
          have : ¬ min 10 es.length = 10 := fun h => absurd (hfull.mpr h) (by simp)
          omega
        rw [if_neg (by simp), if_pos (by omega), if_pos (by omega)]
      | true =>
        have hge : 10 ≤ es.length := by
          have := hfull.mp hf
          omega
        rw [if_pos rfl, if_neg (show ¬ es.length + 1 ≤ 10 by omega)]
        split <;> omega

/-! ### What each call hands back -/

theorem length_handedBack (es : List AesdBufferEntry) : (handedBack es).length = es.length := by
  simp only [handedBack, List.length_append, List.length_replicate, List.length_map,
    List.length_take]
  omega

theorem getElem_handedBack {es : List AesdBufferEntry} {k : Nat} (hk : k < es.length) :
    (handedBack es)[k]? = some (if k < 10 then .null else es[k - 10].buffptr) := by
  simp only [handedBack]
  have hlen : (List.replicate (min es.length 10) Ptr.null).length = min es.length 10 :=
    List.length_replicate
  by_cases hlt : k < 10
  · rw [if_pos hlt, List.getElem?_append_left (by rw [hlen]; omega), List.getElem?_replicate,
      if_pos (by omega)]
  · rw [if_neg hlt, List.getElem?_append_right (by rw [hlen]; omega), hlen,
      Nat.min_eq_right (by omega), List.getElem?_map,
      List.getElem?_take_of_lt (by omega), List.getElem?_eq_getElem (by omega)]
    rfl

/-- A pointer that is not `NULL` is in the ring as often as in the entries kept, and was handed
    back as often as it is in the entries before them. -/
theorem count_stored_add_count_handedBack {es : List AesdBufferEntry}
    {buffer : AesdCircularBuffer} (h : RingInv buffer (es.rtake 10)) {p : Ptr} (hp : p ≠ .null) :
    (buffer.entry.toList.map (·.buffptr)).count p + (handedBack es).count p =
      (es.map (·.buffptr)).count p := by
  have hnull : ∀ n, (List.replicate n Ptr.null).count p = 0 := fun n => by
    rw [List.count_eq_zero]
    exact fun hmem => hp (List.eq_of_mem_replicate hmem)
  have hslots := (h.toList_perm.map (·.buffptr)).count_eq p
  rw [List.map_append, List.count_append, List.map_replicate] at hslots
  rw [hslots, AesdBufferEntry.zero, hnull, Nat.add_zero, handedBack, List.count_append, hnull,
    Nat.zero_add, List.rtake, Nat.add_comm, ← List.count_append, ← List.map_append,
    List.take_append_drop]

/-- After `n` additions to an empty ring, for any `n` and any entries: where the offsets are,
    when the ring is full, what each slot holds and what each call handed back. Pointers that
    are distinct and not `NULL` are each held by one slot or were handed back by one call. -/
theorem addEntries_history (es : List AesdBufferEntry) :
    ∃ olds buffer, addEntries aesdCircularBufferInit es = some (olds, buffer) ∧
      buffer.inOffs = es.length % 10 ∧
      buffer.outOffs = (if es.length ≤ 10 then 0 else es.length % 10) ∧
      (buffer.full = true ↔ 10 ≤ es.length) ∧
      (∀ k (hk : k < (es.rtake 10).length),
        buffer.getEntry ((buffer.outOffs + k) % 10) = some (es.rtake 10)[k]) ∧
      (∀ k, es.length ≤ k → k < 10 →
        buffer.getEntry ((buffer.outOffs + k) % 10) = some .zero) ∧
      olds.length = es.length ∧
      (∀ k (hk : k < es.length),
        olds[k]? = some (if k < 10 then .null else es[k - 10].buffptr)) ∧
      ((es.map (·.buffptr)).Nodup → (∀ e ∈ es, e.buffptr ≠ .null) → ∀ e ∈ es,
        (buffer.entry.toList.map (·.buffptr)).count e.buffptr + olds.count e.buffptr = 1) := by
  obtain ⟨buffer, hadd, hring, hin, hout⟩ := addEntries_spec es
  refine ⟨handedBack es, buffer, hadd, hin, hout, ?_, fun k hk => hring.slot_of_lt hk, ?_,
    length_handedBack es, fun k hk => getElem_handedBack hk, ?_⟩
  · rw [hring.full_iff, List.length_rtake]
    omega
  · intro k hlen hk
    rw [hring.slot k hk, List.getD_eq_getElem?_getD, List.getElem?_eq_none (by simp; omega)]
    rfl
  · intro hnodup hnull e he
    rw [count_stored_add_count_handedBack hring (hnull e he)]
    exact List.count_eq_one_of_mem hnodup (List.mem_map_of_mem he)

/-! ### Looking a position up -/

/-- A lookup in a ring that entries were added to, of any sizes that sum up to less than
    `2 ^ 64` where they are still stored: it answers with the one stored entry that holds the
    position and the byte in it, or with `NULL` when the position is not below the total. -/
theorem find_exact (es : List AesdBufferEntry)
    (htotal : ((es.rtake 10).map (·.size)).sum < 2 ^ 64) {charOffset : Nat}
    (hoff : charOffset < 2 ^ 64) :
    ∃ olds buffer, addEntries aesdCircularBufferInit es = some (olds, buffer) ∧
      ((((es.rtake 10).map (·.size)).sum ≤ charOffset ∧
          aesdCircularBufferFindEntryOffsetForFpos buffer charOffset = some none) ∨
        ∃ k, ∃ hk : k < (es.rtake 10).length,
          (∀ j (hj : j < (es.rtake 10).length),
            (((es.rtake 10).map (·.size)).take j).sum ≤ charOffset ∧
              charOffset < (((es.rtake 10).map (·.size)).take j).sum + (es.rtake 10)[j].size ↔
            j = k) ∧
          (buffer.outOffs + k) % 10 < 10 ∧
          buffer.getEntry ((buffer.outOffs + k) % 10) = some (es.rtake 10)[k] ∧
          aesdCircularBufferFindEntryOffsetForFpos buffer charOffset =
            some (some ((buffer.outOffs + k) % 10,
              charOffset - (((es.rtake 10).map (·.size)).take k).sum))) := by
  obtain ⟨buffer, hadd, hring, -, -⟩ := addEntries_spec es
  refine ⟨_, buffer, hadd, ?_⟩
  have hfind := hring.find_spec hoff htotal
  have hspan : ∀ j (hj : j < (es.rtake 10).length),
      (((es.rtake 10).map (·.size)).take j).sum ≤ charOffset ∧
        charOffset < (((es.rtake 10).map (·.size)).take j).sum + (es.rtake 10)[j].size ↔
      ((es.rtake 10).map (·.size)).locate charOffset =
        some (j, charOffset - (((es.rtake 10).map (·.size)).take j).sum) := by
    intro j hj
    rw [List.locate_eq_some]
    simp only [List.length_map, List.getElem_map]
    constructor
    · exact fun h => ⟨hj, by omega, by omega⟩
    · rintro ⟨_, hb, hsum⟩
      omega
  cases hloc : ((es.rtake 10).map (·.size)).locate charOffset with
  | none =>
    rw [hloc] at hfind
    exact .inl ⟨List.locate_eq_none.mp hloc, hfind⟩
  | some q =>
    obtain ⟨k, b⟩ := q
    rw [hloc] at hfind
    obtain ⟨hk, hb, hsum⟩ := List.locate_eq_some.mp hloc
    have hk' : k < (es.rtake 10).length := by simpa using hk
    refine .inr ⟨k, hk', fun j hj => ?_, Nat.mod_lt _ (by decide), hring.slot_of_lt hk', ?_⟩
    · rw [hspan j hj, hloc, Option.some.injEq, Prod.mk.injEq]
      constructor
      · exact fun h => h.1.symm
      · rintro rfl
        exact ⟨rfl, by omega⟩
    · rw [hfind, Option.map_some, show charOffset - (((es.rtake 10).map (·.size)).take k).sum = b by
        omega]

/-- Position `2` behind an entry of two bytes and one of none is the first byte of the third. -/
theorem find_exact_third :
    ∃ olds buffer slot, addEntries aesdCircularBufferInit
        [⟨.zeroSize, 2⟩, ⟨.zeroSize, 0⟩, ⟨.zeroSize, 3⟩] = some (olds, buffer) ∧
      aesdCircularBufferFindEntryOffsetForFpos buffer 2 = some (some (slot, 0)) := by
  obtain ⟨olds, buffer, hadd, ⟨hend, -⟩ | ⟨k, hk, hspan, -, -, hfind⟩⟩ :=
    find_exact [⟨.zeroSize, 2⟩, ⟨.zeroSize, 0⟩, ⟨.zeroSize, 3⟩] (by decide)
      (show 2 < 2 ^ 64 by decide)
  · exact absurd hend (by decide)
  · obtain rfl := (hspan 2 (by decide)).mp (by decide)
    exact ⟨olds, buffer, _, hadd, hfind⟩

end Aesd
