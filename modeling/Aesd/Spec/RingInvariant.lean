import Aesd.Native.CircularBuffer
import Aesd.ForStd.List

/-!
# The ring holds a bounded queue

`RingInv buffer es` says that the ring holds the entries `es`, oldest first:
`inOffs`, `outOffs` and `full` encode one queue between them. `add_entry` keeps
the newest ten of the entries added (`addEntry_spec`), and the position lookup is
`List.locate` over the sizes (`find_spec`), for every fill level and wrap position.
-/

namespace Aesd

open AesdCircularBuffer

/-- The ring holds exactly the entries `es`, oldest first. The slots beyond them are
    cleared; only a full ring ever starts anywhere else than at slot `0`. -/
structure RingInv (buffer : AesdCircularBuffer) (es : List AesdBufferEntry) : Prop where
  length_le : es.length ≤ 10
  outOffs_lt : buffer.outOffs < 10
  inOffs_eq : buffer.inOffs = (buffer.outOffs + es.length) % 10
  full_iff : buffer.full = true ↔ es.length = 10
  outOffs_eq : es.length < 10 → buffer.outOffs = 0
  slot : ∀ k, k < 10 → buffer.getEntry ((buffer.outOffs + k) % 10) = some (es.getD k .zero)

namespace AesdCircularBuffer

/-- The number of commands held. -/
def count (buffer : AesdCircularBuffer) : Nat :=
  if buffer.full then maxWriteOperationsSupported
  else (buffer.inOffs + maxWriteOperationsSupported - buffer.outOffs)
    % maxWriteOperationsSupported

/-- The entries read from `outOffs` in ring order, oldest first. -/
def entries (buffer : AesdCircularBuffer) : List AesdBufferEntry :=
  (List.range buffer.count).map fun k =>
    (buffer.getEntry ((buffer.outOffs + k) % maxWriteOperationsSupported)).getD .zero

/-! ### Slots -/

theorem setEntry_of_lt (buffer : AesdCircularBuffer) {i : Nat} (e : AesdBufferEntry)
    (hi : i < 10) :
    ∃ buffer', buffer.setEntry i e = some buffer' ∧ buffer'.inOffs = buffer.inOffs ∧
      buffer'.outOffs = buffer.outOffs ∧ buffer'.full = buffer.full ∧
      ∀ j, buffer'.getEntry j = if j = i then some e else buffer.getEntry j := by
  refine ⟨_, dif_pos hi, rfl, rfl, rfl, fun j => ?_⟩
  simp only [getEntry, Vector.getElem?_set, eq_comm (a := i)]

theorem getEntry_lt (buffer : AesdCircularBuffer) {i : Nat} (hi : i < 10) :
    ∃ e, buffer.getEntry i = some e :=
  ⟨buffer.entry[i], Vector.getElem?_eq_getElem hi⟩

end AesdCircularBuffer

theorem nextOffs_eq (i : Nat) : nextOffs i = (i + 1) % 10 := rfl

theorem nextOffs_lt (i : Nat) : nextOffs i < 10 := Nat.mod_lt _ (by decide)

theorem nextOffs_add_mod (out k : Nat) : nextOffs ((out + k) % 10) = (out + (k + 1)) % 10 := by
  simp only [nextOffs_eq]; omega

namespace RingInv

variable {buffer : AesdCircularBuffer} {es : List AesdBufferEntry}

/-- A cleared ring holds nothing. -/
theorem init : RingInv aesdCircularBufferInit [] where
  length_le := by simp
  outOffs_lt := by decide
  inOffs_eq := rfl
  full_iff := by simp [aesdCircularBufferInit]
  outOffs_eq := fun _ => rfl
  slot := fun k _ => by
    have hlt : (0 + k) % 10 < maxWriteOperationsSupported := Nat.mod_lt _ (by decide)
    rw [getEntry, aesdCircularBufferInit, Vector.getElem?_eq_getElem hlt, Vector.getElem_replicate,
      List.getD_nil]

theorem full_eq (h : RingInv buffer es) : buffer.full = decide (es.length = 10) := by
  rw [Bool.eq_iff_iff, h.full_iff, decide_eq_true_iff]

theorem inOffs_lt (h : RingInv buffer es) : buffer.inOffs < 10 := by
  rw [h.inOffs_eq]; exact Nat.mod_lt _ (by decide)

theorem slot_of_lt (h : RingInv buffer es) {k : Nat} (hk : k < es.length) :
    buffer.getEntry ((buffer.outOffs + k) % 10) = some es[k] := by
  rw [h.slot k (by have := h.length_le; omega), List.getD_eq_getElem?_getD,
    List.getElem?_eq_getElem hk]
  rfl

theorem count_eq (h : RingInv buffer es) : buffer.count = es.length := by
  have hle := h.length_le
  have hout := h.outOffs_lt
  simp only [count, maxWriteOperationsSupported, h.full_eq, decide_eq_true_eq, h.inOffs_eq]
  split <;> omega

/-- What the ring holds can be read off it. -/
theorem entries_eq (h : RingInv buffer es) : buffer.entries = es := by
  apply List.ext_getElem
  · simp only [entries, List.length_map, List.length_range, h.count_eq]
  · intro k hk hk'
    simp only [entries, List.getElem_map, List.getElem_range, h.slot_of_lt hk', Option.getD_some]

/-! ### The slots in array order -/

private theorem perm_rotate :
    ∀ out < 10, ((List.range 10).map fun k => (out + k) % 10).Perm (List.range 10) := by
  decide

/-- The array lists the entries, and cleared slots besides, in some order. -/
theorem toList_perm (h : RingInv buffer es) :
    buffer.entry.toList.Perm (es ++ List.replicate (10 - es.length) .zero) := by
  have harray : buffer.entry.toList =
      (List.range 10).map fun i => (buffer.getEntry i).getD .zero := by
    refine List.ext_getElem (by simp) fun i hi _ => ?_
    rw [Vector.length_toList] at hi
    simp [getEntry, Vector.getElem?_eq_getElem hi]
  have hring : es ++ List.replicate (10 - es.length) .zero =
      (((List.range 10).map fun k => (buffer.outOffs + k) % 10).map
        fun i => (buffer.getEntry i).getD .zero) := by
    have hlen := h.length_le
    refine List.ext_getElem (by simp; omega) fun k hk _ => ?_
    simp only [List.length_append, List.length_replicate] at hk
    have hslot := h.slot k (by omega)
    simp only [List.getElem_map, List.getElem_range, hslot, Option.getD_some,
      List.getD_eq_getElem?_getD]
    by_cases hlt : k < es.length
    · rw [List.getElem_append_left hlt, List.getElem?_eq_getElem hlt, Option.getD_some]
    · rw [List.getElem_append_right (Nat.le_of_not_lt hlt), List.getElem_replicate,
        List.getElem?_eq_none (Nat.le_of_not_lt hlt), Option.getD_none]
  rw [harray, hring]
  exact ((perm_rotate _ h.outOffs_lt).map _).symm

/-- The slots whose pointer is not `NULL` hold the entries, in some order. -/
theorem used_perm (h : RingInv buffer es) (hused : ∀ e ∈ es, e.buffptr ≠ .null) :
    (buffer.entry.toList.filter fun e => e.buffptr != .null).Perm es := by
  have hes : es.filter (fun e => e.buffptr != .null) = es := by
    rw [List.filter_eq_self]
    simpa using hused
  have hzero : (List.replicate (10 - es.length) AesdBufferEntry.zero).filter
      (fun e => e.buffptr != .null) = [] := by
    rw [List.filter_eq_nil_iff]
    intro e he
    rw [List.eq_of_mem_replicate he]
    simp [AesdBufferEntry.zero]
  have hperm := h.toList_perm.filter fun e => e.buffptr != .null
  rwa [List.filter_append, hes, hzero, List.append_nil] at hperm

/-! ### Adding an entry -/

/-- A full ring hands its oldest buffer back and moves on by one slot. -/
private theorem addEntry_full (h : RingInv buffer es) (hfull : es.length = 10)
    (e : AesdBufferEntry) :
    ∃ buffer', aesdCircularBufferAddEntry buffer e = some (es[0].buffptr, buffer') ∧
      RingInv buffer' (es.tail ++ [e]) := by
  have hout := h.outOffs_lt
  have hin : buffer.inOffs = buffer.outOffs := by rw [h.inOffs_eq]; omega
  have hold : buffer.getEntry buffer.outOffs = some es[0] := by
    have := h.slot_of_lt (k := 0) (by omega)
    rwa [Nat.add_zero, Nat.mod_eq_of_lt hout] at this
  obtain ⟨b, hset, hbin, hbout, hbfull, hbget⟩ :=
    setEntry_of_lt { buffer with outOffs := nextOffs buffer.outOffs } e h.inOffs_lt
  have hnext := nextOffs_lt buffer.outOffs
  refine ⟨{ b with inOffs := nextOffs b.inOffs, full := true }, ?_, ?_⟩
  · have hwrap : nextOffs b.inOffs = b.outOffs := by rw [hbin, hbout, hin]
    simp only [aesdCircularBufferAddEntry, if_pos (h.full_iff.mpr hfull), hold,
      Option.bind_eq_bind, Option.bind_some, hset, hwrap, beq_self_eq_true, if_true]
  · have hlen : (es.tail ++ [e]).length = 10 := by simp [hfull]
    refine ⟨hlen.le, by rw [hbout]; exact hnext, ?_, by simp [hfull], by omega, ?_⟩
    · show nextOffs b.inOffs = (b.outOffs + (es.tail ++ [e]).length) % 10
      rw [hlen, hbin, hbout, hin, Nat.add_mod_right, Nat.mod_eq_of_lt hnext]
    · intro k hk
      show b.getEntry ((b.outOffs + k) % 10) = _
      rw [hbout, hbget]
      show (if (nextOffs buffer.outOffs + k) % 10 = buffer.inOffs then some e
        else buffer.getEntry ((nextOffs buffer.outOffs + k) % 10)) = _
      have hmod : (nextOffs buffer.outOffs + k) % 10 = (buffer.outOffs + (k + 1)) % 10 := by
        simp only [nextOffs_eq]; omega
      rw [hmod, hin, List.getD_eq_getElem?_getD]
      by_cases hk9 : k = 9
      · rw [if_pos (by omega), List.getElem?_append_right (by simp; omega)]
        simp [hfull, hk9]
      · rw [if_neg (by omega), h.slot_of_lt (by omega),
          List.getElem?_append_left (by simp; omega)]
        simp [List.getElem?_tail, List.getElem?_eq_getElem (show k + 1 < es.length by omega)]

/-- A ring with room takes the entry into the next slot and hands nothing back. -/
private theorem addEntry_room (h : RingInv buffer es) (hroom : es.length < 10)
    (e : AesdBufferEntry) :
    ∃ buffer', aesdCircularBufferAddEntry buffer e = some (.null, buffer') ∧
      RingInv buffer' (es ++ [e]) := by
  have hzero := h.outOffs_eq hroom
  have hin : buffer.inOffs = es.length := by rw [h.inOffs_eq, hzero]; omega
  have hnf : buffer.full = false := by rw [h.full_eq]; simp; omega
  obtain ⟨b, hset, hbin, hbout, hbfull, hbget⟩ := setEntry_of_lt buffer e h.inOffs_lt
  have hlen : (es ++ [e]).length = es.length + 1 := by simp
  have hnext : nextOffs b.inOffs = (es.length + 1) % 10 := by rw [hbin, hin, nextOffs_eq]
  refine ⟨{ b with inOffs := nextOffs b.inOffs, full := decide (es.length + 1 = 10) }, ?_, ?_⟩
  · simp only [aesdCircularBufferAddEntry, hnf, Bool.false_eq_true, if_false,
      Option.bind_eq_bind, Option.bind_some, hset, beq_iff_eq]
    rw [hnext, hbout, hzero, hbfull, hnf]
    by_cases h9 : es.length + 1 = 10
    · rw [if_pos (by omega), decide_eq_true h9]
    · rw [if_neg (by omega), decide_eq_false h9, ← hnf, ← hbfull, ← hzero, ← hbout]
  · refine ⟨by omega, by rw [hbout, hzero]; decide, ?_, by simp, fun _ => by rw [hbout, hzero], ?_⟩
    · show nextOffs b.inOffs = (b.outOffs + (es ++ [e]).length) % 10
      rw [hnext, hbout, hzero, hlen, Nat.zero_add]
    · intro k hk
      show b.getEntry ((b.outOffs + k) % 10) = _
      have hmod : (0 + k) % 10 = k := by omega
      have hslot := h.slot k hk
      rw [hzero, hmod] at hslot
      rw [hbout, hzero, hmod, hbget, hin, List.getD_eq_getElem?_getD]
      by_cases hke : k = es.length
      · rw [if_pos hke, hke, List.getElem?_append_right le_rfl]
        simp
      · rw [if_neg hke, hslot, List.getD_eq_getElem?_getD]
        by_cases hlt : k < es.length
        · rw [List.getElem?_append_left hlt]
        · rw [List.getElem?_eq_none (by omega), List.getElem?_eq_none (by omega)]

/-- Adding an entry keeps the newest ten. The oldest entry's buffer is handed back
    when it had to go, and nothing otherwise. -/
theorem addEntry_spec (h : RingInv buffer es) (e : AesdBufferEntry) :
    ∃ buffer', aesdCircularBufferAddEntry buffer e =
        some ((if es.length = 10 then (es.headD .zero).buffptr else .null), buffer') ∧
      RingInv buffer' ((es ++ [e]).rtake 10) := by
  rw [List.rtake_concat_of_length_le h.length_le (by decide)]
  by_cases hfull : es.length = 10
  · obtain ⟨b, hadd, hb⟩ := addEntry_full h hfull e
    refine ⟨b, ?_, by rwa [if_pos hfull]⟩
    rw [hadd, if_pos hfull]
    cases es with
    | nil => simp at hfull
    | cons x xs => rfl
  · obtain ⟨b, hadd, hb⟩ := addEntry_room h (by have := h.length_le; omega) e
    exact ⟨b, by rw [hadd, if_neg hfull], by rwa [if_neg hfull]⟩

/-! ### Looking a position up -/

/-- The bytes before the `k`-th entry. -/
private def sizeBefore (es : List AesdBufferEntry) (k : Nat) : Nat :=
  ((es.map (·.size)).take k).sum

private theorem sizeBefore_succ {es : List AesdBufferEntry} {k : Nat} (hk : k < es.length) :
    sizeBefore es (k + 1) = sizeBefore es k + es[k].size := by
  rw [sizeBefore, List.take_succ_eq_append_getElem (by simpa using hk)]
  simp [sizeBefore]

private theorem sizeBefore_le (es : List AesdBufferEntry) (k : Nat) :
    sizeBefore es k ≤ (es.map (·.size)).sum := by
  conv_rhs => rw [← List.take_append_drop k (es.map (·.size))]
  rw [List.sum_append, sizeBefore]
  exact Nat.le_add_right _ _

/-- The lookup from the `k`-th logical entry on, with the bytes before it summed up. -/
private theorem findLoop_spec (h : RingInv buffer es) {charOffset : Nat}
    (hoff : charOffset < 2 ^ 64) (htotal : (es.map (·.size)).sum < 2 ^ 64)
    (steps k : Nat) (hk : k + steps = 10) (hpast : sizeBefore es k ≤ charOffset)
    (hopen : k < es.length ∨ k = 10 ∨ es = []) :
    buffer.findLoop charOffset steps ((buffer.outOffs + k) % 10) (sizeBefore es k) =
      some ((((es.map (·.size)).drop k).locate (charOffset - sizeBefore es k)).map
        fun p => ((buffer.outOffs + (k + p.1)) % 10, p.2)) := by
  induction steps generalizing k with
  | zero =>
    have hdrop : (es.map (·.size)).drop k = [] :=
      List.drop_eq_nil_of_le (by have := h.length_le; simp; omega)
    simp only [findLoop, hdrop, List.locate, Option.map_none]
  | succ steps ih =>
    have hslot := h.slot k (by omega)
    rcases hopen with hlt | rfl | rfl
    · have hget : es.getD k .zero = es[k] := by
        rw [List.getD_eq_getElem?_getD, List.getElem?_eq_getElem hlt]; rfl
      have hsucc := sizeBefore_succ hlt
      have hsize : sizeT (sizeBefore es k + es[k].size) = sizeBefore es (k + 1) := by
        rw [← hsucc, sizeT, Nat.mod_eq_of_lt ((sizeBefore_le es _).trans_lt htotal)]
      rw [List.drop_eq_getElem_cons (by simpa using hlt), List.getElem_map]
      simp only [findLoop, hslot, hget, Option.bind_eq_bind, Option.bind_some, hsize,
        List.locate]
      by_cases hin : charOffset < sizeBefore es (k + 1)
      · have hbyte : sizeTSub charOffset (sizeBefore es k) = charOffset - sizeBefore es k :=
          sizeTSub_of_le hpast hoff
        have hin' : charOffset - sizeBefore es k < es[k].size := by omega
        rw [if_pos hin, if_pos hin', hbyte]
        rfl
      · have hin' : ¬ charOffset - sizeBefore es k < es[k].size := by omega
        rw [if_neg hin, if_neg hin', nextOffs_add_mod, Nat.sub_sub, ← hsucc, Option.map_map]
        have hin_eq := h.inOffs_eq
        have hlen := h.length_le
        by_cases hmore : k + 1 < es.length ∨ k + 1 = 10
        · -- the scan goes on: either it has not met `in_offs` or the ring is full
          have hgo :
              (!buffer.full && (buffer.outOffs + (k + 1)) % 10 == buffer.inOffs) = false := by
            rw [Bool.and_eq_false_iff]
            by_cases hten : es.length = 10
            · left; simp [h.full_eq, hten]
            · have hzero := h.outOffs_eq (by omega)
              right
              rw [beq_eq_false_iff_ne]
              omega
          rw [if_neg (by simp [hgo]), ih (k + 1) (by omega) (by omega) (by tauto)]
          simp only [Function.comp_def, Nat.add_assoc, Nat.add_comm 1]
        · -- the scan met `in_offs`: the `k`-th entry was the last one
          have hlast : k + 1 = es.length := by omega
          have hzero := h.outOffs_eq (by omega)
          have hnf : buffer.full = false := by simp [h.full_eq]; omega
          rw [if_pos (by simp [hnf]; omega), List.drop_eq_nil_of_le (by simp; omega)]
          rfl
    · omega
    · -- only an empty ring is scanned past its entries: all its slots are cleared
      simp only [findLoop, hslot, List.getD_nil, Option.bind_eq_bind, Option.bind_some,
        AesdBufferEntry.zero, sizeBefore, List.map_nil, List.take_nil, List.sum_nil, Nat.add_zero,
        sizeT, Nat.zero_mod, Nat.not_lt_zero, if_false, nextOffs_add_mod, List.drop_nil,
        List.locate, Option.map_none]
      split
      · rfl
      · simpa [sizeBefore, List.locate] using
          ih (k + 1) (by omega) (Nat.zero_le _) (.inr (.inr rfl))

/-- The lookup finds the entry that holds the position, and the byte in it, exactly
    as if the entries were laid end to end. -/
theorem find_spec (h : RingInv buffer es) {charOffset : Nat} (hoff : charOffset < 2 ^ 64)
    (htotal : (es.map (·.size)).sum < 2 ^ 64) :
    aesdCircularBufferFindEntryOffsetForFpos buffer charOffset =
      some (((es.map (·.size)).locate charOffset).map
        fun p => ((buffer.outOffs + p.1) % 10, p.2)) := by
  have hstart : (buffer.outOffs + 0) % 10 = buffer.outOffs := by
    have := h.outOffs_lt; omega
  have hopen : 0 < es.length ∨ 0 = 10 ∨ es = [] := by
    rcases es.length.eq_zero_or_pos with hnil | hpos
    · exact .inr (.inr (List.eq_nil_of_length_eq_zero hnil))
    · exact .inl hpos
  have hloop := findLoop_spec h hoff htotal 10 0 rfl (Nat.zero_le _) hopen
  simpa only [aesdCircularBufferFindEntryOffsetForFpos, hstart, sizeBefore, List.take_zero,
    List.drop_zero, List.sum_nil, Nat.sub_zero, Nat.zero_add] using hloop

/-- Whatever the sizes add up to, the scan only answers with a byte inside an entry: the sum
    it compares with never passes the position, also where it wraps. -/
private theorem findLoop_in_bounds (h : RingInv buffer es) (hsize : ∀ e ∈ es, e.size < 2 ^ 64)
    {charOffset : Nat} (hoff : charOffset < 2 ^ 64) (steps k currentOffset : Nat)
    (hk : k + steps = 10) (hcur : currentOffset ≤ charOffset) :
    ∃ r, buffer.findLoop charOffset steps ((buffer.outOffs + k) % 10) currentOffset = some r ∧
      ∀ p ∈ r, ∃ j, ∃ hj : j < es.length,
        p.1 = (buffer.outOffs + j) % 10 ∧ p.2 < es[j].size := by
  induction steps generalizing k currentOffset with
  | zero => exact ⟨none, rfl, by simp⟩
  | succ steps ih =>
    have hslot := h.slot k (by omega)
    simp only [findLoop, hslot, Option.bind_eq_bind, Option.bind_some]
    by_cases hin : charOffset < sizeT (currentOffset + (es.getD k .zero).size)
    · have hlt : k < es.length := by
        by_contra hge
        rw [List.getD_eq_getElem?_getD, List.getElem?_eq_none (Nat.le_of_not_lt hge)] at hin
        simp only [Option.getD_none, AesdBufferEntry.zero, sizeT, Nat.add_zero] at hin
        omega
      have hget : es.getD k .zero = es[k] := by
        rw [List.getD_eq_getElem?_getD, List.getElem?_eq_getElem hlt]; rfl
      have hk64 := hsize es[k] (List.getElem_mem hlt)
      rw [hget] at hin
      rw [hget, if_pos hin]
      refine ⟨_, rfl, ?_⟩
      simp only [sizeT] at hin
      simp only [Option.mem_def, Option.some.injEq, forall_eq']
      refine ⟨k, hlt, rfl, ?_⟩
      rw [sizeTSub_of_le hcur hoff]
      omega
    · rw [if_neg hin]
      split
      · exact ⟨none, rfl, by simp⟩
      · rw [nextOffs_add_mod]
        exact ih (k + 1) _ (by omega) (Nat.le_of_not_lt hin)

theorem find_in_bounds (h : RingInv buffer es) (hsize : ∀ e ∈ es, e.size < 2 ^ 64)
    {charOffset : Nat} (hoff : charOffset < 2 ^ 64) :
    ∃ r, aesdCircularBufferFindEntryOffsetForFpos buffer charOffset = some r ∧
      ∀ p ∈ r, ∃ j, ∃ hj : j < es.length,
        p.1 = (buffer.outOffs + j) % 10 ∧ p.2 < es[j].size := by
  have hstart : (buffer.outOffs + 0) % 10 = buffer.outOffs := by
    have := h.outOffs_lt; omega
  simpa only [aesdCircularBufferFindEntryOffsetForFpos, hstart] using
    h.findLoop_in_bounds hsize hoff 10 0 0 rfl (Nat.zero_le _)

end RingInv

end Aesd
