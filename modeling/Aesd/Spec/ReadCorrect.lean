import Aesd.Spec.DriverInvariant

/-!
# `aesd_read`, `aesd_llseek` and `aesd_ioctl`

None of the three changes the heap or the device, and none reaches outside a live block,
whatever the file position. A read returns the next bytes of the entry that holds the
position, so a prefix of what follows the position in the contents (`aesdRead_spec`); a
seek to byte `y` of command `x` leaves the position where that byte lies in the contents
(`aesdIoctl_spec`).
-/

namespace Aesd

variable {K : Kernel} {heap : Heap UInt8} {dev : AesdDev} {cmds : List OwnedCommand}
  {pend : List UInt8}

/-! ### `aesd_read` -/

theorem AesdBufferEntry.copyBytes_eq {e : AesdBufferEntry} {off : Nat} (hoff : off ≤ e.size)
    (hsize : e.size < 2 ^ 64) (count : Nat) : e.copyBytes off count = min count (e.size - off) := by
  simp only [copyBytes, sizeTSub_of_le hoff hsize]
  split <;> omega

namespace DevInv

theorem size_entryOf_lt (h : DevInv K heap dev cmds pend) :
    ∀ e ∈ cmds.map entryOf, e.size < 2 ^ 64 := by
  intro e he
  obtain ⟨c, hc, rfl⟩ := List.mem_map.mp he
  have := h.owns.length_le c hc
  have := K.kmallocMaxSize_lt
  simp only [entryOf]
  omega

theorem getEntry_eq (h : DevInv K heap dev cmds pend) {j : Nat} (hj : j < cmds.length) :
    dev.buff.getEntry ((dev.buff.outOffs + j) % 10) = some (entryOf cmds[j]) := by
  rw [h.ring.slot_of_lt (by simpa using hj), List.getElem_map]

/-- A read behind the last entry returns nothing. -/
theorem aesdRead_of_none (_h : DevInv K heap dev cmds pend) (hlock : dev.buffLock = false)
    {fPos : Int} (hfind : aesdCircularBufferFindEntryOffsetForFpos dev.buff (sizeTOfLoff fPos) =
      some none) (count : Nat) (copied : Bool) :
    aesdRead heap dev fPos count copied = some (⟨0, []⟩, fPos, dev) := by
  simp only [aesdRead, AesdDev.lock_eq hlock, hfind, Option.bind_eq_bind, Option.bind_some,
    AesdDev.unlock_locked hlock]
  rfl

/-- A read that finds byte `b` of the `j`-th entry returns what the entry has from there on, up
    to `count` bytes of it. -/
theorem aesdRead_of_some (h : DevInv K heap dev cmds pend) (hlock : dev.buffLock = false)
    {fPos : Int} {j b : Nat} (hj : j < cmds.length) (hb : b < cmds[j].2.length)
    (hfind : aesdCircularBufferFindEntryOffsetForFpos dev.buff (sizeTOfLoff fPos) =
      some (some ((dev.buff.outOffs + j) % 10, b))) (count : Nat) (copied : Bool) :
    ∃ n, n = min count (cmds[j].2.length - b) ∧
      aesdRead heap dev fPos count copied =
        some (if copied then
            (⟨n, (cmds[j].2.drop b).take n⟩, loffT (sizeT (sizeTOfLoff fPos + n)), dev)
          else (⟨-1, []⟩, fPos, dev)) := by
  have hmem := List.getElem_mem hj
  have hmax := h.owns.length_le _ hmem
  have hlt := K.kmallocMaxSize_lt
  have hcopy : (entryOf cmds[j]).copyBytes b count = min count (cmds[j].2.length - b) :=
    AesdBufferEntry.copyBytes_eq (e := entryOf cmds[j]) hb.le (hmax.trans_lt (by omega)) count
  have hload : loadBytes heap (entryOf cmds[j]).buffptr b (min count (cmds[j].2.length - b)) =
      some ((cmds[j].2.drop b).take (min count (cmds[j].2.length - b))) :=
    loadBytes_block (h.owns.stored _ hmem) (by omega)
  have hret : loffT (min count (cmds[j].2.length - b)) = (min count (cmds[j].2.length - b) : Nat) :=
    loffT_of_lt (by omega)
  refine ⟨_, rfl, ?_⟩
  rw [aesdRead, AesdDev.lock_eq hlock, Option.bind_eq_bind, Option.bind_some, hfind,
    Option.bind_eq_bind, Option.bind_some]
  dsimp only
  rw [h.getEntry_eq hj, Option.bind_eq_bind, Option.bind_some, hcopy, hload, Option.bind_eq_bind,
    Option.bind_some, hret, AesdDev.unlock_locked hlock]
  cases copied <;> rfl

/-- Every read is answered, wherever the file position is, and leaves the device alone. A
    failing copy leaves the position alone as well. -/
theorem aesdRead_total (h : DevInv K heap dev cmds pend) (hlock : dev.buffLock = false)
    (fPos : Int) (count : Nat) (copied : Bool) :
    ∃ ret fPos', aesdRead heap dev fPos count copied = some (ret, fPos', dev) ∧
      (copied = false → fPos' = fPos) := by
  obtain ⟨r, hfind, hr⟩ := h.ring.find_in_bounds h.size_entryOf_lt (sizeTOfLoff_lt fPos)
  cases r with
  | none => exact ⟨⟨0, []⟩, fPos, h.aesdRead_of_none hlock hfind count copied, fun _ => rfl⟩
  | some p =>
    obtain ⟨slot, b⟩ := p
    obtain ⟨j, hj, rfl, hb⟩ := hr _ rfl
    rw [List.length_map] at hj
    rw [List.getElem_map] at hb
    obtain ⟨n, -, hread⟩ := h.aesdRead_of_some hlock hj hb hfind count copied
    cases copied with
    | false => exact ⟨⟨-1, []⟩, fPos, hread, fun _ => rfl⟩
    | true => exact ⟨⟨n, (cmds[j].2.drop b).take n⟩, _, hread, nofun⟩

/-- Reading at position `p` of the contents: nothing at their end, and before it a nonempty
    prefix of what follows, by which the position advances. -/
theorem aesdRead_spec (h : DevInv K heap dev cmds pend) (hlock : dev.buffLock = false)
    (htotal : (cmds.map Prod.snd).flatten.length < 2 ^ 63) {p : Nat} (hp : p < 2 ^ 63)
    (count : Nat) :
    ((cmds.map Prod.snd).flatten.length ≤ p ∧
      ∀ copied, aesdRead heap dev p count copied = some (Ret.mk 0 [], (p : Int), dev)) ∨
    (p < (cmds.map Prod.snd).flatten.length ∧ ∃ n, n ≤ count ∧ (0 < count → 0 < n) ∧
      p + n ≤ (cmds.map Prod.snd).flatten.length ∧
      aesdRead heap dev p count true =
        some (Ret.mk n (((cmds.map Prod.snd).flatten.drop p).take n), ((p + n : Nat) : Int), dev) ∧
      aesdRead heap dev p count false = some (Ret.mk (-1) [], (p : Int), dev)) := by
  have hoff : sizeTOfLoff p = p := sizeTOfLoff_natCast (by omega)
  have hsum : ((cmds.map entryOf).map (·.size)).sum = (cmds.map Prod.snd).flatten.length := by
    rw [sizes_eq, List.length_flatten]
  have hfind := h.ring.find_spec (sizeTOfLoff_lt p) (by omega)
  rw [sizes_eq, hoff] at hfind
  rw [sizes_eq] at hsum
  cases hloc : ((cmds.map Prod.snd).map List.length).locate p with
  | none =>
    rw [hloc, Option.map_none] at hfind
    rw [List.locate_eq_none, hsum] at hloc
    exact .inl ⟨hloc, h.aesdRead_of_none hlock (by rw [hoff]; exact hfind) count⟩
  | some q =>
    obtain ⟨j, b⟩ := q
    rw [hloc, Option.map_some] at hfind
    have hlt : p < (cmds.map Prod.snd).flatten.length := by
      by_contra hge
      rw [List.locate_eq_none.mpr (by omega)] at hloc
      exact nomatch hloc
    obtain ⟨hj, hb, -⟩ := List.locate_eq_some.mp hloc
    obtain ⟨hj', hdrop⟩ := List.drop_flatten_of_locate hloc
    simp only [List.length_map, List.getElem_map] at hj hb hdrop
    obtain ⟨n, hn, hread⟩ := h.aesdRead_of_some hlock hj hb (by rw [hoff]; exact hfind) count true
    obtain ⟨_, -, hfault⟩ := h.aesdRead_of_some hlock hj hb (by rw [hoff]; exact hfind) count false
    have hpn : p + n ≤ (cmds.map Prod.snd).flatten.length := by
      have := congrArg List.length hdrop
      simp only [List.length_drop, List.length_append] at this
      omega
    refine .inr ⟨hlt, n, by omega, by omega, hpn, ?_, hfault⟩
    rw [hread, if_pos rfl, hdrop, List.take_append_of_le_length (by simp; omega), hoff,
      sizeT_of_lt (by omega), loffT_of_lt (by omega)]

/-! ### `aesd_llseek` -/

theorem aesdLlseek_total (hlock : dev.buffLock = false) (K : Kernel) (fPos offset whence : Int) :
    ∃ ret fPos', aesdLlseek K dev fPos offset whence = some (ret, fPos', dev) := by
  refine ⟨(K.fixedSizeLlseek fPos offset whence (totalSize { dev with buffLock := true })).1,
    (K.fixedSizeLlseek fPos offset whence (totalSize { dev with buffLock := true })).2, ?_⟩
  simp only [aesdLlseek, AesdDev.lock_eq hlock, Option.bind_eq_bind, Option.bind_some,
    AesdDev.unlock_locked hlock]

/-! ### `aesd_ioctl` -/

/-- The sum of the sizes of the first `n` entries from the `k`-th on. -/
theorem sumPreceding_eq (h : DevInv K heap dev cmds pend) (n k : Nat) (hk : k + n ≤ cmds.length)
    (acc : Nat) (hsum : acc + (((cmds.drop k).take n).map (·.2.length)).sum < 2 ^ 64) :
    sumPreceding dev.buff n ((dev.buff.outOffs + k) % 10) acc =
      some (acc + (((cmds.drop k).take n).map (·.2.length)).sum) := by
  induction n generalizing k acc with
  | zero => simp [sumPreceding]
  | succ n ih =>
    have hj : k < cmds.length := by omega
    rw [List.drop_eq_getElem_cons hj, List.take_succ_cons, List.map_cons, List.sum_cons] at hsum ⊢
    have hsize : (entryOf cmds[k]).size = cmds[k].2.length := rfl
    have hget := h.getEntry_eq hj
    generalize entryOf cmds[k] = e at hsize hget
    have hacc : sizeT (acc + e.size) = acc + cmds[k].2.length := by
      rw [hsize, sizeT_of_lt (by omega)]
    simp only [sumPreceding, hget, Option.bind_eq_bind, Option.bind_some, nextOffs_add_mod, hacc]
    rw [ih (k + 1) (by omega) _ (by omega), Nat.add_assoc]

/-- The sum is made, whatever the sizes add up to. -/
theorem sumPreceding_total (h : DevInv K heap dev cmds pend) (n k acc : Nat) :
    ∃ r, sumPreceding dev.buff n ((dev.buff.outOffs + k) % 10) acc = some r := by
  induction n generalizing k acc with
  | zero => exact ⟨acc, rfl⟩
  | succ n ih =>
    have hslot := h.ring.slot (k % 10) (Nat.mod_lt _ (by decide))
    rw [Nat.add_mod_mod] at hslot
    simp only [sumPreceding, hslot, Option.bind_eq_bind, Option.bind_some, nextOffs_add_mod]
    exact ih (k + 1) _

/-- The used slots are the stored commands, in some order. -/
theorem usedSlots_perm (h : DevInv K heap dev cmds pend) :
    dev.usedSlots.Perm (cmds.map entryOf) := by
  refine h.ring.used_perm fun e he => ?_
  obtain ⟨c, -, rfl⟩ := List.mem_map.mp he
  simp [entryOf]

theorem length_usedSlots (h : DevInv K heap dev cmds pend) :
    dev.usedSlots.length = cmds.length := by
  rw [h.usedSlots_perm.length_eq, List.length_map]

/-- The slot `aesd_ioctl` computes for command `x`. The 32-bit sum does not wrap, since
    `x` is below the number of entries. -/
theorem startingIndex_eq (h : DevInv K heap dev cmds pend) {x : Nat} (hx : x < cmds.length) :
    ((dev.buff.outOffs + x) % 2 ^ 32) % maxWriteOperationsSupported =
      (dev.buff.outOffs + x) % 10 := by
  have := h.ring.outOffs_lt
  have := h.commands_length_le
  rw [Nat.mod_eq_of_lt (show dev.buff.outOffs + x < 2 ^ 32 by omega)]

/-- A seek request is refused unless it names a byte of a stored command. -/
theorem aesdIoctl_seek (h : DevInv K heap dev cmds pend) (hlock : dev.buffLock = false)
    (fPos : Int) (arg : AesdSeekto) :
    (¬ (∃ hx : arg.writeCmd.toNat < cmds.length,
        arg.writeCmdOffset.toNat < cmds[arg.writeCmd.toNat].2.length) ∧
      aesdIoctl dev fPos aesdcharIocseekto arg true = some (-1, fPos, dev)) ∨
    ∃ hx : arg.writeCmd.toNat < cmds.length,
      arg.writeCmdOffset.toNat < cmds[arg.writeCmd.toNat].2.length ∧
      ∃ r, sumPreceding dev.buff arg.writeCmd.toNat dev.buff.outOffs 0 = some r ∧
        aesdIoctl dev fPos aesdcharIocseekto arg true =
          some (0, loffT (sizeT (r + arg.writeCmdOffset.toNat)), dev) := by
  have hlocked := h.locked.length_usedSlots
  have hunlock := AesdDev.unlock_locked hlock
  generalize hio : aesdIoctl dev fPos aesdcharIocseekto arg true = res
  rw [aesdIoctl, if_neg (not_not.mpr rfl), if_neg (by simp), AesdDev.lock_eq hlock,
    Option.bind_eq_bind, Option.bind_some] at hio
  by_cases hx : arg.writeCmd.toNat < cmds.length
  · have hget : dev.buff.getEntry (((dev.buff.outOffs + arg.writeCmd.toNat) % 2 ^ 32) %
        maxWriteOperationsSupported) = some (entryOf cmds[arg.writeCmd.toNat]) := by
      rw [h.startingIndex_eq hx, h.getEntry_eq hx]
    rw [if_neg (by rw [hlocked]; omega)] at hio
    dsimp only at hio
    rw [hget, Option.bind_eq_bind, Option.bind_some] at hio
    by_cases hy : arg.writeCmdOffset.toNat < cmds[arg.writeCmd.toNat].2.length
    · obtain ⟨r, hr⟩ := h.sumPreceding_total arg.writeCmd.toNat 0 0
      rw [Nat.add_zero, Nat.mod_eq_of_lt h.ring.outOffs_lt] at hr
      refine .inr ⟨hx, hy, r, hr, ?_⟩
      rw [if_neg (by simpa [entryOf] using hy), hr, Option.bind_eq_bind, Option.bind_some,
        hunlock] at hio
      exact hio.symm
    · refine .inl ⟨fun hxy => hy hxy.2, ?_⟩
      rw [if_pos (by simpa [entryOf] using hy), hunlock] at hio
      exact hio.symm
  · refine .inl ⟨fun hxy => hx hxy.1, ?_⟩
    rw [if_pos (by rw [hlocked]; omega), hunlock] at hio
    exact hio.symm

/-- Every request is answered and leaves the device alone; unless it succeeds it leaves the
    position alone as well. -/
theorem aesdIoctl_total (h : DevInv K heap dev cmds pend) (hlock : dev.buffLock = false)
    (fPos : Int) (cmd : Nat) (arg : AesdSeekto) (copied : Bool) :
    ∃ ret fPos', aesdIoctl dev fPos cmd arg copied = some (ret, fPos', dev) ∧
      (ret ≠ 0 → fPos' = fPos) := by
  by_cases hcmd : cmd = aesdcharIocseekto
  · subst hcmd
    cases copied with
    | false =>
      exact ⟨-1, fPos, by rw [aesdIoctl, if_neg (not_not.mpr rfl), if_pos (by simp)]; rfl,
        fun _ => rfl⟩
    | true =>
      rcases h.aesdIoctl_seek hlock fPos arg with ⟨-, hio⟩ | ⟨-, -, r, -, hio⟩
      · exact ⟨-1, fPos, hio, fun _ => rfl⟩
      · exact ⟨0, _, hio, nofun⟩
  · exact ⟨-1, fPos, by rw [aesdIoctl, if_pos hcmd]; rfl, fun _ => rfl⟩

/-- A seek to byte `y` of command `x` leaves the position where that byte lies in the
    contents. -/
theorem aesdIoctl_spec (h : DevInv K heap dev cmds pend) (hlock : dev.buffLock = false)
    (htotal : (cmds.map Prod.snd).flatten.length < 2 ^ 63) (fPos : Int) (arg : AesdSeekto) :
    aesdIoctl dev fPos aesdcharIocseekto arg true =
      if arg.writeCmdOffset.toNat < ((cmds.map Prod.snd).getD arg.writeCmd.toNat []).length then
        some (0, ((((cmds.map Prod.snd).take arg.writeCmd.toNat).flatten.length +
          arg.writeCmdOffset.toNat : Nat) : Int), dev)
      else some (-1, fPos, dev) := by
  rcases h.aesdIoctl_seek hlock fPos arg with ⟨hno, hio⟩ | ⟨hx, hy, r, hr, hio⟩
  · rw [hio, if_neg]
    intro hy
    by_cases hx : arg.writeCmd.toNat < cmds.length
    · exact hno ⟨hx, by simpa [hx] using hy⟩
    · simp [hx] at hy
  · have hsizes : ((cmds.take arg.writeCmd.toNat).map (·.2.length)).sum =
        ((cmds.map Prod.snd).take arg.writeCmd.toNat).flatten.length := by
      rw [List.length_flatten, ← List.map_take, List.map_map]; rfl
    have hflat : ((cmds.map Prod.snd).take arg.writeCmd.toNat).flatten.length +
        cmds[arg.writeCmd.toNat].2.length ≤ (cmds.map Prod.snd).flatten.length := by
      have hsplit := congrArg (fun l => l.flatten.length)
        (List.take_append_drop arg.writeCmd.toNat (cmds.map Prod.snd))
      rw [List.drop_eq_getElem_cons (by simpa using hx)] at hsplit
      simp only [List.flatten_append, List.flatten_cons, List.length_append,
        List.getElem_map] at hsplit
      omega
    have hsum := h.sumPreceding_eq arg.writeCmd.toNat 0 (by omega) 0
      (by rw [List.drop_zero, hsizes]; omega)
    rw [Nat.add_zero, Nat.mod_eq_of_lt h.ring.outOffs_lt, hr, List.drop_zero, hsizes,
      Option.some.injEq, Nat.zero_add] at hsum
    rw [hio, if_pos (by simpa [hx] using hy), hsum, sizeT_of_lt (by omega), loffT_of_lt (by omega)]

end DevInv

end Aesd
