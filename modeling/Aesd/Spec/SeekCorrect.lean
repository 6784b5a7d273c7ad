import Aesd.Spec.ReadBack

/-!
# Seeking

`AESDCHAR_IOCSEEKTO` and the position lookup of a read are inverse to each other: the request
for byte `y` of command `x` leaves the file where the lookup answers with just that byte, and
every position below the end is left by one request (`Driver.seek_lookup_agree`).
`aesd_llseek` works with the same extent (`Driver.llseek_extent`).
-/

namespace Aesd

namespace Driver

variable {K : Kernel} {d : Driver}

/-- Where byte `y` of command `x` lies in the contents. -/
def offsetOf (d : Driver) (x y : Nat) : Nat := (d.commands.take x).flatten.length + y

/-! ### The ioctl -/

/-- What a seek request does. -/
theorem Inv.ioctl_step (h : d.Inv K) {fd : Nat} {q : Int} (hfd : d.files fd = some q)
    (arg : AesdSeekto) :
    step K d (.ioctl fd aesdcharIocseekto arg true) =
      if arg.writeCmdOffset.toNat < (d.commands.getD arg.writeCmd.toNat []).length then
        some (⟨0, []⟩, d.setPos fd (d.offsetOf arg.writeCmd.toNat arg.writeCmdOffset.toNat : Nat))
      else some (⟨-1, []⟩, d) := by
  have hlen := h.contents_length_lt
  obtain ⟨hlock, cmds, pend, hdev, hcmds, -⟩ := h.exists_owned
  rw [contents, hcmds] at hlen
  have hio := hdev.aesdIoctl_spec hlock hlen q arg
  simp only [step, hfd, hio, offsetOf, hcmds]
  split
  · rfl
  · rw [Option.bind_eq_bind, Option.bind_some]
    exact congrArg (fun d => some (_, d)) (setPos_of_files_eq hfd)

/-- The byte a seek request names is the byte the lookup finds. -/
theorem locate_offsetOf {x y : Nat} (hy : y < (d.commands.getD x []).length) :
    (d.commands.map List.length).locate (d.offsetOf x y) = some (x, y) := by
  have hx : x < d.commands.length := by
    by_contra hge
    rw [List.getD_eq_getElem?_getD, List.getElem?_eq_none (Nat.le_of_not_lt hge)] at hy
    exact absurd hy (Nat.not_lt_zero _)
  rw [List.getD_eq_getElem?_getD, List.getElem?_eq_getElem hx, Option.getD_some] at hy
  refine List.locate_eq_some.mpr ⟨by simpa using hx, by simpa using hy, ?_⟩
  rw [offsetOf, List.length_flatten, List.map_take]

/-- Every position below the end is a byte of a command. -/
theorem exists_offsetOf_eq {p : Nat} (hp : p < d.contents.length) :
    ∃ x y, y < (d.commands.getD x []).length ∧ d.offsetOf x y = p := by
  cases hloc : (d.commands.map List.length).locate p with
  | none =>
    rw [List.locate_eq_none, ← List.length_flatten] at hloc
    exact absurd hp (Nat.not_lt.mpr hloc)
  | some r =>
    obtain ⟨hx, hy, hsum⟩ := List.locate_eq_some.mp hloc
    have hx' : r.1 < d.commands.length := by simpa using hx
    refine ⟨r.1, r.2, ?_, ?_⟩
    · rw [List.getD_eq_getElem?_getD, List.getElem?_eq_getElem hx', Option.getD_some]
      simpa using hy
    · rw [offsetOf, List.length_flatten, List.map_take, hsum]

theorem offsetOf_lt {x y : Nat} (hy : y < (d.commands.getD x []).length) :
    d.offsetOf x y < d.contents.length := by
  by_contra hge
  have hloc := locate_offsetOf hy
  rw [List.locate_eq_none.mpr (by rw [← List.length_flatten]; exact Nat.le_of_not_lt hge)] at hloc
  exact nomatch hloc

/-- The lookup at a position of the contents. -/
theorem Inv.find_eq (h : d.Inv K) {p : Nat} (hp : p < 2 ^ 64) :
    aesdCircularBufferFindEntryOffsetForFpos d.dev.buff p =
      some (((d.commands.map List.length).locate p).map
        fun q => ((d.dev.buff.outOffs + q.1) % 10, q.2)) := by
  have hlen := h.contents_length_lt
  obtain ⟨-, cmds, pend, hdev, hcmds, -⟩ := h.exists_owned
  rw [contents, hcmds, List.length_flatten] at hlen
  have hfind := hdev.ring.find_spec hp (by rw [DevInv.sizes_eq]; omega)
  rw [hfind, DevInv.sizes_eq, hcmds]

/-- The slot that holds command `x`. -/
theorem Inv.getEntry_eq (h : d.Inv K) {x : Nat} (hx : x < d.commands.length) :
    ∃ e, d.dev.buff.getEntry ((d.dev.buff.outOffs + x) % 10) = some e ∧
      e.bytes d.heap = d.commands[x] ∧ e.size = d.commands[x].length := by
  obtain ⟨-, cmds, pend, hdev, hcmds, -⟩ := h.exists_owned
  have hx' : x < cmds.length := by simpa [hcmds] using hx
  refine ⟨entryOf cmds[x], hdev.getEntry_eq hx', ?_, ?_⟩
  · rw [hdev.bytes_entryOf (List.getElem_mem hx')]
    simp [hcmds]
  · simp [hcmds, entryOf]

/-- A seek request to a reachable device succeeds exactly when it names a byte of a stored
    command. It then leaves the file at a position where the lookup finds the slot of that
    command and that byte, and it changes nothing else; a request that fails changes nothing.
    Each position below the end is left by exactly one request. -/
theorem seek_lookup_agree {cs : List (Op × Ret)} (hrun : (lts K).run aesdInitModule cs = some d)
    {fd : Nat} {q : Int} (hfd : d.files fd = some q) (hsize : ∀ c ∈ d.commands, c.length < 2 ^ 32) :
    (∀ arg : AesdSeekto, ∃ r d', step K d (.ioctl fd aesdcharIocseekto arg true) = some (r, d') ∧
      (r.val = 0 ↔ ∃ hx : arg.writeCmd.toNat < d.commands.length,
        arg.writeCmdOffset.toNat < d.commands[arg.writeCmd.toNat].length) ∧
      (r.val ≠ 0 → d' = d) ∧
      (r.val = 0 → ∃ p : Nat, d' = d.setPos fd p ∧ ∃ slot e,
        aesdCircularBufferFindEntryOffsetForFpos d.dev.buff (sizeTOfLoff p) =
          some (some (slot, arg.writeCmdOffset.toNat)) ∧
        d.dev.buff.getEntry slot = some e ∧
        some (e.bytes d.heap) = d.commands[arg.writeCmd.toNat]?)) ∧
    ∀ p, p < d.contents.length → ∃! arg : AesdSeekto,
      step K d (.ioctl fd aesdcharIocseekto arg true) = some (⟨0, []⟩, d.setPos fd (p : Nat)) := by
  have hinv := inv_of_run hrun
  have hlen := hinv.contents_length_lt
  have hio := hinv.ioctl_step hfd
  have hnames : ∀ arg : AesdSeekto,
      arg.writeCmdOffset.toNat < (d.commands.getD arg.writeCmd.toNat []).length ↔
        ∃ hx : arg.writeCmd.toNat < d.commands.length,
          arg.writeCmdOffset.toNat < d.commands[arg.writeCmd.toNat].length := by
    intro arg
    rw [List.getD_eq_getElem?_getD]
    by_cases hx : arg.writeCmd.toNat < d.commands.length
    · simp [hx]
    · simp [hx]
  refine ⟨fun arg => ?_, fun p hp => ?_⟩
  · rw [hio]
    by_cases hy : arg.writeCmdOffset.toNat < (d.commands.getD arg.writeCmd.toNat []).length
    · rw [if_pos hy]
      refine ⟨_, _, rfl, by simpa using (hnames arg).mp hy, by simp, fun _ => ⟨_, rfl, ?_⟩⟩
      obtain ⟨hx, -⟩ := (hnames arg).mp hy
      obtain ⟨e, hget, hbytes, -⟩ := hinv.getEntry_eq hx
      have hoff := offsetOf_lt hy
      refine ⟨_, e, ?_, hget, ?_⟩
      · rw [sizeTOfLoff_natCast (by omega), hinv.find_eq (by omega), locate_offsetOf hy]
        rfl
      · rw [hbytes, List.getElem?_eq_getElem hx]
    · rw [if_neg hy]
      exact ⟨_, _, rfl, iff_of_false (by simp) fun hx => hy ((hnames arg).mpr hx), fun _ => rfl,
        by simp⟩
  · obtain ⟨x, y, hy, hp'⟩ := exists_offsetOf_eq hp
    have hx : x < d.commands.length := by
      have := (List.locate_eq_some.mp (locate_offsetOf hy)).1
      simpa using this
    have hx32 : (UInt32.ofNat x).toNat = x := by
      rw [UInt32.toNat_ofNat', Nat.mod_eq_of_lt]
      exact (hx.trans_le hinv.commands_length_le).trans (by decide)
    have hy32 : (UInt32.ofNat y).toNat = y := by
      have hlt := hsize _ (List.getElem_mem hx)
      rw [List.getD_eq_getElem?_getD, List.getElem?_eq_getElem hx, Option.getD_some] at hy
      rw [UInt32.toNat_ofNat', Nat.mod_eq_of_lt (hy.trans hlt)]
    refine ⟨⟨UInt32.ofNat x, UInt32.ofNat y⟩, ?_, fun arg harg => ?_⟩
    · dsimp only
      rw [hio, hx32, hy32, if_pos hy, hp']
    · obtain ⟨x', y'⟩ := arg
      rw [hio] at harg
      split at harg
      · next hy' =>
        simp only [Option.some.injEq, Prod.mk.injEq, true_and] at harg
        have hpos := congrArg (fun d => d.files fd) harg
        simp only [files_setPos_self, Option.some.injEq] at hpos
        -- both requests are the byte that the lookup finds at `p`
        have hloc := locate_offsetOf hy'
        rw [Int.ofNat_inj.mp hpos, ← hp', locate_offsetOf hy, Option.some.injEq,
          Prod.mk.injEq] at hloc
        rw [AesdSeekto.mk.injEq]
        exact ⟨UInt32.toNat_inj.mp (by rw [hx32, hloc.1]),
          UInt32.toNat_inj.mp (by rw [hy32, hloc.2])⟩
      · simp at harg

/-- A write of `"ab\n"` to a file that was opened. -/
def oneCommand : List (Op × Ret) :=
  [(.open 3, ⟨3, []⟩), (.write 3 [97, 98, 10] .ok, ⟨3, []⟩)]

theorem seek_lookup_agree_oneCommand :
    ∃ d, (lts .page).run aesdInitModule oneCommand = some d ∧ ∃! arg : AesdSeekto,
      step .page d (.ioctl 3 aesdcharIocseekto arg true) =
        some (⟨0, []⟩, d.setPos 3 (2 : Nat)) :=
  ⟨((lts .page).run aesdInitModule oneCommand).get (by decide), (Option.some_get _).symm,
    (seek_lookup_agree (q := 3) (Option.some_get (by decide)).symm rfl (by decide)).2 2
      (by decide)⟩

/-! ### `aesd_llseek` -/

theorem foldl_sizes (es : List AesdBufferEntry) (acc : Nat)
    (h : acc + (es.map (·.size)).sum < 2 ^ 64) :
    es.foldl (fun totalSize e => sizeT (totalSize + e.size)) acc =
      acc + (es.map (·.size)).sum := by
  induction es generalizing acc with
  | nil => rfl
  | cons e es ih =>
    rw [List.map_cons, List.sum_cons] at h ⊢
    rw [List.foldl_cons, sizeT_of_lt (by omega), ih _ (by omega), Nat.add_assoc]

/-- The size `aesd_llseek` computes is the length of the contents. -/
theorem Inv.totalSize_eq (h : d.Inv K) : totalSize d.dev = d.contents.length := by
  have hlen := h.contents_length_lt
  obtain ⟨-, cmds, pend, hdev, hcmds, -⟩ := h.exists_owned
  have hsum : (d.dev.usedSlots.map (·.size)).sum = d.contents.length := by
    rw [(hdev.usedSlots_perm.map (·.size)).sum_eq, DevInv.sizes_eq, contents, hcmds,
      List.length_flatten]
  rw [totalSize, foldl_sizes _ _ (by omega), hsum, Nat.zero_add]

/-- The lookup answers `NULL` from the end of the contents on, and only there. -/
theorem Inv.find_eq_none (h : d.Inv K) {p : Nat} (hp : p < 2 ^ 64) :
    aesdCircularBufferFindEntryOffsetForFpos d.dev.buff p = some none ↔ d.contents.length ≤ p := by
  rw [h.find_eq hp, Option.some.injEq, Option.map_eq_none_iff, List.locate_eq_none, contents,
    List.length_flatten]

/-- The position that `lseek` asks for. -/
def llseekTarget (q offset whence : Int) (size : Nat) : Int :=
  if whence = 0 then offset else if whence = 1 then q + offset else size + offset

/-- What the kernel documents about `fixed_size_llseek`: a target between `0` and the size is
    taken, any other is refused; `SEEK_CUR` with offset `0` only asks for the position. -/
structure FixedSizeLlseek (K : Kernel) : Prop where
  ask : ∀ q size, K.fixedSizeLlseek q 0 1 size = (q, q)
  taken : ∀ q offset whence size, whence = 0 ∨ whence = 1 ∧ offset ≠ 0 ∨ whence = 2 →
    0 ≤ llseekTarget q offset whence size → llseekTarget q offset whence size ≤ size →
    K.fixedSizeLlseek q offset whence size =
      (llseekTarget q offset whence size, llseekTarget q offset whence size)
  refused : ∀ q offset whence size, whence = 0 ∨ whence = 1 ∧ offset ≠ 0 ∨ whence = 2 →
    -2 ^ 63 ≤ llseekTarget q offset whence size → llseekTarget q offset whence size < 2 ^ 63 →
    ¬ (0 ≤ llseekTarget q offset whence size ∧ llseekTarget q offset whence size ≤ size) →
    (K.fixedSizeLlseek q offset whence size).1 < 0 ∧
      (K.fixedSizeLlseek q offset whence size).2 = q

/-- Reading on from position `p` delivers `bytes`, whatever the counts are. -/
def ReadsOut (K : Kernel) (d : Driver) (fd p : Nat) (bytes : List UInt8) : Prop :=
  ∀ counts : Nat → Nat, (∀ k, 0 < counts k) → ∃ pieces : List (List UInt8),
    pieces.flatten = bytes ∧
    (∀ k (hk : k < pieces.length), pieces[k] ≠ [] ∧ pieces[k].length ≤ counts k ∧
      step K (d.setPos fd ((p + (pieces.take k).flatten.length : Nat) : Int))
          (.read fd (counts k) true) =
        some (⟨pieces[k].length, pieces[k]⟩,
          d.setPos fd ((p + (pieces.take (k + 1)).flatten.length : Nat) : Int))) ∧
    step K (d.setPos fd ((p + pieces.flatten.length : Nat) : Int))
        (.read fd (counts pieces.length) true) =
      some (⟨0, []⟩, d.setPos fd ((p + pieces.flatten.length : Nat) : Int))

theorem Inv.readsOut (h : d.Inv K) (fd : Nat) {p : Nat} (hp : p < 2 ^ 63) :
    ReadsOut K d fd p (d.contents.drop p) := by
  intro counts hcounts
  have hlen := h.contents_length_lt
  obtain ⟨pieces, hflat, hsteps⟩ := h.exists_pieces fd hcounts hp 0
  simp only [Nat.zero_add] at hsteps
  refine ⟨pieces, hflat, hsteps, ?_⟩
  have hrest : pieces.flatten.length = d.contents.length - p := by
    rw [hflat, List.length_drop]
  rcases h.read_step (p := p + pieces.flatten.length) (by omega) fd (counts pieces.length) with
    ⟨-, hread⟩ | ⟨hlt, -⟩
  · exact hread true
  · omega

theorem Inv.llseek_step (h : d.Inv K) {fd : Nat} {q : Int} (hfd : d.files fd = some q)
    (offset whence : Int) :
    step K d (.llseek fd offset whence) =
      some (⟨(K.fixedSizeLlseek q offset whence d.contents.length).1, []⟩,
        d.setPos fd (K.fixedSizeLlseek q offset whence d.contents.length).2) := by
  obtain ⟨hlock, -⟩ := h.exists_owned
  have htotal : totalSize { d.dev with buffLock := true } = d.contents.length := h.totalSize_eq
  simp only [step, hfd, aesdLlseek, AesdDev.lock_eq hlock, Option.bind_eq_bind, Option.bind_some,
    htotal, AesdDev.unlock_locked hlock]

/-- `aesd_llseek` on a reachable device. The size it computes is the length of the contents,
    and the least position where the lookup answers `NULL`. So a seek to a position of the
    contents or to their end succeeds, and the reads after it deliver what follows; any other
    seek fails and changes nothing; and asking for the position only does that. -/
theorem llseek_extent (hK : FixedSizeLlseek K) {cs : List (Op × Ret)}
    (hrun : (lts K).run aesdInitModule cs = some d) {fd : Nat} {q : Int}
    (hfd : d.files fd = some q) :
    totalSize d.dev = d.contents.length ∧
    (∀ p, p < 2 ^ 64 → (aesdCircularBufferFindEntryOffsetForFpos d.dev.buff p = some none ↔
      d.contents.length ≤ p)) ∧
    ∀ offset whence t, whence = 0 ∨ whence = 1 ∨ whence = 2 →
      t = llseekTarget q offset whence d.contents.length → -2 ^ 63 ≤ t → t < 2 ^ 63 →
      ∃ r d', step K d (.llseek fd offset whence) = some (r, d') ∧
        (r.val = t ∧ d' = d.setPos fd t ∨ r.val < 0 ∧ d' = d) ∧
        (whence = 1 ∧ offset = 0 → r.val = q ∧ d' = d) ∧
        (¬ (whence = 1 ∧ offset = 0) → (0 ≤ r.val ↔ 0 ≤ t ∧ t ≤ d.contents.length)) ∧
        (0 ≤ t → ReadsOut K d fd t.toNat (d.contents.drop t.toNat)) := by
  have hinv := inv_of_run hrun
  refine ⟨hinv.totalSize_eq, fun p hp => hinv.find_eq_none hp, ?_⟩
  rintro offset whence t hwhence rfl hlow hhigh
  refine ⟨_, _, hinv.llseek_step hfd offset whence, ?_⟩
  have hreads : 0 ≤ llseekTarget q offset whence d.contents.length →
      ReadsOut K d fd (llseekTarget q offset whence d.contents.length).toNat
        (d.contents.drop (llseekTarget q offset whence d.contents.length).toNat) :=
    fun h0 => hinv.readsOut fd (by omega)
  by_cases hask : whence = 1 ∧ offset = 0
  · obtain ⟨rfl, rfl⟩ := hask
    have htarget : llseekTarget q 0 1 d.contents.length = q := by simp [llseekTarget]
    rw [hK.ask, htarget]
    exact ⟨.inl ⟨rfl, rfl⟩, fun _ => ⟨rfl, setPos_of_files_eq hfd⟩, fun h => absurd ⟨rfl, rfl⟩ h,
      htarget ▸ hreads⟩
  · have hcase : whence = 0 ∨ whence = 1 ∧ offset ≠ 0 ∨ whence = 2 := by tauto
    by_cases hin : 0 ≤ llseekTarget q offset whence d.contents.length ∧
        llseekTarget q offset whence d.contents.length ≤ d.contents.length
    · rw [hK.taken q offset whence _ hcase hin.1 hin.2]
      exact ⟨.inl ⟨rfl, rfl⟩, fun h => absurd h hask, fun _ => iff_of_true hin.1 hin, hreads⟩
    · obtain ⟨hneg, hsame⟩ := hK.refused q offset whence _ hcase hlow hhigh hin
      rw [hsame, setPos_of_files_eq hfd]
      exact ⟨.inr ⟨hneg, rfl⟩, fun h => absurd h hask,
        fun _ => iff_of_false (Int.not_le.mpr hneg) hin, hreads⟩

/-- `fixed_size_llseek` as the kernel has it does what is documented. -/
theorem fixedSizeLlseek_page : FixedSizeLlseek .page where
  ask q size := by simp [Kernel.page]
  taken q offset whence size hwhence hlow hhigh := by
    have hask : ¬ (whence = 1 ∧ offset = 0) := by omega
    simp only [llseekTarget] at hlow hhigh ⊢
    simp only [Kernel.page]
    rw [if_neg hask, if_pos ⟨by omega, by omega, hlow, hhigh⟩]
  refused q offset whence size hwhence _ _ hout := by
    have hask : ¬ (whence = 1 ∧ offset = 0) := by omega
    simp only [llseekTarget] at hout
    simp only [Kernel.page]
    rw [if_neg hask, if_neg fun h => hout ⟨h.2.2.1, h.2.2.2⟩]
    exact ⟨Int.negSucc_lt_zero _, rfl⟩

theorem llseek_extent_oneCommand :
    ∃ d, (lts .page).run aesdInitModule oneCommand = some d ∧ ∃ r d',
      step .page d (.llseek 3 (-1) 1) = some (r, d') ∧
        (0 ≤ r.val ↔ (0 : Int) ≤ 2 ∧ (2 : Int) ≤ 3) := by
  refine ⟨((lts .page).run aesdInitModule oneCommand).get (by decide),
    (Option.some_get _).symm, ?_⟩
  obtain ⟨-, -, hseek⟩ := llseek_extent fixedSizeLlseek_page
    (Option.some_get (by decide : ((lts .page).run aesdInitModule oneCommand).isSome)).symm
    (show _ = some 3 from rfl : Driver.files _ 3 = some 3)
  obtain ⟨r, d', hstep, -, -, hrange, -⟩ := hseek (-1) 1 2 (by decide) rfl (by decide) (by decide)
  exact ⟨r, d', hstep, hrange (by decide)⟩

end Driver

end Aesd
