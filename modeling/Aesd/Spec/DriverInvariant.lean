import Aesd.Native.Driver
import Aesd.Spec.RingInvariant
import Aesd.ForStd.Lines

/-!
# What the driver's state means, and its invariant

`commands` and `pending` read the device through its pointers: the stored commands from the
ring, oldest first, and the bytes written after the last newline.

`DevInv K heap dev cmds pend` says that the ring's entries own the blocks and hold the bytes
listed in `cmds`, that the partial write buffer owns one more block whose first bytes are
`pend`, and that nothing else is allocated. Everything proved about the driver rests on it.
-/

namespace Aesd

/-- The predicate that cuts a stream of bytes into commands. -/
abbrev isNewline : UInt8 → Bool := (· == newline)

/-- The complete commands of a stream of bytes. -/
abbrev commandLines (s : List UInt8) : List (List UInt8) := Lines.lines isNewline s

/-- What follows the last complete command of a stream of bytes. -/
abbrev commandRest (s : List UInt8) : List UInt8 := Lines.rest isNewline s

/-- The bytes an entry points to. -/
def AesdBufferEntry.bytes (heap : Heap UInt8) (e : AesdBufferEntry) : List UInt8 :=
  (loadBytes heap e.buffptr 0 e.size).getD []

namespace Driver

/-- The stored commands, oldest first. -/
def commands (d : Driver) : List (List UInt8) :=
  d.dev.buff.entries.map (·.bytes d.heap)

/-- The first `bytes_stored` bytes of `partial_write_buff`. -/
def pending (d : Driver) : List UInt8 :=
  (loadBytes d.heap d.dev.partialWriteBuff 0 d.dev.bytesStored).getD []

/-- What a reader of the device sees: the commands laid end to end. -/
def contents (d : Driver) : List UInt8 := d.commands.flatten

end Driver

/-- The block a pointer refers to, if any. -/
def Ptr.blocks : Ptr → List Nat
  | .null => []
  | .zeroSize => []
  | .block id => [id]

@[simp] theorem Ptr.blocks_null : Ptr.null.blocks = [] := rfl
@[simp] theorem Ptr.blocks_zeroSize : Ptr.zeroSize.blocks = [] := rfl
@[simp] theorem Ptr.blocks_block (id : Nat) : (Ptr.block id).blocks = [id] := rfl

/-- An owned command: its block and its bytes. -/
abbrev OwnedCommand := Nat × List UInt8

/-- The ring entry of an owned command. -/
def entryOf (c : OwnedCommand) : AesdBufferEntry := ⟨.block c.1, c.2.length⟩

/-- `pend` lies at the start of memory at `p`, with at least `room` bytes after it. -/
def HoldsAt (K : Kernel) (heap : Heap UInt8) (p : Ptr) (pend : List UInt8) (room : Nat) : Prop :=
  match p with
  | .block id => ∃ after, heap.get id = some (pend ++ after) ∧ room ≤ after.length ∧
      (pend ++ after).length ≤ K.kmallocMaxSize
  | _ => pend = [] ∧ room = 0

/-- Who owns which block: one for each command, one for the partial write buffer if it
    points to one, and no other block is live. -/
structure Owns (K : Kernel) (heap : Heap UInt8) (cmds : List OwnedCommand) (p : Ptr)
    (pend : List UInt8) : Prop where
  stored : ∀ c ∈ cmds, heap.get c.1 = some c.2
  isLine : ∀ c ∈ cmds, Lines.IsLine isNewline c.2
  length_le : ∀ c ∈ cmds, c.2.length ≤ K.kmallocMaxSize
  holds : HoldsAt K heap p pend 0
  nodup : (cmds.map Prod.fst ++ p.blocks).Nodup
  mem_live : ∀ i, i ∈ heap.live ↔ i ∈ cmds.map Prod.fst ++ p.blocks

/-- The invariant of the device. -/
structure DevInv (K : Kernel) (heap : Heap UInt8) (dev : AesdDev) (cmds : List OwnedCommand)
    (pend : List UInt8) : Prop where
  owns : Owns K heap cmds dev.partialWriteBuff pend
  ring : RingInv dev.buff (cmds.map entryOf)
  bytesStored_eq : dev.bytesStored = pend.length

/-! ### The lock -/

theorem AesdDev.lock_eq {dev : AesdDev} (h : dev.buffLock = false) :
    dev.lock = some { dev with buffLock := true } := by
  simp [AesdDev.lock, h]

theorem AesdDev.unlock_locked {dev : AesdDev} (h : dev.buffLock = false) :
    ({ dev with buffLock := true } : AesdDev).unlock = dev := by
  rw [AesdDev.unlock, ← h]

/-! ### Memory at a pointer -/

theorem loadBytes_zero (heap : Heap UInt8) (p : Ptr) (off : Nat) :
    loadBytes heap p off 0 = some [] := by
  simp [loadBytes]

/-- Reading inside a live block reads its bytes, no byte included. -/
theorem loadBytes_block {heap : Heap UInt8} {id off n : Nat} {cells : List UInt8}
    (hget : heap.get id = some cells) (hlen : off + n ≤ cells.length) :
    loadBytes heap (.block id) off n = some ((cells.drop off).take n) := by
  simp only [loadBytes]
  split
  · next h => rw [h, List.take_zero]
  · exact Heap.load_of_get hget hlen

/-- Writing inside a live block changes those bytes and nothing else. -/
theorem storeBytes_block {heap : Heap UInt8} {id : Nat} {cells : List UInt8} (off : Nat)
    (new : List UInt8) (hget : heap.get id = some cells) (hlen : off + new.length ≤ cells.length) :
    ∃ heap', storeBytes heap (.block id) off new = some heap' ∧ heap'.live = heap.live ∧
      heap'.get id = some (cells.take off ++ new ++ cells.drop (off + new.length)) ∧
      ∀ i, i ≠ id → heap'.get i = heap.get i := by
  simp only [storeBytes]
  split
  · next h =>
    subst h
    exact ⟨heap, rfl, rfl, by simp [hget], fun _ _ => rfl⟩
  · exact Heap.store_of_get hget hlen

/-- What lies at the start of memory at `p` can be read from there. -/
theorem HoldsAt.loadBytes_eq {K : Kernel} {heap : Heap UInt8} {p : Ptr} {pend : List UInt8}
    {room : Nat} (h : HoldsAt K heap p pend room) :
    loadBytes heap p 0 pend.length = some pend := by
  cases p with
  | block id =>
    obtain ⟨after, hget, -, -⟩ := h
    rw [loadBytes_block hget (by simp)]
    simp
  | null => rw [h.1]; rfl
  | zeroSize => rw [h.1]; rfl

theorem HoldsAt.mono {K : Kernel} {heap : Heap UInt8} {p : Ptr} {pend : List UInt8} {m n : Nat}
    (h : HoldsAt K heap p pend n) (hmn : m ≤ n) : HoldsAt K heap p pend m := by
  cases p with
  | block id =>
    obtain ⟨after, hget, hroom, hmax⟩ := h
    exact ⟨after, hget, hmn.trans hroom, hmax⟩
  | null => exact ⟨h.1, by have := h.2; omega⟩
  | zeroSize => exact ⟨h.1, by have := h.2; omega⟩

/-- Fewer bytes are pending when the last of them are left out. -/
theorem HoldsAt.prefix {K : Kernel} {heap : Heap UInt8} {p : Ptr} {pend more : List UInt8}
    {room : Nat} (h : HoldsAt K heap p (pend ++ more) room) : HoldsAt K heap p pend 0 := by
  cases p with
  | block id =>
    obtain ⟨after, hget, -, hmax⟩ := h
    rw [List.append_assoc] at hget hmax
    exact ⟨more ++ after, hget, Nat.zero_le _, hmax⟩
  | null => exact ⟨(List.append_eq_nil_iff.mp h.1).1, rfl⟩
  | zeroSize => exact ⟨(List.append_eq_nil_iff.mp h.1).1, rfl⟩

/-- Other blocks do not matter to what a pointer holds. -/
theorem HoldsAt.congr {K : Kernel} {heap heap' : Heap UInt8} {p : Ptr} {pend : List UInt8}
    {room : Nat} (h : HoldsAt K heap p pend room)
    (hsame : ∀ i ∈ p.blocks, heap'.get i = heap.get i) : HoldsAt K heap' p pend room := by
  cases p with
  | block id =>
    obtain ⟨after, hget, hroom, hmax⟩ := h
    exact ⟨after, by rw [hsame id (by simp), hget], hroom, hmax⟩
  | null => exact h
  | zeroSize => exact h

theorem HoldsAt.length_le {K : Kernel} {heap : Heap UInt8} {p : Ptr} {pend : List UInt8}
    {room : Nat} (h : HoldsAt K heap p pend room) : pend.length ≤ K.kmallocMaxSize := by
  cases p with
  | block id =>
    obtain ⟨after, -, -, hmax⟩ := h
    rw [List.length_append] at hmax
    omega
  | null => rw [h.1]; exact Nat.zero_le _
  | zeroSize => rw [h.1]; exact Nat.zero_le _

/-! ### Reading the invariant -/

namespace DevInv

variable {K : Kernel} {heap : Heap UInt8} {dev : AesdDev} {cmds : List OwnedCommand}
  {pend : List UInt8}

/-- The state after `aesd_init_module`. -/
theorem init (K : Kernel) : DevInv K aesdInitModule.heap aesdInitModule.dev [] [] where
  owns := {
    stored := by simp
    isLine := by simp
    length_le := by simp
    holds := ⟨rfl, rfl⟩
    nodup := by simp [aesdInitModule]
    mem_live := by simp [aesdInitModule, Heap.empty] }
  ring := RingInv.init
  bytesStored_eq := rfl

/-- The lock protects the device and is no part of it. -/
theorem locked (h : DevInv K heap dev cmds pend) :
    DevInv K heap { dev with buffLock := true } cmds pend :=
  ⟨h.owns, h.ring, h.bytesStored_eq⟩

theorem unlock (h : DevInv K heap dev cmds pend) : DevInv K heap dev.unlock cmds pend :=
  ⟨h.owns, h.ring, h.bytesStored_eq⟩

theorem commands_length_le (h : DevInv K heap dev cmds pend) : cmds.length ≤ 10 := by
  simpa using h.ring.length_le

theorem pending_length_lt (h : DevInv K heap dev cmds pend) : pend.length < 2 ^ 63 :=
  (h.owns.holds.length_le.trans_lt K.kmallocMaxSize_lt).trans (by decide)

theorem loadBytes_pending (h : DevInv K heap dev cmds pend) :
    loadBytes heap dev.partialWriteBuff 0 dev.bytesStored = some pend := by
  rw [h.bytesStored_eq]; exact h.owns.holds.loadBytes_eq

theorem bytes_entryOf (h : DevInv K heap dev cmds pend) {c : OwnedCommand} (hc : c ∈ cmds) :
    (entryOf c).bytes heap = c.2 := by
  simp only [AesdBufferEntry.bytes, entryOf]
  rw [loadBytes_block (h.owns.stored c hc) (by simp)]
  simp

theorem commands_eq (h : DevInv K heap dev cmds pend) (files : Nat → Option Int) :
    (Driver.mk heap dev files).commands = cmds.map Prod.snd := by
  simp only [Driver.commands, h.ring.entries_eq, List.map_map]
  exact List.map_congr_left fun c hc => h.bytes_entryOf hc

theorem pending_eq (h : DevInv K heap dev cmds pend) (files : Nat → Option Int) :
    (Driver.mk heap dev files).pending = pend := by
  simp only [Driver.pending, h.loadBytes_pending, Option.getD_some]

/-- The sizes in the ring are the lengths of the commands. -/
theorem sizes_eq (cmds : List OwnedCommand) :
    (cmds.map entryOf).map (·.size) = (cmds.map Prod.snd).map List.length := by
  simp [entryOf, Function.comp_def]

end DevInv

/-- The invariant of the module between calls: the device is in order and unlocked. -/
def Driver.Inv (K : Kernel) (d : Driver) : Prop :=
  d.dev.buffLock = false ∧ ∃ cmds pend, DevInv K d.heap d.dev cmds pend

theorem Driver.Inv.init (K : Kernel) : aesdInitModule.Inv K :=
  ⟨rfl, [], [], DevInv.init K⟩

end Aesd
