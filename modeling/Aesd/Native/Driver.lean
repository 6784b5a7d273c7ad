import Aesd.Native.CircularBuffer
import Aesd.ForStd.Lts

/-! # The char driver

`main.c` of the driver. `Driver` is what the module keeps: its kernel memory, the
global `aesd_device`, and the file position of every open file. `step` is what the
kernel's file layer does with a system call on an open file: it finds the file's
position, calls the operation of `aesd_fops`, and stores the position back.

Every operation holds `buff_lock` from its first access to `aesd_device` to its
last, so calls take effect one at a time. The lock is part of the state: a return
that forgot to release it would leave `buffLock` set, and taking it again would
never return (`none`). -/

namespace Aesd

/-- `struct aesd_dev`, without the kernel's own `cdev`. -/
structure AesdDev where
  buff : AesdCircularBuffer
  partialWriteBuff : Ptr
  bytesStored : Nat
  buffLock : Bool

/-- The state of the module. `files` gives the position of each open file. -/
structure Driver where
  heap : Heap UInt8
  dev : AesdDev
  files : Nat → Option Int

/-- `aesd_init_module`, where the device could be registered. -/
def aesdInitModule : Driver where
  heap := Heap.empty
  dev := ⟨aesdCircularBufferInit, .null, 0, false⟩
  files := fun _ => none

/-- `'\n'`. -/
abbrev newline : UInt8 := 10

/-- `AESDCHAR_IOCSEEKTO`, that is `_IOWR(0x16, 1, struct aesd_seekto)`. -/
def aesdcharIocseekto : Nat := 0xC0081601

/-- `struct aesd_seekto`. -/
structure AesdSeekto where
  writeCmd : UInt32
  writeCmdOffset : UInt32
  deriving DecidableEq, Repr

/-- What the kernel answers to the calls that one `aesd_write` makes: whether the
    partial write buffer is granted, how many bytes `copy_from_user` misses, and
    whether the `i`-th command buffer is granted. -/
structure WriteOutcome where
  grow : Bool
  notCopied : Nat
  command : Nat → Bool

/-- Every allocation is granted and every byte copied. -/
def WriteOutcome.ok : WriteOutcome := ⟨true, 0, fun _ => true⟩

/-- What a call returns: its value, and the bytes it copied to the user buffer. -/
structure Ret where
  val : Int
  data : List UInt8
  deriving DecidableEq, Repr

namespace AesdDev

/-- `mutex_lock(&my_dev->buff_lock)`. -/
def lock (dev : AesdDev) : Option AesdDev :=
  if dev.buffLock then none else some { dev with buffLock := true }

/-- `mutex_unlock(&my_dev->buff_lock)`. -/
def unlock (dev : AesdDev) : AesdDev := { dev with buffLock := false }

/-- The slots whose `buffptr` is not `NULL`, in the order of the array. -/
def usedSlots (dev : AesdDev) : List AesdBufferEntry :=
  dev.buff.entry.toList.filter fun e => e.buffptr != .null

end AesdDev

/-! ## `aesd_llseek` and `aesd_ioctl` -/

/-- The loop of `aesd_llseek` that adds up the sizes. -/
def totalSize (dev : AesdDev) : Nat :=
  dev.usedSlots.foldl (fun totalSize e => sizeT (totalSize + e.size)) 0

/-- `aesd_llseek`: the result, the new file position and the device. -/
def aesdLlseek (K : Kernel) (dev : AesdDev) (fPos offset whence : Int) :
    Option (Int × Int × AesdDev) := do
  let dev ← dev.lock
  let total := totalSize dev
  let dev := dev.unlock
  let (retpos, fPos) := K.fixedSizeLlseek fPos offset whence total
  some (retpos, fPos, dev)

/-- The loop of `aesd_ioctl` that adds up the sizes of the `n` commands from slot
    `currentIndex` on. -/
def sumPreceding (buff : AesdCircularBuffer) : (n currentIndex retoffset : Nat) → Option Nat
  | 0, _, retoffset => some retoffset
  | n + 1, currentIndex, retoffset => do
    let e ← buff.getEntry currentIndex
    sumPreceding buff n (nextOffs currentIndex) (sizeT (retoffset + e.size))

/-- `aesd_ioctl`: the result, the new file position and the device. -/
def aesdIoctl (dev : AesdDev) (fPos : Int) (cmd : Nat) (arg : AesdSeekto) (copied : Bool) :
    Option (Int × Int × AesdDev) := do
  -- Only handle AESDCHAR_IOCSEEKTO for now
  if cmd ≠ aesdcharIocseekto then return (-1, fPos, dev)
  if !copied then return (-1, fPos, dev)
  let dev ← dev.lock
  -- Count the number of entries and validate the command index
  let entryCount := dev.usedSlots.length
  if entryCount ≤ arg.writeCmd.toNat then return (-1, fPos, dev.unlock)
  -- Now index into cb from the oldest command, double checking validity
  let startingIndex :=
    ((dev.buff.outOffs + arg.writeCmd.toNat) % 2 ^ 32) % maxWriteOperationsSupported
  let target ← dev.buff.getEntry startingIndex
  if target.size ≤ arg.writeCmdOffset.toNat then return (-1, fPos, dev.unlock)
  let retoffset ← sumPreceding dev.buff arg.writeCmd.toNat dev.buff.outOffs 0
  let retoffset := sizeT (retoffset + arg.writeCmdOffset.toNat)
  return (0, loffT retoffset, dev.unlock)

/-! ## `aesd_read` -/

/-- How many bytes of an entry `aesd_read` copies from byte `entryOffsetByteRtn` on. -/
def AesdBufferEntry.copyBytes (readEntry : AesdBufferEntry) (entryOffsetByteRtn count : Nat) :
    Nat :=
  let totalBytes := sizeTSub readEntry.size entryOffsetByteRtn
  if count < totalBytes then count else totalBytes

/-- `aesd_read`: the result with the bytes copied out, the new file position and the
    device. -/
def aesdRead (heap : Heap UInt8) (dev : AesdDev) (fPos : Int) (count : Nat) (copied : Bool) :
    Option (Ret × Int × AesdDev) := do
  let dev ← dev.lock
  -- Find which circular buffer entry contains the byte at f_pos
  let found ← aesdCircularBufferFindEntryOffsetForFpos dev.buff (sizeTOfLoff fPos)
  match found with
  | none => return (⟨0, []⟩, fPos, dev.unlock)
  | some (slot, entryOffsetByteRtn) =>
    let readEntry ← dev.buff.getEntry slot
    -- Determine how many bytes should be copied
    let copyBytes := readEntry.copyBytes entryOffsetByteRtn count
    let bytes ← loadBytes heap readEntry.buffptr entryOffsetByteRtn copyBytes
    if !copied then return (⟨-1, []⟩, fPos, dev.unlock)
    return (⟨loffT copyBytes, bytes⟩, loffT (sizeT (sizeTOfLoff fPos + copyBytes)), dev.unlock)

/-! ## `aesd_write` -/

/-- The `while (next_newline)` loop of `aesd_write`, the `i`-th round first. `fuel` bounds
    the rounds, `none` when it runs out; the answer tells whether every command buffer
    was granted. -/
def newlineLoop (K : Kernel) (command : Nat → Bool) :
    (fuel i : Nat) → Heap UInt8 → AesdDev → Option (Bool × Heap UInt8 × AesdDev)
  | 0, _, _, _ => none
  | fuel + 1, i, heap, dev => do
    let nextNewline ← memchr heap dev.partialWriteBuff newline dev.bytesStored
    match nextNewline with
    | none => some (true, heap, dev)
    | some newlinePosition =>
      -- First, get the position and length of the complete command
      let commandLength := newlinePosition + 1
      -- Store the command in a new buffer to insert into circular buffer
      let (commandBuffer, heap) := kmalloc K heap commandLength (command i)
      if commandBuffer = .null then some (false, heap, dev)
      else do
        let heap ← memmove heap commandBuffer 0 dev.partialWriteBuff 0 commandLength
        -- We are responsible for freeing any overwritten entries
        let (overwrittenEntry, buff) ←
          aesdCircularBufferAddEntry dev.buff ⟨commandBuffer, commandLength⟩
        let heap ← kfree heap overwrittenEntry
        let remaining := dev.bytesStored - commandLength
        let heap ← memmove heap dev.partialWriteBuff 0 dev.partialWriteBuff commandLength remaining
        newlineLoop K command fuel (i + 1) heap
          { dev with buff := buff, bytesStored := remaining }

/-- The partial write buffer, allocated or expanded by `count` bytes: whether it was
    granted, with the heap and the device after it. -/
def growPartial (K : Kernel) (heap : Heap UInt8) (dev : AesdDev) (count : Nat) (granted : Bool) :
    Option (Bool × Heap UInt8 × AesdDev) :=
  if dev.partialWriteBuff = .null then
    let (p, heap) := kmalloc K heap count granted
    if p = .null then some (false, heap, { dev with partialWriteBuff := p })
    else some (true, heap, { dev with partialWriteBuff := p, bytesStored := 0 })
  else do
    let (tempBuff, heap) ←
      krealloc K heap dev.partialWriteBuff (sizeT (dev.bytesStored + count)) granted
    if tempBuff = .null then some (false, heap, dev)
    else some (true, heap, { dev with partialWriteBuff := tempBuff })

/-- `aesd_write` of the user buffer `data`: the result, the new file position, and the
    heap and the device. -/
def aesdWrite (K : Kernel) (heap : Heap UInt8) (dev : AesdDev) (fPos : Int) (data : List UInt8)
    (out : WriteOutcome) : Option (Int × Int × Heap UInt8 × AesdDev) := do
  let count := data.length
  let dev ← dev.lock
  let (granted, heap, dev) ← growPartial K heap dev count out.grow
  if !granted then return (-1, fPos, heap, dev.unlock)
  -- Copy from user space
  let (left, heap) ← copyFromUser heap dev.partialWriteBuff dev.bytesStored data out.notCopied
  if left ≠ 0 then return (-1, fPos, heap, dev.unlock)
  let dev := { dev with bytesStored := sizeT (dev.bytesStored + count) }
  -- Check for newlines in the partial write buff, which signify complete commands
  let (stored, heap, dev) ← newlineLoop K out.command (dev.bytesStored + 1) 0 heap dev
  if !stored then return (-1, fPos, heap, dev.unlock)
  return (loffT count, loffT (sizeT (sizeTOfLoff fPos + count)), heap, dev.unlock)

/-! ## `aesd_cleanup_module` -/

/-- `aesd_cleanup_module`, up to the kernel's unregistration calls. -/
def aesdCleanupModule (heap : Heap UInt8) (dev : AesdDev) : Option (Heap UInt8) :=
  dev.usedSlots.foldlM (fun heap e => kfree heap e.buffptr) heap

/-! ## System calls -/

/-- A system call that reaches the driver. -/
inductive Op where
  | open (fd : Nat)
  | release (fd : Nat)
  | write (fd : Nat) (data : List UInt8) (out : WriteOutcome)
  | read (fd count : Nat) (copied : Bool)
  | llseek (fd : Nat) (offset whence : Int)
  | ioctl (fd cmd : Nat) (arg : AesdSeekto) (copied : Bool)

/-- `-EBADF`, for a descriptor that is not open. -/
def ebadf : Ret := ⟨-9, []⟩

/-- `-EFAULT`, for a buffer that reaches out of user memory. -/
def efault : Ret := ⟨-14, []⟩

namespace Driver

/-- The file with descriptor `fd` is at position `fPos` from now on. -/
def setPos (d : Driver) (fd : Nat) (fPos : Int) : Driver :=
  { d with files := fun i => if i = fd then some fPos else d.files i }

/-- The kernel's handling of a call. `open` starts a file at position `0`, under a descriptor
    that is not in use; a user buffer lies in the lower half of the address space, which the
    file layer checks before it calls `aesd_write`. -/
def step (K : Kernel) (d : Driver) : Op → Option (Ret × Driver)
  | .open fd =>
    if (d.files fd).isSome then some (ebadf, d)
    else some (⟨fd, []⟩, d.setPos fd 0)
  | .release fd =>
    if (d.files fd).isSome then
      some (⟨0, []⟩, { d with files := fun i => if i = fd then none else d.files i })
    else some (ebadf, d)
  | .write fd data out =>
    match d.files fd with
    | none => some (ebadf, d)
    | some fPos =>
      if data.length < 2 ^ 63 then do
        let (ret, fPos, heap, dev) ← aesdWrite K d.heap d.dev fPos data out
        some (⟨ret, []⟩, { d with heap := heap, dev := dev }.setPos fd fPos)
      else some (efault, d)
  | .read fd count copied =>
    match d.files fd with
    | none => some (ebadf, d)
    | some fPos => do
      let (ret, fPos, dev) ← aesdRead d.heap d.dev fPos count copied
      some (ret, { d with dev := dev }.setPos fd fPos)
  | .llseek fd offset whence =>
    match d.files fd with
    | none => some (ebadf, d)
    | some fPos => do
      let (ret, fPos, dev) ← aesdLlseek K d.dev fPos offset whence
      some (⟨ret, []⟩, { d with dev := dev }.setPos fd fPos)
  | .ioctl fd cmd arg copied =>
    match d.files fd with
    | none => some (ebadf, d)
    | some fPos => do
      let (ret, fPos, dev) ← aesdIoctl d.dev fPos cmd arg copied
      some (⟨ret, []⟩, { d with dev := dev }.setPos fd fPos)

/-- The driver as a transition system, its labels the calls with their answers. -/
def lts (K : Kernel) : Lts Driver (Op × Ret) := Lts.ofCalls (step K)

end Driver

end Aesd
