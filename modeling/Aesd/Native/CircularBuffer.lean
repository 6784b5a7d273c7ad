import Aesd.Native.Kernel

/-! # The circular buffer of commands

`aesd-circular-buffer.c`: a ring of ten slots, each with a pointer to a command
and its size. `inOffs` is the slot of the next write, `outOffs` the slot of the
oldest command, and `full` tells a full ring from an empty one, since
`inOffs = outOffs` in both. An index past the tenth slot has no defined result. -/

namespace Aesd

/-- `AESDCHAR_MAX_WRITE_OPERATIONS_SUPPORTED`. -/
abbrev maxWriteOperationsSupported : Nat := 10

/-- `struct aesd_buffer_entry`. -/
structure AesdBufferEntry where
  buffptr : Ptr
  size : Nat
  deriving DecidableEq, Repr, Inhabited

/-- A slot cleared by `memset`. -/
def AesdBufferEntry.zero : AesdBufferEntry := ⟨.null, 0⟩

/-- `struct aesd_circular_buffer`. -/
structure AesdCircularBuffer where
  entry : Vector AesdBufferEntry maxWriteOperationsSupported
  inOffs : Nat
  outOffs : Nat
  full : Bool
  deriving DecidableEq, Repr

/-- `aesd_circular_buffer_init`. -/
def aesdCircularBufferInit : AesdCircularBuffer :=
  ⟨Vector.replicate _ .zero, 0, 0, false⟩

/-- The successor of a slot, around the ring. -/
def nextOffs (offs : Nat) : Nat := (offs + 1) % maxWriteOperationsSupported

namespace AesdCircularBuffer

/-- `buffer->entry[i]`. -/
def getEntry (buffer : AesdCircularBuffer) (i : Nat) : Option AesdBufferEntry := buffer.entry[i]?

/-- `buffer->entry[i] = e`. -/
def setEntry (buffer : AesdCircularBuffer) (i : Nat) (e : AesdBufferEntry) :
    Option AesdCircularBuffer :=
  if h : i < maxWriteOperationsSupported then
    some { buffer with entry := buffer.entry.set i e }
  else none

/-- The loop of `aesd_circular_buffer_find_entry_offset_for_fpos`, with
    `steps = AESDCHAR_MAX_WRITE_OPERATIONS_SUPPORTED - entry_count`. The answer is
    the slot of the returned entry and `*entry_offset_byte_rtn`. -/
def findLoop (buffer : AesdCircularBuffer) (charOffset : Nat) :
    (steps currentIndex currentOffset : Nat) → Option (Option (Nat × Nat))
  | 0, _, _ => some none
  | steps + 1, currentIndex, currentOffset => do
    let currentEntry ← buffer.getEntry currentIndex
    if charOffset < sizeT (currentOffset + currentEntry.size) then
      some (some (currentIndex, sizeTSub charOffset currentOffset))
    else
      let currentOffset := sizeT (currentOffset + currentEntry.size)
      let currentIndex := nextOffs currentIndex
      if !buffer.full && currentIndex == buffer.inOffs then some none
      else findLoop buffer charOffset steps currentIndex currentOffset

end AesdCircularBuffer

/-- `aesd_circular_buffer_find_entry_offset_for_fpos`: the slot of the entry and the
    byte in it, or the answer `none` for `NULL`, where `*entry_offset_byte_rtn` is
    not written. -/
def aesdCircularBufferFindEntryOffsetForFpos (buffer : AesdCircularBuffer) (charOffset : Nat) :
    Option (Option (Nat × Nat)) :=
  buffer.findLoop charOffset maxWriteOperationsSupported buffer.outOffs 0

/-- `aesd_circular_buffer_add_entry`: the overwritten command's buffer, or `null`,
    and the ring with the new entry. -/
def aesdCircularBufferAddEntry (buffer : AesdCircularBuffer) (addEntry : AesdBufferEntry) :
    Option (Ptr × AesdCircularBuffer) := do
  -- On overwrite condition, free entry and advance out_offs
  let (overwrittenEntry, buffer) ←
    if buffer.full then do
      let oldest ← buffer.getEntry buffer.outOffs
      some (oldest.buffptr, { buffer with outOffs := nextOffs buffer.outOffs })
    else some (.null, buffer)
  let buffer ← buffer.setEntry buffer.inOffs addEntry
  let buffer := { buffer with inOffs := nextOffs buffer.inOffs }
  let buffer := if buffer.inOffs == buffer.outOffs then { buffer with full := true } else buffer
  some (overwrittenEntry, buffer)

end Aesd
