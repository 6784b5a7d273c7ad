import Aesd.ForStd.Heap

/-! # The kernel services the driver calls

The driver is compiled against the kernel: `kmalloc`, `krealloc` and `kfree`,
the copies to and from user space, and the string functions. They are given here
by what the kernel documents about them. What a call is free to decide (whether an
allocation is granted, how much of a user buffer can be copied) is an argument
of the model, and what the kernel is free to choose once and for all is a field
of `Kernel`, so every theorem holds for every choice.

A C access outside a live block has no defined result: the functions below then
yield `none`, and so does every driver function that makes such an access.

`size_t` values are natural numbers below `2 ^ 64` and `loff_t` values integers
from `-2 ^ 63` up to `2 ^ 63`; `sizeT` and `loffT` are the conversions to them. -/

namespace Aesd

/-- Conversion to `size_t`. -/
def sizeT (n : Nat) : Nat := n % 2 ^ 64

/-- Subtraction of `size_t` values. -/
def sizeTSub (a b : Nat) : Nat := sizeT (a + 2 ^ 64 - b)

/-- Conversion of an unsigned 64-bit value to `loff_t`. -/
def loffT (n : Nat) : Int := (BitVec.ofNat 64 n).toInt

/-- Conversion of a `loff_t` to `size_t`. -/
def sizeTOfLoff (i : Int) : Nat := (i % 2 ^ 64).toNat

theorem sizeT_of_lt {n : Nat} (h : n < 2 ^ 64) : sizeT n = n := Nat.mod_eq_of_lt h

theorem sizeTSub_of_le {a b : Nat} (hle : b ≤ a) (h : a < 2 ^ 64) : sizeTSub a b = a - b := by
  simp only [sizeTSub, sizeT]
  omega

theorem loffT_of_lt {n : Nat} (h : n < 2 ^ 63) : loffT n = n := by
  have hnat : (BitVec.ofNat 64 n).toNat = n := by
    rw [BitVec.toNat_ofNat, Nat.mod_eq_of_lt (by omega)]
  rw [loffT, BitVec.toInt_eq_toNat_of_lt (by omega), hnat]

theorem sizeTOfLoff_lt (i : Int) : sizeTOfLoff i < 2 ^ 64 := by
  simp only [sizeTOfLoff]
  omega

theorem sizeTOfLoff_natCast {n : Nat} (h : n < 2 ^ 64) : sizeTOfLoff n = n := by
  simp only [sizeTOfLoff]
  omega

/-- A pointer to memory that `kmalloc` manages. `zeroSize` is `ZERO_SIZE_PTR`,
    which a request for zero bytes gets: it is not `NULL` and holds no byte. -/
inductive Ptr where
  | null
  | zeroSize
  | block (id : Nat)
  deriving DecidableEq, Repr, Inhabited

/-- What a kernel fixes: the largest block `kmalloc` hands out, what lies in a new
    block before anything is written to it, and `fixed_size_llseek`, from the
    file position, the offset, `whence` and the size to the result and the new
    file position. A block of `kmalloc` is contiguous in physical memory, whose
    addresses have at most 52 bits. -/
structure Kernel where
  kmallocMaxSize : Nat
  kmallocMaxSize_lt : kmallocMaxSize < 2 ^ 52
  uninit : Nat → Nat → UInt8
  fixedSizeLlseek : Int → Int → Int → Nat → Int × Int

/-- A kernel with blocks of up to a page, all cleared. -/
def Kernel.page : Kernel where
  kmallocMaxSize := 4096
  kmallocMaxSize_lt := by decide
  uninit _ _ := 0
  fixedSizeLlseek fPos offset whence size :=
    let target := if whence = 0 then offset else if whence = 1 then fPos + offset else size + offset
    if whence = 1 ∧ offset = 0 then (fPos, fPos)
    else if 0 ≤ whence ∧ whence ≤ 2 ∧ 0 ≤ target ∧ target ≤ size then (target, target)
    else (-22, fPos)

/-- The bytes of a new block of `size` bytes. -/
def Kernel.uninitBytes (K : Kernel) (id size : Nat) : List UInt8 :=
  (List.range size).map (K.uninit id)

@[simp] theorem Kernel.length_uninitBytes (K : Kernel) (id size : Nat) :
    (K.uninitBytes id size).length = size := by
  simp [Kernel.uninitBytes]

/-- `kmalloc(size, GFP_KERNEL)`. -/
def kmalloc (K : Kernel) (heap : Heap UInt8) (size : Nat) (granted : Bool) :
    Ptr × Heap UInt8 :=
  if size = 0 then (.zeroSize, heap)
  else if granted && decide (size ≤ K.kmallocMaxSize) then
    (.block heap.fresh, (heap.alloc (K.uninitBytes heap.fresh size)).2)
  else (.null, heap)

/-- `kfree(p)`. -/
def kfree (heap : Heap UInt8) : Ptr → Option (Heap UInt8)
  | .null => some heap
  | .zeroSize => some heap
  | .block id => heap.free id

/-- `krealloc(p, newSize, GFP_KERNEL)`. The old block is left alone when the
    request is refused; otherwise its bytes move to the new one. -/
def krealloc (K : Kernel) (heap : Heap UInt8) (p : Ptr) (newSize : Nat) (granted : Bool) :
    Option (Ptr × Heap UInt8) :=
  if newSize = 0 then (kfree heap p).map fun heap => (.zeroSize, heap)
  else match p with
    | .null => some (kmalloc K heap newSize granted)
    | .zeroSize => some (kmalloc K heap newSize granted)
    | .block id =>
      if granted && decide (newSize ≤ K.kmallocMaxSize) then do
        let old ← heap.get id
        let heap ← heap.free id
        let kept := old.take newSize
        let added := (K.uninitBytes heap.fresh newSize).drop kept.length
        some (.block heap.fresh, (heap.alloc (kept ++ added)).2)
      else some (.null, heap)

/-- Reads `n` bytes at `p + off`. Reading no byte is fine at any pointer. -/
def loadBytes (heap : Heap UInt8) (p : Ptr) (off n : Nat) : Option (List UInt8) :=
  if n = 0 then some []
  else match p with
    | .block id => heap.load id off n
    | .null => none
    | .zeroSize => none

/-- Writes `bytes` at `p + off`. -/
def storeBytes (heap : Heap UInt8) (p : Ptr) (off : Nat) (bytes : List UInt8) :
    Option (Heap UInt8) :=
  if bytes = [] then some heap
  else match p with
    | .block id => heap.store id off bytes
    | .null => none
    | .zeroSize => none

/-- `memmove(dst + dstOff, src + srcOff, n)`, and `memcpy` where the two do not
    overlap. -/
def memmove (heap : Heap UInt8) (dst : Ptr) (dstOff : Nat) (src : Ptr) (srcOff n : Nat) :
    Option (Heap UInt8) := do
  let bytes ← loadBytes heap src srcOff n
  storeBytes heap dst dstOff bytes

/-- `memchr(p, c, n)` as an offset from `p`, if there is one. -/
def memchr (heap : Heap UInt8) (p : Ptr) (c : UInt8) (n : Nat) : Option (Option Nat) := do
  let bytes ← loadBytes heap p 0 n
  some (bytes.findIdx? (· == c))

/-- `copy_from_user(p + off, data, data.length)`: the number of bytes that could not
    be copied. The kernel clears the part of the destination it could not fill. -/
def copyFromUser (heap : Heap UInt8) (p : Ptr) (off : Nat) (data : List UInt8)
    (notCopied : Nat) : Option (Nat × Heap UInt8) := do
  let left := min notCopied data.length
  let heap ← storeBytes heap p off
    (data.take (data.length - left) ++ List.replicate left 0)
  some (left, heap)

end Aesd
