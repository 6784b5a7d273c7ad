import Mathlib

/-!
# Open file descriptions

A regular file is the list of its bytes. An open file description has a position in it and says
whether it appends. Writing replaces the bytes from the position on and moves it; a description
that appends goes to the end first. `write_append` and `write_start` are the two cases in which
what a write leaves can be told without looking at the position.
-/

/-- An open file description. -/
structure OpenFile where
  offset : Nat
  append : Bool
  deriving DecidableEq, Repr

namespace OpenFile

variable {α : Type*}

/-- Writing `bytes`. A gap behind the end of the file is filled with zeros. -/
def write [Zero α] (f : OpenFile) (file bytes : List α) : List α × OpenFile :=
  let offset := if f.append then file.length else f.offset
  if bytes = [] then (file, f)
  else
    (file.take offset ++ List.replicate (offset - file.length) 0 ++ bytes ++
      file.drop (offset + bytes.length), { f with offset := offset + bytes.length })

/-- Reading up to `count` bytes. -/
def read (f : OpenFile) (file : List α) (count : Nat) : List α × OpenFile :=
  let bytes := (file.drop f.offset).take count
  (bytes, { f with offset := f.offset + bytes.length })

variable [Zero α] {f : OpenFile}

/-- A description that appends keeps every byte of the file. -/
theorem write_append (h : f.append = true) (file bytes : List α) :
    (f.write file bytes).1 = file ++ bytes := by
  simp only [write, h, if_true, Nat.sub_self, List.replicate_zero, List.append_nil,
    List.take_length]
  split
  · next hnil => simp [hnil]
  · rw [List.drop_eq_nil_of_le (Nat.le_add_right _ _), List.append_nil]

/-- Writing at the start of the file replaces as many bytes as it writes. -/
theorem write_start (happend : f.append = false) (hoffset : f.offset = 0) (file bytes : List α) :
    (f.write file bytes).1 = bytes ++ file.drop bytes.length := by
  simp only [write, happend, hoffset, Bool.false_eq_true, if_false, List.take_zero, Nat.zero_sub,
    List.replicate_zero, List.nil_append, Nat.zero_add]
  split
  · next hnil => simp [hnil]
  · rfl

/-- Writing at the end of the file, from where the last write left off. -/
theorem write_end (happend : f.append = false) {file : List α} (hoffset : f.offset = file.length)
    (bytes : List α) : f.write file bytes =
      (file ++ bytes, { f with offset := (file ++ bytes).length }) := by
  obtain ⟨offset, append⟩ := f
  obtain rfl : append = false := happend
  obtain rfl : offset = file.length := hoffset
  simp only [write, Bool.false_eq_true, if_false, List.take_length, Nat.sub_self,
    List.replicate_zero, List.append_nil, List.length_append]
  split
  · next hnil => simp [hnil]
  · rw [List.drop_eq_nil_of_le (Nat.le_add_right _ _), List.append_nil]

end OpenFile
