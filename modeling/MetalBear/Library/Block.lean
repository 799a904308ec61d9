import Mathlib

/-!
# Allocated blocks

A block of memory as its bytes. Writing is checked: a write of which a byte falls outside the block
has no result.
-/

namespace Block

/-- A `size_t`. -/
def sizeT (n : Nat) : Nat := n % 2 ^ 64

/-- Bytes are written from an offset on. -/
def write (block : List UInt8) (offset : Nat) (bytes : List UInt8) : Option (List UInt8) :=
  if offset + bytes.length ≤ block.length then
    some (block.take offset ++ bytes ++ block.drop (offset + bytes.length))
  else none

/-- `realloc`: the bytes that both blocks have, and after them what the memory happens to hold. -/
def resize (block : List UInt8) (size : Nat) (memory : Nat → UInt8) : List UInt8 :=
  block.take size ++ (List.range (size - block.length)).map memory

variable {block written bytes : List UInt8} {offset size n : Nat} {memory : Nat → UInt8}

theorem sizeT_lt (n : Nat) : sizeT n < 2 ^ 64 := Nat.mod_lt n (by decide)

theorem sizeT_of_lt (h : n < 2 ^ 64) : sizeT n = n := Nat.mod_eq_of_lt h

theorem write_isSome : (write block offset bytes).isSome ↔
    offset + bytes.length ≤ block.length := by
  rw [write]
  split
  · next h => exact iff_of_true rfl h
  · next h => exact iff_of_false nofun h

theorem write_eq_none (h : block.length < offset + bytes.length) :
    write block offset bytes = none := by
  rw [write, if_neg (Nat.not_le.mpr h)]

theorem length_write (h : write block offset bytes = some written) :
    written.length = block.length := by
  rw [write, Option.ite_none_right_eq_some] at h
  obtain ⟨hroom, heq⟩ := h
  cases heq
  rw [List.length_append, List.length_append, List.length_take, List.length_drop]
  omega

/-- What stands before the offset stays, and the bytes follow it. -/
theorem take_write (h : write block offset bytes = some written) :
    written.take (offset + bytes.length) = block.take offset ++ bytes := by
  rw [write, Option.ite_none_right_eq_some] at h
  obtain ⟨hroom, heq⟩ := h
  cases heq
  apply List.take_left'
  rw [List.length_append, List.length_take]
  omega

theorem length_resize : (resize block size memory).length = size := by
  rw [resize, List.length_append, List.length_take, List.length_map, List.length_range]
  omega

/-- What fits both blocks is kept. -/
theorem take_resize (hblock : n ≤ block.length) (hsize : n ≤ size) :
    (resize block size memory).take n = block.take n := by
  rw [resize, List.take_append_of_le_length, List.take_take, Nat.min_eq_left hsize]
  rw [List.length_take]
  omega

end Block
