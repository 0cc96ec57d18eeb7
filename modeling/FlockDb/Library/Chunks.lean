import Mathlib

/-!
# Cutting a list into chunks

A list is cut into consecutive chunks of one size, the last of which may be
short. The chunks are given by their positions, so that a chunk can be named
without its predecessors; joined again, they are the list.
-/

namespace Chunks

variable {α : Type*}

/-- How many chunks of a size a length needs. -/
def chunkCount (size length : ℕ) : ℕ := (length + size - 1) / size

/-- The chunk at a position: it may be short, and past the end it is empty. -/
def chunkAt (size : ℕ) (xs : List α) (i : ℕ) : List α := (xs.drop (i * size)).take size

/-- The chunks of a list, in order. -/
def chunks (size : ℕ) (xs : List α) : List (List α) :=
  (List.range (chunkCount size xs.length)).map (chunkAt size xs)

variable {size : ℕ}

/-- A position holds a chunk exactly when it starts inside the list. -/
theorem lt_chunkCount_iff (hsize : 0 < size) {length i : ℕ} :
    i < chunkCount size length ↔ i * size < length := by
  rw [chunkCount, Nat.lt_div_iff_mul_lt hsize]
  omega

/-- The chunks reach to the end of the list. -/
theorem length_le_chunkCount_mul (hsize : 0 < size) (length : ℕ) :
    length ≤ chunkCount size length * size := by
  by_contra hlt
  have hself : chunkCount size length < chunkCount size length :=
    (lt_chunkCount_iff hsize).mpr (not_le.mp hlt)
  omega

@[simp] theorem length_chunks (size : ℕ) (xs : List α) :
    (chunks size xs).length = chunkCount size xs.length := by
  simp [chunks]

/-- The chunk at a position of the list of chunks. -/
theorem getElem?_chunks (size : ℕ) (xs : List α) (i : ℕ) :
    (chunks size xs)[i]? =
      if i < chunkCount size xs.length then some (chunkAt size xs i) else none := by
  rw [chunks, List.getElem?_map]
  by_cases hi : i < chunkCount size xs.length
  · rw [if_pos hi, List.getElem?_range hi, Option.map_some]
  · rw [if_neg hi, List.getElem?_eq_none (by simpa using hi), Option.map_none]

/-- The length of a chunk. -/
theorem length_chunkAt (size : ℕ) (xs : List α) (i : ℕ) :
    (chunkAt size xs i).length = min size (xs.length - i * size) := by
  simp [chunkAt]

/-- The element of a chunk at a place inside it. -/
theorem getElem?_chunkAt (xs : List α) (i : ℕ) {k : ℕ} (hk : k < size) :
    (chunkAt size xs i)[k]? = xs[i * size + k]? := by
  rw [chunkAt, List.getElem?_take_of_lt hk, List.getElem?_drop]

/-- A chunk reaches a place of it exactly when the list reaches the position. -/
theorem mod_lt_length_chunkAt_iff (hsize : 0 < size) (xs : List α) (pos : ℕ) :
    pos % size < (chunkAt size xs (pos / size)).length ↔ pos < xs.length := by
  have hmod := Nat.mod_lt pos hsize
  have hplace := Nat.mod_add_div pos size
  rw [length_chunkAt, mul_comm]
  omega

end Chunks
