import Mathlib

/-!
# Arithmetic and slicing that can trap

Sixty-four bit arithmetic, division and slice indexing as partial operations: each
gives its result or says why the machine would stop. A caller that meets an
operation's side condition may replace it by its result.
-/

namespace Checked

variable {α : Type*}

/-- Why an operation cannot give a result. -/
inductive Trap where
  | overflow
  | divisionByZero
  | outOfBounds
  | lengthMismatch
  | outOfFuel
  deriving DecidableEq

/-- Addition within 64 bits. -/
def add (a b : ℕ) : Except Trap ℕ := if a + b < 2 ^ 64 then .ok (a + b) else .error .overflow

/-- Subtraction that may not go below zero. -/
def sub (a b : ℕ) : Except Trap ℕ := if b ≤ a then .ok (a - b) else .error .overflow

/-- Division by a nonzero number. -/
def div (a b : ℕ) : Except Trap ℕ := if b = 0 then .error .divisionByZero else .ok (a / b)

/-- The remainder by a nonzero number. -/
def rem (a b : ℕ) : Except Trap ℕ := if b = 0 then .error .divisionByZero else .ok (a % b)

/-- The elements from a lower to an upper bound. -/
def slice (xs : List α) (lower upper : ℕ) : Except Trap (List α) :=
  if lower ≤ upper ∧ upper ≤ xs.length then .ok ((xs.drop lower).take (upper - lower))
  else .error .outOfBounds

/-- Replace the elements from a lower to an upper bound by equally many others. -/
def copyInto (xs : List α) (lower upper : ℕ) (source : List α) : Except Trap (List α) :=
  if lower ≤ upper ∧ upper ≤ xs.length then
    if source.length = upper - lower then .ok (xs.take lower ++ source ++ xs.drop upper)
    else .error .lengthMismatch
  else .error .outOfBounds

theorem add_eq {a b : ℕ} (h : a + b < 2 ^ 64) : add a b = .ok (a + b) := if_pos h

theorem sub_eq {a b : ℕ} (h : b ≤ a) : sub a b = .ok (a - b) := if_pos h

theorem div_eq {a b : ℕ} (h : 0 < b) : div a b = .ok (a / b) := if_neg h.ne'

theorem rem_eq {a b : ℕ} (h : 0 < b) : rem a b = .ok (a % b) := if_neg h.ne'

theorem slice_eq {xs : List α} {lower upper : ℕ} (h : lower ≤ upper) (h' : upper ≤ xs.length) :
    slice xs lower upper = .ok ((xs.drop lower).take (upper - lower)) := if_pos ⟨h, h'⟩

theorem copyInto_eq {xs source : List α} {lower upper : ℕ} (h : lower ≤ upper)
    (h' : upper ≤ xs.length) (hlength : source.length = upper - lower) :
    copyInto xs lower upper source = .ok (xs.take lower ++ source ++ xs.drop upper) := by
  rw [copyInto, if_pos ⟨h, h'⟩, if_pos hlength]

/-- Overwriting a stretch inside a list changes only that stretch. -/
theorem getElem?_overwrite {xs source : List α} {lower : ℕ}
    (h : lower + source.length ≤ xs.length) (j : ℕ) :
    (xs.take lower ++ source ++ xs.drop (lower + source.length))[j]? =
      if lower ≤ j ∧ j < lower + source.length then source[j - lower]? else xs[j]? := by
  have htake : (xs.take lower).length = lower := by
    rw [List.length_take]
    omega
  by_cases hbefore : j < lower
  · have hout : ¬(lower ≤ j ∧ j < lower + source.length) := by omega
    rw [if_neg hout, List.append_assoc, List.getElem?_append_left (by omega),
      List.getElem?_take_of_lt hbefore]
  · by_cases hinside : j < lower + source.length
    · rw [if_pos ⟨not_lt.mp hbefore, hinside⟩, List.append_assoc,
        List.getElem?_append_right (by omega), htake, List.getElem?_append_left (by omega)]
    · have hout : ¬(lower ≤ j ∧ j < lower + source.length) := by omega
      have hlength : (xs.take lower ++ source).length = lower + source.length := by
        rw [List.length_append, htake]
      rw [if_neg hout, List.getElem?_append_right (by omega), hlength, List.getElem?_drop]
      congr 1
      omega

/-- Overwriting a stretch keeps the length. -/
theorem length_overwrite {xs source : List α} {lower : ℕ}
    (h : lower + source.length ≤ xs.length) :
    (xs.take lower ++ source ++ xs.drop (lower + source.length)).length = xs.length := by
  rw [List.length_append, List.length_append, List.length_take, List.length_drop]
  omega

end Checked
