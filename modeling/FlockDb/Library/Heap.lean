import Mathlib.Logic.Function.Basic
import Mathlib.Data.Nat.Notation

/-!
# A heap of boxes

A heap hands out addresses that were never used before. A box that was freed is gone for good, so
that using it again, or freeing it twice, shows. The contents are arbitrary.
-/

/-- Boxes by their address. None has an address from the next one on. -/
structure Heap (α : Type) where
  boxes : ℕ → Option α
  next : ℕ
  boxes_of_le : ∀ {n}, next ≤ n → boxes n = none

namespace Heap

variable {α : Type}

/-- A heap without boxes. -/
def empty : Heap α := ⟨fun _ => none, 0, fun _ => rfl⟩

/-- Box a value: its address, and the heap with the box. -/
def alloc (heap : Heap α) (a : α) : ℕ × Heap α :=
  (heap.next, ⟨Function.update heap.boxes heap.next (some a), heap.next + 1, fun {n} hn => by
    rw [Function.update_of_ne (by omega)]
    exact heap.boxes_of_le (by omega)⟩)

/-- Put a value into a box that is there. -/
def write (heap : Heap α) (n : ℕ) (a : α) : Heap α :=
  ⟨Function.update heap.boxes n ((heap.boxes n).map fun _ => a), heap.next, fun {k} hk => by
    by_cases hkn : k = n
    · subst hkn
      rw [Function.update_self, heap.boxes_of_le hk]
      rfl
    · rw [Function.update_of_ne hkn]
      exact heap.boxes_of_le hk⟩

/-- Free a box. -/
def free (heap : Heap α) (n : ℕ) : Heap α :=
  ⟨Function.update heap.boxes n none, heap.next, fun {k} hk => by
    by_cases hkn : k = n
    · subst hkn
      exact Function.update_self ..
    · rw [Function.update_of_ne hkn]
      exact heap.boxes_of_le hk⟩

@[simp] theorem boxes_empty (n : ℕ) : (empty : Heap α).boxes n = none := rfl

@[simp] theorem next_write (heap : Heap α) (n : ℕ) (a : α) :
    (heap.write n a).next = heap.next := rfl

@[simp] theorem next_free (heap : Heap α) (n : ℕ) : (heap.free n).next = heap.next := rfl

@[simp] theorem next_alloc (heap : Heap α) (a : α) : (heap.alloc a).2.next = heap.next + 1 := rfl

/-- The next address has no box. -/
@[simp] theorem boxes_next (heap : Heap α) : heap.boxes heap.next = none :=
  heap.boxes_of_le (Nat.le_refl _)

/-- A box that is there has another address than the next one. -/
theorem ne_next {heap : Heap α} {n : ℕ} {a : α} (h : heap.boxes n = some a) : n ≠ heap.next := by
  rintro rfl
  rw [boxes_next] at h
  cases h

@[simp] theorem alloc_fst (heap : Heap α) (a : α) : (heap.alloc a).1 = heap.next := rfl

@[simp] theorem boxes_alloc_self (heap : Heap α) (a : α) :
    (heap.alloc a).2.boxes heap.next = some a := Function.update_self ..

theorem boxes_alloc_of_ne (heap : Heap α) (a : α) {n : ℕ} (hn : n ≠ heap.next) :
    (heap.alloc a).2.boxes n = heap.boxes n := Function.update_of_ne hn ..

theorem boxes_write_self {heap : Heap α} {n : ℕ} {a : α} (h : heap.boxes n = some a) (b : α) :
    (heap.write n b).boxes n = some b := by
  rw [write]
  simp [h]

theorem boxes_write_of_ne (heap : Heap α) {n k : ℕ} (hk : k ≠ n) (a : α) :
    (heap.write n a).boxes k = heap.boxes k := Function.update_of_ne hk ..

/-- Writing neither makes nor frees a box. -/
@[simp] theorem isSome_boxes_write (heap : Heap α) (n k : ℕ) (a : α) :
    ((heap.write n a).boxes k).isSome = (heap.boxes k).isSome := by
  by_cases hk : k = n
  · subst hk
    rw [write]
    simp
  · rw [boxes_write_of_ne heap hk]

@[simp] theorem boxes_free_self (heap : Heap α) (n : ℕ) : (heap.free n).boxes n = none :=
  Function.update_self ..

theorem boxes_free_of_ne (heap : Heap α) {n k : ℕ} (hk : k ≠ n) :
    (heap.free n).boxes k = heap.boxes k := Function.update_of_ne hk ..

/-- Nothing is left of what was put into a box that is then freed. -/
theorem free_write (heap : Heap α) (n : ℕ) (a : α) : (heap.write n a).free n = heap.free n := by
  simp only [free, write, Function.update_idem]

/-- Two heaps of which the second holds the images of the boxes of the first. -/
structure Related {β : Type} (related : α → β → Prop) (heap : Heap α) (heap' : Heap β) : Prop where
  next_eq : heap'.next = heap.next
  boxes : ∀ n, match heap.boxes n, heap'.boxes n with
    | none, none => True
    | some a, some b => related a b
    | _, _ => False

namespace Related

variable {β : Type} {related related' : α → β → Prop} {heap : Heap α} {heap' : Heap β}

/-- Heaps without boxes are related. -/
theorem empty : Related related (empty : Heap α) (Heap.empty : Heap β) :=
  ⟨rfl, fun _ => trivial⟩

/-- Related heaps have boxes at the same addresses. -/
theorem box (h : Related related heap heap') (n : ℕ) :
    heap.boxes n = none ∧ heap'.boxes n = none ∨
      ∃ a b, heap.boxes n = some a ∧ heap'.boxes n = some b ∧ related a b := by
  have hbox := h.boxes n
  cases ha : heap.boxes n <;> cases hb : heap'.boxes n <;> rw [ha, hb] at hbox
  · exact .inl ⟨rfl, rfl⟩
  · cases hbox
  · cases hbox
  · exact .inr ⟨_, _, rfl, rfl, hbox⟩

/-- What a change leaves of the boxes that it does not touch. -/
theorem boxes_of_eq (h : Related related heap heap') {n : ℕ} {changed : Heap α} {changed' : Heap β}
    (hsame : changed.boxes n = heap.boxes n) (hsame' : changed'.boxes n = heap'.boxes n)
    (hmono : ∀ a b, heap.boxes n = some a → related a b → related' a b) :
    match changed.boxes n, changed'.boxes n with
    | none, none => True
    | some a, some b => related' a b
    | _, _ => False := by
  rw [hsame, hsame']
  rcases h.box n with ⟨ha, hb⟩ | ⟨a, b, ha, hb, hab⟩
  · rw [ha, hb]
    trivial
  · rw [ha, hb]
    exact hmono a b ha hab

/-- Two heaps that box related values stay related, under a relation that the other boxes keep. -/
theorem alloc (h : Related related heap heap') {a : α} {b : β} (hab : related' a b)
    (hothers : ∀ n a b, heap.boxes n = some a → related a b → related' a b) :
    Related related' (heap.alloc a).2 (heap'.alloc b).2 := by
  refine ⟨congrArg (· + 1) h.next_eq, fun n => ?_⟩
  by_cases hn : n = heap.next
  · subst hn
    have hself : (heap'.alloc b).2.boxes heap.next = some b := by
      rw [← h.next_eq]
      exact boxes_alloc_self heap' b
    rw [boxes_alloc_self, hself]
    exact hab
  · exact h.boxes_of_eq (boxes_alloc_of_ne heap a hn) (boxes_alloc_of_ne heap' b (h.next_eq ▸ hn))
      (hothers n)

/-- Two heaps in which one box gets related values stay related, under a relation that the other
boxes keep. -/
theorem write (h : Related related heap heap') {n : ℕ} {a : α} {b : β} (hab : related' a b)
    (hothers : ∀ k ≠ n, ∀ a b, heap.boxes k = some a → related a b → related' a b) :
    Related related' (heap.write n a) (heap'.write n b) := by
  refine ⟨h.next_eq, fun k => ?_⟩
  by_cases hk : k = n
  · subst hk
    simp only [Heap.write, Function.update_self]
    rcases h.box k with ⟨hnone, hnone'⟩ | ⟨old, old', hold, hold', -⟩
    · rw [hnone, hnone']
      trivial
    · rw [hold, hold']
      exact hab
  · exact h.boxes_of_eq (boxes_write_of_ne heap hk a) (boxes_write_of_ne heap' hk b) (hothers k hk)

/-- Two heaps that free one box stay related, under a relation that the other boxes keep. -/
theorem free (h : Related related heap heap') (n : ℕ)
    (hothers : ∀ k ≠ n, ∀ a b, heap.boxes k = some a → related a b → related' a b) :
    Related related' (heap.free n) (heap'.free n) := by
  refine ⟨h.next_eq, fun k => ?_⟩
  by_cases hk : k = n
  · subst hk
    simp
  · exact h.boxes_of_eq (boxes_free_of_ne heap hk) (boxes_free_of_ne heap' hk) (hothers k hk)

end Related

end Heap
