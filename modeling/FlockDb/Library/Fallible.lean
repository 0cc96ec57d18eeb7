import Mathlib

/-!
# Calls that can fail

Mapping a fallible function over a list succeeds exactly when every element does. Two calls
are alike when both fail or both succeed.
-/

namespace Fallible

variable {α β ε : Type}

/-- A fallible map succeeds with the list of its elements' results. -/
theorem mapM_eq_ok_iff {f : α → Except ε β} {xs : List α} {ys : List β} :
    xs.mapM f = .ok ys ↔ List.Forall₂ (fun x y => f x = .ok y) xs ys := by
  induction xs generalizing ys with
  | nil =>
    rw [List.mapM_nil, List.forall₂_nil_left_iff]
    exact ⟨fun h => (Except.ok.inj h).symm, fun h => by rw [h]; rfl⟩
  | cons x xs ih =>
    rw [List.mapM_cons, List.forall₂_cons_left_iff]
    cases hx : f x with
    | error e => simp [bind, Except.bind]
    | ok y =>
      cases hxs : xs.mapM f with
      | error e => simp [bind, Except.bind, ← ih, hxs]
      | ok rest =>
        have hrest : ∀ ys, List.Forall₂ (fun x y => f x = .ok y) xs ys ↔ rest = ys := by
          intro ys
          rw [← ih, hxs, Except.ok.injEq]
        simp [bind, Except.bind, pure, Except.pure, hrest, eq_comm]

/-- A fallible map succeeds if every element does. -/
theorem mapM_isOk_iff {f : α → Except ε β} {xs : List α} :
    (∃ ys, xs.mapM f = .ok ys) ↔ ∀ x ∈ xs, ∃ y, f x = .ok y := by
  induction xs with
  | nil => simp [pure, Except.pure]
  | cons x xs ih =>
    simp only [mapM_eq_ok_iff, List.forall₂_cons_left_iff, List.forall_mem_cons] at ih ⊢
    rw [← ih]
    constructor
    · rintro ⟨_, y, ys, hy, hys, rfl⟩
      exact ⟨⟨y, hy⟩, ys, hys⟩
    · rintro ⟨⟨y, hy⟩, ys, hys⟩
      exact ⟨_, y, ys, hy, hys, rfl⟩

/-- A fallible map that fails does so with the error of an element. -/
theorem exists_of_mapM_error {f : α → Except ε β} {xs : List α} {e : ε}
    (h : xs.mapM f = .error e) : ∃ x ∈ xs, f x = .error e := by
  induction xs with
  | nil => cases h
  | cons x xs ih =>
    rw [List.mapM_cons] at h
    cases hx : f x with
    | error e' =>
      rw [hx] at h
      cases h
      exact ⟨x, by simp, hx⟩
    | ok y =>
      cases hxs : xs.mapM f with
      | error e' =>
        rw [hx, hxs] at h
        cases h
        obtain ⟨z, hz, hfz⟩ := ih hxs
        exact ⟨z, by simp [hz], hfz⟩
      | ok ys =>
        rw [hx, hxs] at h
        cases h

/-- Two results are alike: both calls fail, or both succeed with related values. -/
inductive Alike {ε' : Type} (r : α → β → Prop) : Except ε α → Except ε' β → Prop
  | error (e : ε) (e' : ε') : Alike r (.error e) (.error e')
  | ok {a : α} {b : β} (h : r a b) : Alike r (.ok a) (.ok b)

end Fallible
