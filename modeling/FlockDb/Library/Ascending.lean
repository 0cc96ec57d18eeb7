import Mathlib

/-!
# Ascending lists as sets

A strictly ascending list is a set whose elements can be searched for. The search says
where a missing element belongs, and inserting it there keeps the list ascending. A list
that is sorted and freed of repeats is ascending, with the elements it had. A list that is
only freed of repeats keeps the order in which its elements were first seen.
-/

namespace Ascending

variable {α : Type*} [LinearOrder α]

/-- Search an ascending list: where the element is, or else where it belongs. -/
def search : List α → α → Except ℕ ℕ
  | [], _ => .error 0
  | y :: ys, x =>
    if x < y then .error 0
    else if x = y then .ok 0
    else
      match search ys x with
      | .ok i => .ok (i + 1)
      | .error i => .error (i + 1)

/-- Sort a list and remove repeats that follow each other. -/
def sortDedup (xs : List α) : List α := (xs.mergeSort (· ≤ ·)).destutter (· ≠ ·)

/-- What the search finds is there. -/
theorem mem_of_search {xs : List α} {x : α} {i : ℕ} (h : search xs x = .ok i) : x ∈ xs := by
  induction xs generalizing i with
  | nil => cases h
  | cons y ys ih =>
    rw [search] at h
    by_cases hlt : x < y
    · rw [if_pos hlt] at h
      cases h
    by_cases heq : x = y
    · rw [heq]
      exact List.mem_cons_self
    · rw [if_neg hlt, if_neg heq] at h
      cases hys : search ys x with
      | ok j => exact List.mem_cons_of_mem y (ih hys)
      | error j =>
        rw [hys] at h
        cases h

/-- Inserting an element where the search says that it belongs keeps an ascending list
ascending, and adds the element to it. -/
theorem insertIdx_search {xs : List α} (hxs : xs.Pairwise (· < ·)) {x : α} {i : ℕ}
    (h : search xs x = .error i) :
    x ∉ xs ∧ (xs.insertIdx i x).Pairwise (· < ·) ∧ ∀ a, a ∈ xs.insertIdx i x ↔ a = x ∨ a ∈ xs := by
  induction xs generalizing i with
  | nil =>
    obtain rfl : 0 = i := Except.error.inj h
    simp
  | cons y ys ih =>
    obtain ⟨hy, hys⟩ := List.pairwise_cons.mp hxs
    rw [search] at h
    by_cases hlt : x < y
    · -- it belongs in front
      rw [if_pos hlt] at h
      obtain rfl : 0 = i := Except.error.inj h
      have hall : ∀ a ∈ y :: ys, x < a := by
        intro a ha
        rcases List.mem_cons.mp ha with rfl | ha
        · exact hlt
        · exact hlt.trans (hy a ha)
      refine ⟨fun hmem => lt_irrefl x (hall x hmem), ?_, fun a => ?_⟩
      · rw [List.insertIdx_zero]
        exact List.pairwise_cons.mpr ⟨hall, hxs⟩
      · rw [List.insertIdx_zero, List.mem_cons]
    by_cases heq : x = y
    · rw [if_neg hlt, if_pos heq] at h
      cases h
    rw [if_neg hlt, if_neg heq] at h
    cases hrest : search ys x with
    | ok j =>
      rw [hrest] at h
      cases h
    | error j =>
      rw [hrest] at h
      obtain rfl : j + 1 = i := Except.error.inj h
      obtain ⟨hnew, hascending, hmem⟩ := ih hys hrest
      have hyx : y < x := lt_of_le_of_ne (not_lt.mp hlt) (Ne.symm heq)
      refine ⟨fun h => ?_, ?_, fun a => ?_⟩
      · rcases List.mem_cons.mp h with h | h
        · exact heq h
        · exact hnew h
      · rw [List.insertIdx_succ_cons, List.pairwise_cons]
        refine ⟨fun a ha => ?_, hascending⟩
        rcases (hmem a).mp ha with rfl | ha
        · exact hyx
        · exact hy a ha
      · rw [List.insertIdx_succ_cons, List.mem_cons, hmem, List.mem_cons]
        tauto

/-- Removing repeats that follow each other loses no element. -/
theorem mem_destutter_ne {xs : List α} {a : α} : a ∈ xs.destutter (· ≠ ·) ↔ a ∈ xs := by
  have hgo : ∀ (xs : List α) (b a : α), a ∈ xs.destutter' (· ≠ ·) b ↔ a = b ∨ a ∈ xs := by
    intro xs
    induction xs with
    | nil => simp
    | cons x xs ih =>
      intro b a
      rw [List.destutter'_cons]
      by_cases hbx : b ≠ x
      · rw [if_pos hbx, List.mem_cons, ih, List.mem_cons]
      · rw [if_neg hbx, ih, List.mem_cons, not_ne_iff.mp hbx]
        tauto
  cases xs with
  | nil => rfl
  | cons x xs => rw [List.destutter_cons', hgo, List.mem_cons]

/-- Sorting and removing repeats gives the ascending list of the elements. -/
theorem sortDedup_spec (xs : List α) :
    (sortDedup xs).Pairwise (· < ·) ∧ ∀ a, a ∈ sortDedup xs ↔ a ∈ xs := by
  constructor
  · have hsorted : (sortDedup xs).Pairwise (· ≤ ·) := by
      refine List.Pairwise.sublist (List.destutter_sublist _ _) ?_
      exact (List.pairwise_mergeSort' (· ≤ ·) xs)
    have hdistinct : (sortDedup xs).IsChain (· ≠ ·) := List.isChain_destutter _ _
    rw [← List.isChain_iff_pairwise, List.isChain_iff_getElem] at hsorted ⊢
    rw [List.isChain_iff_getElem] at hdistinct
    exact fun i hi => lt_of_le_of_ne (hsorted i hi) (hdistinct i hi)
  · intro a
    rw [sortDedup, mem_destutter_ne, List.mem_mergeSort]

/-- An ascending list is known by its elements. -/
theorem eq_of_mem_iff {xs ys : List α} (hxs : xs.Pairwise (· < ·)) (hys : ys.Pairwise (· < ·))
    (hmem : ∀ a, a ∈ xs ↔ a ∈ ys) : xs = ys := by
  have hperm : xs.Perm ys :=
    (List.perm_ext_iff_of_nodup (hxs.imp ne_of_lt) (hys.imp ne_of_lt)).mpr hmem
  exact hperm.eq_of_pairwise (fun a b _ _ hab hba => absurd hba (not_lt_of_gt hab)) hxs hys

section FirstSeen

variable {β : Type*} [DecidableEq β]

/-- One more element was first seen last, unless it had been seen. -/
theorem eraseDups_concat (xs : List β) (x : β) :
    (xs ++ [x]).eraseDups = if x ∈ xs then xs.eraseDups else xs.eraseDups ++ [x] := by
  rw [List.eraseDups_append]
  by_cases hx : x ∈ xs
  · simp [hx, List.removeAll]
  · simp [hx, List.removeAll, List.eraseDups_cons]

/-- Elements are first seen once. -/
theorem nodup_eraseDups (xs : List β) : xs.eraseDups.Nodup := by
  induction xs using List.reverseRecOn with
  | nil => exact List.nodup_nil
  | append_singleton xs x ih =>
    rw [eraseDups_concat]
    by_cases hx : x ∈ xs
    · rwa [if_pos hx]
    · rw [if_neg hx]
      refine List.nodup_append.mpr ⟨ih, List.nodup_singleton x, fun a ha b hb hab => hx ?_⟩
      exact List.mem_eraseDups.mp (List.mem_singleton.mp hb ▸ hab ▸ ha)

end FirstSeen

end Ascending
