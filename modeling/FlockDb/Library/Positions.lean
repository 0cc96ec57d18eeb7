import Mathlib

/-!
# Positions in a growing list

Facts about where the elements of a list stand: matching two lists position by
position, and cutting a list whose keys grow at a key.
-/

namespace Positions

variable {α β : Type*}

/-- Lists that match have, at each position of the first, a partner in the second. -/
theorem exists_of_forall₂ {R : α → β → Prop} {xs : List α} {ys : List β}
    (h : List.Forall₂ R xs ys) {i : ℕ} {x : α} (hx : xs[i]? = some x) :
    ∃ y, ys[i]? = some y ∧ R x y := by
  induction h generalizing i with
  | nil => simp at hx
  | cons hxy _ ih =>
    cases i with
    | zero =>
      obtain rfl : _ = x := by simpa using hx
      exact ⟨_, rfl, hxy⟩
    | succ i => exact ih (by simpa using hx)

/-- Matching can be read from either side. -/
theorem exists_of_forall₂_right {R : α → β → Prop} {xs : List α} {ys : List β}
    (h : List.Forall₂ R xs ys) {i : ℕ} {y : β} (hy : ys[i]? = some y) :
    ∃ x, xs[i]? = some x ∧ R x y :=
  exists_of_forall₂ (R := fun y x => R x y) h.flip hy

/-- Matchings compose. -/
theorem forall₂_comp {γ : Type*} {R : α → β → Prop} {T : β → γ → Prop} {xs : List α} {ys : List β}
    {zs : List γ} (h : List.Forall₂ R xs ys) (h' : List.Forall₂ T ys zs) :
    List.Forall₂ (fun x z => ∃ y, R x y ∧ T y z) xs zs := by
  induction h generalizing zs with
  | nil =>
    cases h'
    exact .nil
  | cons hxy _ ih =>
    cases h' with
    | cons hyz hrest => exact .cons ⟨_, hxy, hyz⟩ (ih hrest)

/-- A match from a position on pairs the element there with the first partner. -/
theorem forall₂_drop_cons {R : α → β → Prop} {xs : List α} {k : ℕ} {y : β} {ys : List β}
    (h : List.Forall₂ R (xs.drop k) (y :: ys)) :
    ∃ x, xs[k]? = some x ∧ R x y ∧ List.Forall₂ R (xs.drop (k + 1)) ys := by
  obtain ⟨x, rest, hxy, hrest, hdrop⟩ := List.forall₂_cons_right_iff.mp h
  refine ⟨x, ?_, hxy, ?_⟩
  · rw [← Nat.add_zero k, ← List.getElem?_drop, hdrop]
    rfl
  · rw [← List.tail_drop, hdrop]
    exact hrest

variable {key : α → ℕ}

/-- In a list with growing keys, the elements past the one at a position are the
rest of the list. -/
theorem filter_lt_eq_drop {xs : List α} (h : xs.Pairwise fun x y => key x < key y) {k : ℕ}
    {x : α} (hx : xs[k]? = some x) : (xs.filter fun y => key x < key y) = xs.drop (k + 1) := by
  induction xs generalizing k with
  | nil => rfl
  | cons y ys ih =>
    rw [List.pairwise_cons] at h
    cases k with
    | zero =>
      obtain rfl : y = x := by simpa using hx
      have hall : ∀ z ∈ ys, decide (key y < key z) = true := fun z hz => by simpa using h.1 z hz
      rw [List.filter_cons_of_neg (by simp), List.filter_eq_self.mpr hall]
      rfl
    | succ k =>
      have hx : ys[k]? = some x := by simpa using hx
      have hlt : key y < key x := h.1 x (List.mem_of_getElem? hx)
      rw [List.filter_cons_of_neg (by simpa using hlt.le), ih h.2 hx]
      rfl

/-- How many elements of a list with growing keys lie at or below a bound. -/
def countUpTo (key : α → ℕ) (bound : ℕ) (xs : List α) : ℕ :=
  (xs.takeWhile fun x => key x ≤ bound).length

/-- The elements before the count lie at or below the bound, and no other. -/
theorem lt_countUpTo_iff {xs : List α} (h : xs.Pairwise fun x y => key x < key y) {bound k : ℕ}
    {x : α} (hx : xs[k]? = some x) : k < countUpTo key bound xs ↔ key x ≤ bound := by
  induction xs generalizing k with
  | nil => simp at hx
  | cons y ys ih =>
    rw [List.pairwise_cons] at h
    by_cases hy : key y ≤ bound
    · have hcount : countUpTo key bound (y :: ys) = countUpTo key bound ys + 1 := by
        simp [countUpTo, hy]
      rw [hcount]
      cases k with
      | zero =>
        obtain rfl : y = x := by simpa using hx
        simpa using hy
      | succ k =>
        have hrest := ih h.2 (show ys[k]? = some x by simpa using hx)
        rw [Nat.add_lt_add_iff_right, hrest]
    · have hcount : countUpTo key bound (y :: ys) = 0 := by simp [countUpTo, hy]
      have hlt : key y ≤ key x := by
        cases k with
        | zero =>
          obtain rfl : y = x := by simpa using hx
          exact le_rfl
        | succ k => exact (h.1 x (List.mem_of_getElem? (show ys[k]? = some x by simpa using hx))).le
      rw [hcount]
      omega

/-- The count is a position of the list or its length. -/
theorem countUpTo_le_length (bound : ℕ) (xs : List α) : countUpTo key bound xs ≤ xs.length :=
  (List.takeWhile_sublist _).length_le

/-- A list with growing keys is its elements at or below a bound and then the others. -/
theorem filter_le_append_filter_gt {xs : List α} (h : xs.Pairwise fun x y => key x < key y)
    (bound : ℕ) :
    (xs.filter fun x => key x ≤ bound) ++ (xs.filter fun x => !decide (key x ≤ bound)) = xs := by
  induction xs with
  | nil => rfl
  | cons x xs ih =>
    rw [List.pairwise_cons] at h
    by_cases hx : key x ≤ bound
    · rw [List.filter_cons_of_pos (by simpa using hx), List.filter_cons_of_neg (by simpa using hx),
        List.cons_append, ih h.2]
    · have hnone : (xs.filter fun y => key y ≤ bound) = [] :=
        List.filter_eq_nil_iff.mpr fun y hy => by
          have := h.1 y hy
          simp only [decide_eq_true_eq]
          omega
      have hall := ih h.2
      rw [hnone, List.nil_append] at hall
      rw [List.filter_cons_of_neg (by simpa using hx), List.filter_cons_of_pos (by simpa using hx),
        hnone, List.nil_append, hall]

/-- In a list with growing keys, the elements below the key of an element come before it. -/
theorem filter_lt_eq {before after : List α} {x : α}
    (h : (before ++ x :: after).Pairwise fun y z => key y < key z) :
    ((before ++ x :: after).filter fun y => key y < key x) = before := by
  obtain ⟨-, hafter, hbefore⟩ := List.pairwise_append.mp h
  rw [List.pairwise_cons] at hafter
  have hbelow : (before.filter fun y => key y < key x) = before :=
    List.filter_eq_self.mpr fun y hy => by simpa using hbefore y hy x (by simp)
  have hnone : ((x :: after).filter fun y => key y < key x) = [] := by
    refine List.filter_eq_nil_iff.mpr fun y hy => ?_
    rcases List.mem_cons.mp hy with rfl | hy
    · simp
    · simpa using (hafter.1 y hy).le
  rw [List.filter_append, hbelow, hnone, List.append_nil]

/-- An element of a list after which none of a kind comes. -/
def LastOf (stop : α → Prop) (x : α) (xs : List α) : Prop :=
  ∃ before after, xs = before ++ x :: after ∧ ∀ y ∈ after, ¬stop y

variable {stop : α → Prop} {x : α}

@[simp] theorem lastOf_nil : ¬LastOf stop x [] := by
  rintro ⟨before, after, h, -⟩
  simp at h

/-- One more element is such an element, or keeps them if it is not of the kind. -/
theorem lastOf_concat {xs : List α} {y : α} :
    LastOf stop x (xs ++ [y]) ↔ x = y ∨ ¬stop y ∧ LastOf stop x xs := by
  constructor
  · rintro ⟨before, after, heq, hafter⟩
    rcases List.eq_nil_or_concat after with rfl | ⟨rest, z, rfl⟩
    · obtain ⟨-, hlast⟩ := List.append_inj' heq rfl
      exact .inl (List.cons.inj hlast).1.symm
    · rw [List.concat_eq_append, ← List.cons_append, ← List.append_assoc] at heq
      obtain ⟨rfl, hlast⟩ := List.append_inj' heq rfl
      obtain rfl := (List.cons.inj hlast).1
      exact .inr ⟨hafter y (by simp), before, rest, rfl, fun w hw => hafter w (by simp [hw])⟩
  · rintro (rfl | ⟨hy, before, after, rfl, hafter⟩)
    · exact ⟨xs, [], rfl, by simp⟩
    · refine ⟨before, after ++ [y], by simp, fun w hw => ?_⟩
      rcases List.mem_append.mp hw with hw | hw
      · exact hafter w hw
      · obtain rfl := List.mem_singleton.mp hw
        exact hy

/-- Elements that end in another one of the kind leave no such element. -/
theorem lastOf_append {front : List α} (hfront : ∀ z, front.getLast? = some z → stop z ∧ x ≠ z)
    (xs : List α) : LastOf stop x (front ++ xs) ↔ LastOf stop x xs := by
  induction xs using List.reverseRecOn with
  | nil =>
    rw [List.append_nil]
    rcases List.eq_nil_or_concat front with rfl | ⟨init, z, rfl⟩
    · exact Iff.rfl
    · rw [List.concat_eq_append] at hfront ⊢
      obtain ⟨hz, hne⟩ := hfront z (by simp)
      rw [lastOf_concat]
      exact iff_of_false (fun h => h.elim hne fun h => h.1 hz) lastOf_nil
  | append_singleton xs y ih => rw [← List.append_assoc, lastOf_concat, lastOf_concat, ih]

/-- The last element that a filter keeps is followed by none of a kind, if the filter keeps
whatever of that kind comes after what it keeps. -/
theorem lastOf_of_getLast?_filter {keep : α → Bool} {xs : List α}
    (h : xs.Pairwise fun y z => keep y → stop z → keep z)
    (hx : (xs.filter keep).getLast? = some x) : LastOf stop x xs := by
  induction xs using List.reverseRecOn with
  | nil => cases hx
  | append_singleton xs y ih =>
    obtain ⟨hxs, -, hcross⟩ := List.pairwise_append.mp h
    rw [List.filter_append] at hx
    by_cases hy : keep y
    · rw [List.filter_cons_of_pos hy, List.filter_nil, List.getLast?_concat] at hx
      exact lastOf_concat.mpr (.inl (Option.some.inj hx).symm)
    · rw [List.filter_cons_of_neg hy, List.filter_nil, List.append_nil] at hx
      obtain ⟨hmem, hkeep⟩ := List.mem_filter.mp (List.mem_of_getLast? hx)
      have hstop : ¬stop y := fun hstop =>
        hy (hcross x hmem y (List.mem_singleton_self y) hkeep hstop)
      exact lastOf_concat.mpr (.inr ⟨hstop, ih hxs hx⟩)

/-- In a list with growing keys, what is of the kind is the last of it or has a smaller key. -/
theorem LastOf.eq_or_lt {key : α → ℕ} {xs : List α} (h : LastOf stop x xs)
    (hkeys : xs.Pairwise fun y z => key y < key z) {y : α} (hy : y ∈ xs) (hstop : stop y) :
    y = x ∨ key y < key x := by
  obtain ⟨before, after, rfl, hafter⟩ := h
  rcases List.mem_append.mp hy with hbefore | hrest
  · exact .inr ((List.pairwise_append.mp hkeys).2.2 y hbefore x List.mem_cons_self)
  · rcases List.mem_cons.mp hrest with rfl | hmem
    · exact .inl rfl
    · exact absurd hstop (hafter y hmem)

/-- The last of a kind is in the list. -/
theorem LastOf.mem {xs : List α} (h : LastOf stop x xs) : x ∈ xs := by
  obtain ⟨before, after, rfl, -⟩ := h
  simp

end Positions
