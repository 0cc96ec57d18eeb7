import Mathlib.Data.List.Basic

/-!
# Cutting a list at a separator

`cut` is the search for the first separator followed by the two sublists around it, the step
of every splitter written by hand.
-/

namespace FlockDb.Cut

variable {α : Type} [DecidableEq α]

/-- The parts before and after the first separator, if there is one. -/
def cut (sep : α) : List α → Option (List α × List α)
  | [] => none
  | a :: l => if a = sep then some ([], l) else (cut sep l).map fun parts => (a :: parts.1, parts.2)

/-- A part without a separator, a separator and the rest are cut at that separator. -/
theorem cut_append {sep : α} {before : List α} (h : sep ∉ before) (after : List α) :
    cut sep (before ++ sep :: after) = some (before, after) := by
  induction before with
  | nil => rw [List.nil_append, cut, if_pos rfl]
  | cons a before ih =>
    rw [List.mem_cons, not_or] at h
    rw [List.cons_append, cut, if_neg (Ne.symm h.1), ih h.2]
    rfl

/-- A list without a separator is not cut, and only such a list. -/
theorem cut_eq_none_iff {sep : α} {l : List α} : cut sep l = none ↔ sep ∉ l := by
  induction l with
  | nil => simp [cut]
  | cons a l ih =>
    rw [cut, List.mem_cons, not_or]
    by_cases ha : a = sep
    · simp [ha]
    · rw [if_neg ha, Option.map_eq_none_iff, ih]
      exact ⟨fun h => ⟨Ne.symm ha, h⟩, fun h => h.2⟩

/-- What a list is cut into: its own parts, the first of which has no separator. -/
theorem cut_eq_some_iff {sep : α} {l before after : List α} :
    cut sep l = some (before, after) ↔ l = before ++ sep :: after ∧ sep ∉ before := by
  refine ⟨fun h => ?_, fun ⟨hl, hbefore⟩ => hl ▸ cut_append hbefore after⟩
  induction l generalizing before with
  | nil => cases h
  | cons a l ih =>
    rw [cut] at h
    by_cases ha : a = sep
    · rw [if_pos ha] at h
      obtain ⟨rfl, rfl⟩ : [] = before ∧ l = after := by simpa using h
      exact ⟨by rw [ha, List.nil_append], List.not_mem_nil⟩
    · rw [if_neg ha, Option.map_eq_some_iff] at h
      obtain ⟨⟨before', after'⟩, hcut, hparts⟩ := h
      obtain ⟨rfl, rfl⟩ : a :: before' = before ∧ after' = after := by simpa using hparts
      obtain ⟨rfl, hbefore⟩ := ih hcut
      refine ⟨rfl, ?_⟩
      rw [List.mem_cons, not_or]
      exact ⟨Ne.symm ha, hbefore⟩

/-- What follows the first separator is shorter than the list. -/
theorem length_lt_of_cut {sep : α} {l before after : List α}
    (h : cut sep l = some (before, after)) : after.length < l.length := by
  obtain ⟨rfl, -⟩ := cut_eq_some_iff.mp h
  simp only [List.length_append, List.length_cons]
  omega

/-- The pieces between the separators of a list have none. -/
theorem notMem_of_mem_splitOn {sep : α} {l piece : List α} (h : piece ∈ l.splitOn sep) :
    sep ∉ piece := by
  induction l generalizing piece with
  | nil =>
    rw [List.splitOn_nil, List.mem_singleton] at h
    rw [h]
    exact List.not_mem_nil
  | cons a l ih =>
    rw [List.splitOn_cons_eq_if_modifyHead] at h
    by_cases ha : a = sep
    · rw [if_pos (beq_iff_eq.mpr ha), List.mem_cons] at h
      rcases h with rfl | h
      · exact List.not_mem_nil
      · exact ih h
    · rw [if_neg (by simpa using ha)] at h
      cases hpieces : l.splitOn sep with
      | nil => exact absurd hpieces (List.splitOn_ne_nil sep l)
      | cons first pieces =>
        rw [hpieces, List.modifyHead_cons, List.mem_cons] at h
        rw [hpieces] at ih
        rcases h with rfl | h
        · rw [List.mem_cons, not_or]
          exact ⟨Ne.symm ha, ih List.mem_cons_self⟩
        · exact ih (List.mem_cons_of_mem first h)

/-- With one entry under each key, a lookup finds an entry exactly if it is there. -/
theorem lookup_eq_some_iff_mem {α β : Type} [BEq α] [LawfulBEq α] {l : List (α × β)}
    (hkeys : (l.map Prod.fst).Nodup) {key : α} {value : β} :
    l.lookup key = some value ↔ (key, value) ∈ l := by
  induction l with
  | nil => simp
  | cons entry l ih =>
    obtain ⟨key', value'⟩ := entry
    rw [List.map_cons, List.nodup_cons] at hkeys
    rw [List.lookup_cons]
    by_cases hkey : key = key'
    · subst hkey
      have hnotMem : (key, value) ∉ l := fun h => hkeys.1 (List.mem_map.mpr ⟨_, h, rfl⟩)
      simp [hnotMem, eq_comm]
    · rw [beq_eq_false_iff_ne.mpr hkey]
      simp only [List.mem_cons, Prod.mk.injEq, hkey, false_and, false_or]
      exact ih hkeys.2

end FlockDb.Cut
