import Mathlib

/-!
# Overlays of ordered maps

An overlay records, key by key, the value that a base map now holds there or
the fact that the key is gone. Applying an overlay is a fold over its entries,
and its effect at one key depends only on what the overlay says about that key.
Keys and values are arbitrary; only a lawful total comparison is assumed.
-/

namespace Overlay

open Std

variable {κ α : Type} {cmp : κ → κ → Ordering} [TransCmp cmp]

/-- Carry out one entry of an overlay: a new value, or a removal. -/
def applyChange (base : ExtTreeMap κ α cmp) (entry : κ × Option α) : ExtTreeMap κ α cmp :=
  match entry.2 with
  | some value => base.insert entry.1 value
  | none => base.erase entry.1

/-- Lay an overlay over a base map. -/
def overlay (base : ExtTreeMap κ α cmp) (changes : ExtTreeMap κ (Option α) cmp) :
    ExtTreeMap κ α cmp :=
  changes.toList.foldl applyChange base

/-- Rebuild a map from its entries in order; a later entry for a key wins. -/
def ofEntries (entries : List (κ × α)) : ExtTreeMap κ α cmp :=
  entries.foldl (fun m entry => m.insert entry.1 entry.2) ∅

/-- One entry decides its own key and leaves every other key alone. -/
theorem getElem?_applyChange (base : ExtTreeMap κ α cmp) (entry : κ × Option α) (k : κ) :
    (applyChange base entry)[k]? = if cmp entry.1 k = .eq then entry.2 else base[k]? := by
  obtain ⟨key, value⟩ := entry
  cases value with
  | none => simp only [applyChange, ExtTreeMap.getElem?_erase]
  | some value => simp only [applyChange, ExtTreeMap.getElem?_insert]

variable [LawfulEqCmp cmp]

/-- Entries for other keys do not disturb a key. -/
theorem getElem?_foldl_applyChange_of_notMem {entries : List (κ × Option α)} {k : κ}
    (hk : ∀ entry ∈ entries, entry.1 ≠ k) (base : ExtTreeMap κ α cmp) :
    (entries.foldl applyChange base)[k]? = base[k]? := by
  induction entries generalizing base with
  | nil => rfl
  | cons entry entries ih =>
    have hne : cmp entry.1 k ≠ .eq := by
      intro h
      exact hk entry (by simp) (LawfulEqCmp.compare_eq_iff_eq.mp h)
    rw [List.foldl_cons, ih (fun e he => hk e (by simp [he])), getElem?_applyChange, if_neg hne]

/-- With one entry per key, the entry for a key is what the fold leaves there. -/
theorem getElem?_foldl_applyChange_of_mem {entries : List (κ × Option α)} {k : κ}
    {change : Option α}
    (hdistinct : entries.Pairwise (fun a b => ¬cmp a.1 b.1 = .eq)) (hmem : (k, change) ∈ entries)
    (base : ExtTreeMap κ α cmp) :
    (entries.foldl applyChange base)[k]? = change := by
  induction entries generalizing base with
  | nil => cases hmem
  | cons entry entries ih =>
    rw [List.pairwise_cons] at hdistinct
    rcases List.mem_cons.mp hmem with rfl | hmem
    · have hother : ∀ e ∈ entries, e.1 ≠ k := by
        intro e he hek
        exact hdistinct.1 e he (LawfulEqCmp.compare_eq_iff_eq.mpr hek.symm)
      rw [List.foldl_cons, getElem?_foldl_applyChange_of_notMem hother, getElem?_applyChange,
        if_pos (LawfulEqCmp.compare_eq_iff_eq.mpr rfl)]
    · exact ih hdistinct.2 hmem _

/-- What an overlay leaves at a key: its own entry if it has one, and the base
otherwise. -/
theorem getElem?_overlay (base : ExtTreeMap κ α cmp) (changes : ExtTreeMap κ (Option α) cmp)
    (k : κ) :
    (overlay base changes)[k]? = (changes[k]?).getD base[k]? := by
  cases h : changes[k]? with
  | none =>
    rw [Option.getD_none]
    refine getElem?_foldl_applyChange_of_notMem (fun entry he hk => ?_) base
    obtain ⟨key, change⟩ := entry
    rw [ExtTreeMap.mem_toList_iff_getElem?_eq_some] at he
    subst hk
    simp [h] at he
  | some change =>
    exact getElem?_foldl_applyChange_of_mem ExtTreeMap.distinct_keys_toList
      (ExtTreeMap.mem_toList_iff_getElem?_eq_some.mpr h) base

/-- An overlay without entries is its base. -/
@[simp] theorem overlay_empty (base : ExtTreeMap κ α cmp) : overlay base ∅ = base := by
  refine ExtTreeMap.ext_getElem? fun k => ?_
  rw [getElem?_overlay, ExtTreeMap.getElem?_empty, Option.getD_none]

/-- Rebuilding a map from its own entries gives the map back. -/
@[simp] theorem ofEntries_toList (m : ExtTreeMap κ α cmp) :
    (ofEntries m.toList : ExtTreeMap κ α cmp) = m := by
  let entries := m.toList.map fun entry => (entry.1, some entry.2)
  have hfold : (ofEntries m.toList : ExtTreeMap κ α cmp) = entries.foldl applyChange ∅ := by
    simp only [entries, List.foldl_map]
    rfl
  rw [hfold]
  refine ExtTreeMap.ext_getElem? fun k => ?_
  cases h : m[k]? with
  | some value =>
    refine getElem?_foldl_applyChange_of_mem ?_ ?_ ∅
    · exact List.pairwise_map.mpr ExtTreeMap.distinct_keys_toList
    · exact List.mem_map.mpr ⟨(k, value), ExtTreeMap.mem_toList_iff_getElem?_eq_some.mpr h, rfl⟩
  | none =>
    rw [getElem?_foldl_applyChange_of_notMem _ ∅, ExtTreeMap.getElem?_empty]
    intro entry he hk
    obtain ⟨⟨key, value⟩, hmem, rfl⟩ := List.mem_map.mp he
    rw [ExtTreeMap.mem_toList_iff_getElem?_eq_some] at hmem
    simp only at hk
    subst hk
    simp [h] at hmem

omit [LawfulEqCmp cmp] in
/-- The values of a map are those of its entries. -/
theorem values_eq (m : ExtTreeMap κ α cmp) : m.values = m.toList.map Prod.snd := by
  obtain ⟨inner⟩ := m
  induction inner using ExtDTreeMap.inductionOn with
  | _ tree =>
    change tree.inner.values = (DTreeMap.Internal.Impl.Const.toList tree.inner).map Prod.snd
    rw [DTreeMap.Internal.Impl.values_eq_map_snd,
      DTreeMap.Internal.Impl.Const.toList_eq_toListModel_map]
    simp

/-- A map has the values that it finds. -/
theorem mem_values_iff {m : ExtTreeMap κ α cmp} {value : α} :
    value ∈ m.values ↔ ∃ k : κ, m[k]? = some value := by
  rw [values_eq, List.mem_map]
  constructor
  · rintro ⟨⟨k, value⟩, hmem, rfl⟩
    exact ⟨k, ExtTreeMap.mem_toList_iff_getElem?_eq_some.mp hmem⟩
  · rintro ⟨k, hk⟩
    exact ⟨(k, value), ExtTreeMap.mem_toList_iff_getElem?_eq_some.mpr hk, rfl⟩

end Overlay
