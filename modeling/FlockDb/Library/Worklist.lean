import Mathlib

/-!
# Walking a graph from a root

A walk keeps what it has seen and a stack of what is left to visit. When the stack is empty
it has seen exactly what can be reached from the root. Vertices and edges are arbitrary.
-/

namespace Worklist

open Relation

variable {α : Type*} {edge : α → α → Prop} {root a : α} {seen stack : List α}

/-- A walk on its way: everything it knows can be reached, and every edge out of what it has
seen leads to what it knows. -/
structure Walking (edge : α → α → Prop) (root : α) (seen stack : List α) : Prop where
  seen_reached : ∀ a ∈ seen, ReflTransGen edge root a
  stack_reached : ∀ a ∈ stack, ReflTransGen edge root a
  closed : ∀ a ∈ seen, ∀ b, edge a b → b ∈ seen ∨ b ∈ stack
  root_known : root ∈ seen ∨ root ∈ stack

/-- A walk starts with its root to visit. -/
theorem walking_start (edge : α → α → Prop) (root : α) : Walking edge root [] [root] where
  seen_reached := by simp
  stack_reached := by simp [ReflTransGen.refl]
  closed := by simp
  root_known := by simp

/-- A vertex that was seen is dropped from the stack. -/
theorem Walking.skip (h : Walking edge root seen (a :: stack)) (ha : a ∈ seen) :
    Walking edge root seen stack where
  seen_reached := h.seen_reached
  stack_reached := fun b hb => h.stack_reached b (List.mem_cons_of_mem a hb)
  closed := by
    intro b hb c hc
    rcases h.closed b hb c hc with hseen | hstack
    · exact .inl hseen
    · rcases List.mem_cons.mp hstack with rfl | hstack
      · exact .inl ha
      · exact .inr hstack
  root_known := by
    rcases h.root_known with hseen | hstack
    · exact .inl hseen
    · rcases List.mem_cons.mp hstack with rfl | hstack
      · exact .inl ha
      · exact .inr hstack

/-- A vertex that is visited is seen, and its edges are left to follow. -/
theorem Walking.visit {next : List α} (h : Walking edge root seen (a :: stack))
    (hnext : ∀ b, b ∈ next ↔ edge a b) : Walking edge root (a :: seen) (next ++ stack) where
  seen_reached := by
    intro b hb
    rcases List.mem_cons.mp hb with rfl | hb
    · exact h.stack_reached b List.mem_cons_self
    · exact h.seen_reached b hb
  stack_reached := by
    intro b hb
    rcases List.mem_append.mp hb with hb | hb
    · exact (h.stack_reached a List.mem_cons_self).tail ((hnext b).mp hb)
    · exact h.stack_reached b (List.mem_cons_of_mem a hb)
  closed := by
    intro b hb c hc
    rcases List.mem_cons.mp hb with rfl | hb
    · exact .inr (List.mem_append_left stack ((hnext c).mpr hc))
    · rcases h.closed b hb c hc with hseen | hstack
      · exact .inl (List.mem_cons_of_mem a hseen)
      · rcases List.mem_cons.mp hstack with rfl | hstack
        · exact .inl List.mem_cons_self
        · exact .inr (List.mem_append_right next hstack)
  root_known := by
    rcases h.root_known with hseen | hstack
    · exact .inl (List.mem_cons_of_mem a hseen)
    · rcases List.mem_cons.mp hstack with rfl | hstack
      · exact .inl List.mem_cons_self
      · exact .inr (List.mem_append_right next hstack)

/-- A walk with nothing left to visit has seen what can be reached. -/
theorem Walking.mem_seen_iff (h : Walking edge root seen []) :
    a ∈ seen ↔ ReflTransGen edge root a := by
  refine ⟨h.seen_reached a, fun hreach => ?_⟩
  induction hreach with
  | refl => exact h.root_known.resolve_right (by simp)
  | tail _ hedge ih => exact (h.closed _ ih _ hedge).resolve_right (by simp)

/-- Two relations that agree on all that one of them reaches reach the same. -/
theorem reach_congr {edge' : α → α → Prop}
    (h : ∀ b, ReflTransGen edge root b → ∀ c, edge b c ↔ edge' b c) (b : α) :
    ReflTransGen edge root b ↔ ReflTransGen edge' root b := by
  constructor
  · intro hreach
    induction hreach with
    | refl => exact .refl
    | tail hreach hedge ih => exact ih.tail ((h _ hreach _).mp hedge)
  · intro hreach
    induction hreach with
    | refl => exact .refl
    | tail _ hedge ih => exact ih.tail ((h _ ih _).mpr hedge)

/-- How many of the vertices that are known of a walk has not seen. -/
def unseen [DecidableEq α] (known : Finset α) (seen : List α) : ℕ :=
  (known.filter (· ∉ seen)).card

/-- Seeing one more vertex leaves fewer. -/
theorem unseen_cons_lt [DecidableEq α] {known : Finset α} (ha : a ∈ known) (hseen : a ∉ seen) :
    unseen known (a :: seen) < unseen known seen := by
  refine Finset.card_lt_card (Finset.ssubset_iff_subset_ne.mpr ⟨fun b hb => ?_, fun heq => ?_⟩)
  · rw [Finset.mem_filter, List.mem_cons, not_or] at hb
    exact Finset.mem_filter.mpr ⟨hb.1, hb.2.2⟩
  · have hmem : a ∈ known.filter (· ∉ seen) := Finset.mem_filter.mpr ⟨ha, hseen⟩
    rw [← heq, Finset.mem_filter] at hmem
    exact hmem.2 List.mem_cons_self

end Worklist
