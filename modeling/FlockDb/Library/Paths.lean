import Mathlib.Data.List.Basic

/-!
# Paths by their components

A path is cut at its slashes. An empty component and a single dot say nothing, two dots take
back the component before them. Where no link is followed, two paths lead to one place exactly
if they come to the same components.
-/

namespace Paths

/-- The components of a path as they are written. -/
def components (path : List Char) : List (List Char) := path.splitOn '/'

/-- What one component does to the path before it. -/
def push (path : List (List Char)) (component : List Char) : List (List Char) :=
  if component = [] ∨ component = ['.'] then path
  else if component = ['.', '.'] then path.dropLast
  else path ++ [component]

/-- The components that a path comes to. -/
def normalise (path : List Char) : List (List Char) := (components path).foldl push []

/-- A name that is a component of its own, and not a way to another directory. -/
structure Single (name : List Char) : Prop where
  ne_nil : name ≠ []
  ne_dot : name ≠ ['.']
  ne_dots : name ≠ ['.', '.']
  no_slash : '/' ∉ name

/-- Two paths with a slash between them have the components of both. -/
theorem components_append (front back : List Char) :
    components (front ++ '/' :: back) = components front ++ components back := by
  induction front with
  | nil => simp [components, List.splitOn_cons_eq_if_modifyHead]
  | cons c front ih =>
    obtain ⟨w, words, hwords⟩ : ∃ w words, components front = w :: words := by
      cases hfront : components front with
      | nil => exact absurd hfront (List.splitOn_ne_nil _ _)
      | cons w words => exact ⟨w, words, rfl⟩
    have ih : (front ++ '/' :: back).splitOn '/' = w :: words ++ components back := by
      rw [← hwords]
      exact ih
    have hwords : front.splitOn '/' = w :: words := hwords
    rw [components, components, List.cons_append, List.splitOn_cons_eq_if_modifyHead,
      List.splitOn_cons_eq_if_modifyHead, ih, hwords]
    by_cases hc : c = '/'
    · simp [hc]
    · simp [hc]

/-- A name without a slash is its own component. -/
theorem components_of_no_slash {name : List Char} (h : '/' ∉ name) : components name = [name] := by
  induction name with
  | nil => rfl
  | cons c name ih =>
    rw [List.mem_cons, not_or] at h
    have ih : name.splitOn '/' = [name] := ih h.2
    rw [components, List.splitOn_cons_eq_if_modifyHead, ih]
    simp [Ne.symm h.1]

/-- A single name below a directory is one component more. -/
theorem normalise_append {dir name : List Char} (h : Single name) :
    normalise (dir ++ '/' :: name) = normalise dir ++ [name] := by
  rw [normalise, components_append, components_of_no_slash h.no_slash, List.foldl_append,
    List.foldl_cons, List.foldl_nil, push, if_neg, if_neg h.ne_dots]
  · rfl
  · exact fun hname => hname.elim h.ne_nil h.ne_dot

/-- Single names below a directory lead to one place only if they are one name. -/
theorem eq_of_normalise_eq {dir name name' : List Char} (h : Single name) (h' : Single name')
    (heq : normalise (dir ++ '/' :: name) = normalise (dir ++ '/' :: name')) : name = name' := by
  rw [normalise_append h, normalise_append h'] at heq
  exact (List.cons.inj (List.append_cancel_left heq)).1

end Paths
