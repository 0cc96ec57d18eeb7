import Mathlib

/-!
# Following a chain of states

A chain starts at a state and moves along links, each of which names the state it
leaves and the state it reaches. A follower sees links one at a time, in any
order and any number of times, and moves along a link exactly when it stands at
its source. When no state of the chain repeats, the follower's state is its
position, and every link's verdict can be read off the two positions.
-/

namespace Chain

variable {M : Type*}

/-- One move of a chain. -/
structure Link (M : Type*) where
  source : M
  target : M

/-- What a follower does with a link. -/
inductive Verdict where
  | advanced
  | present
  | refused
  deriving DecidableEq

/-- Handle one link at a state: it is already behind us, or the next one, or
neither. -/
def follow [DecidableEq M] (here : M) (link : Link M) : Verdict × M :=
  if here = link.target then (.present, here)
  else if here = link.source then (.advanced, link.target)
  else (.refused, here)

/-- At a link's target, the link is already behind us. -/
theorem follow_target [DecidableEq M] {here : M} {link : Link M} (h : here = link.target) :
    follow here link = (.present, here) := if_pos h

/-- At a link's source, the link is the next one. -/
theorem follow_source [DecidableEq M] {here : M} {link : Link M} (htarget : here ≠ link.target)
    (hsource : here = link.source) : follow here link = (.advanced, link.target) := by
  rw [follow, if_neg htarget, if_pos hsource]

/-- Anywhere else, the link is refused. -/
theorem follow_other [DecidableEq M] {here : M} {link : Link M} (htarget : here ≠ link.target)
    (hsource : here ≠ link.source) : follow here link = (.refused, here) := by
  rw [follow, if_neg htarget, if_neg hsource]

/-- Each link leaves the state that the one before it reached. -/
def Linked : M → List (Link M) → Prop
  | _, [] => True
  | here, link :: links => link.source = here ∧ Linked link.target links

/-- The states of a chain, its start first. -/
def states (start : M) (links : List (Link M)) : List M := start :: links.map Link.target

@[simp] theorem length_states (start : M) (links : List (Link M)) :
    (states start links).length = links.length + 1 := by simp [states]

@[simp] theorem getElem?_states_succ (start : M) (links : List (Link M)) (k : ℕ) :
    (states start links)[k + 1]? = links[k]?.map Link.target := by
  simp [states]

/-- The `k`-th link of a chain leaves its `k`-th state. -/
theorem Linked.source_eq {start : M} {links : List (Link M)} (h : Linked start links) {k : ℕ}
    {link : Link M} (hlink : links[k]? = some link) :
    (states start links)[k]? = some link.source := by
  induction links generalizing start k with
  | nil => simp at hlink
  | cons first links ih =>
    obtain ⟨hsource, hrest⟩ := h
    cases k with
    | zero =>
      obtain rfl : first = link := by simpa using hlink
      simp [states, hsource]
    | succ k => simpa [states] using ih hrest (by simpa using hlink)

/-- A chain goes on along a link that leaves the state where it ends. -/
theorem Linked.concat {start : M} {links : List (Link M)} (h : Linked start links) {link : Link M}
    (hsource : link.source = (links.getLast?.map Link.target).getD start) :
    Linked start (links ++ [link]) := by
  induction links generalizing start with
  | nil => exact ⟨hsource, trivial⟩
  | cons first links ih =>
    refine ⟨h.1, ih h.2 ?_⟩
    rw [hsource, List.getLast?_cons]
    cases links.getLast? <;> rfl

/-- Standing at the `k`-th state of a chain without repetitions, the follower
takes link `k`, recognizes link `k - 1`, and refuses every other one. -/
theorem follow_of_linked [DecidableEq M] {start : M} {links : List (Link M)}
    (hlinked : Linked start links) (hnodup : (states start links).Nodup) {here : M} {k j : ℕ}
    {link : Link M} (hhere : (states start links)[k]? = some here)
    (hlink : links[j]? = some link) :
    follow here link =
      if j + 1 = k then (.present, here)
      else if j = k then (.advanced, link.target)
      else (.refused, here) := by
  have hsource := hlinked.source_eq hlink
  have htarget : (states start links)[j + 1]? = some link.target := by simp [hlink]
  -- Without repetitions a state is at the position where it was found and nowhere else.
  have hposition {i : ℕ} {m : M} (hm : (states start links)[i]? = some m) : here = m ↔ i = k := by
    constructor
    · rintro rfl
      exact (List.getElem?_inj (List.getElem?_eq_some_iff.mp hm).1 hnodup).mp (hm.trans hhere.symm)
    · rintro rfl
      exact Option.some.inj (hhere.symm.trans hm)
  simp only [follow, hposition htarget, hposition hsource]

end Chain
