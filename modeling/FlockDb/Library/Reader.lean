import Mathlib

/-!
# Reading a list through a cursor

A list with a cursor is read in two ways. A sequential read takes what is there and
moves the cursor past it; a positional read takes a stretch or refuses, and leaves the
cursor alone. Reads that go on until nothing comes back yield the rest of the list.
-/

/-- A list with a cursor, which may lie past its end. -/
structure Reader (α : Type*) where
  items : List α
  position : ℕ

namespace Reader

variable {α : Type*}

/-- Take at most so many items at the cursor, and move past them. -/
def read (r : Reader α) (n : ℕ) : List α × Reader α :=
  let got := (r.items.drop r.position).take n
  (got, { r with position := r.position + got.length })

/-- Take exactly so many items from a place. Nothing can be taken from everywhere. -/
def readAt (r : Reader α) (n place : ℕ) : Option (List α) :=
  if n = 0 ∨ place + n ≤ r.items.length then some ((r.items.drop place).take n) else none

/-- A sequential read takes as many items as are asked for and there. -/
theorem length_read (r : Reader α) (n : ℕ) :
    (r.read n).1.length = min n (r.items.length - r.position) := by
  rw [read, List.length_take, List.length_drop]

/-- Join sequential reads until one gets nothing; none if they run out before. -/
def drain : Reader α → List ℕ → Option (List α)
  | _, [] => none
  | r, n :: ns =>
    if (r.read n).1.isEmpty then some [] else ((r.read n).1 ++ ·) <$> drain (r.read n).2 ns

/-- **Draining.** Reads of at least one item each that go on until nothing comes back
yield the rest of the list once, and one read more than the rest is long suffices. -/
theorem drain_spec (r : Reader α) {ns : List ℕ} (hpos : ∀ n ∈ ns, 0 < n) :
    (∀ got, drain r ns = some got → got = r.items.drop r.position) ∧
      (r.items.length - r.position < ns.length →
        drain r ns = some (r.items.drop r.position)) := by
  induction ns generalizing r with
  | nil =>
    constructor
    · intro got h
      cases h
    · intro h
      exact absurd h (Nat.not_lt_zero _)
  | cons n ns ih =>
    have hn := hpos n List.mem_cons_self
    have hlength := length_read r n
    rw [drain]
    by_cases hempty : (r.read n).1.isEmpty
    · -- nothing came back, so nothing is left
      rw [if_pos hempty]
      rw [List.isEmpty_iff_length_eq_zero] at hempty
      have hrest : r.items.drop r.position = [] := by
        apply List.drop_eq_nil_of_le
        omega
      rw [hrest]
      exact ⟨fun got h => (Option.some.inj h).symm, fun _ => rfl⟩
    · rw [if_neg hempty]
      have hsome : 0 < (r.read n).1.length := by
        rw [List.isEmpty_iff_length_eq_zero] at hempty
        omega
      obtain ⟨hgot, hends⟩ := ih (r.read n).2 fun m hm => hpos m (List.mem_cons_of_mem n hm)
      have hitems : (r.read n).2.items = r.items := rfl
      have hmoved : (r.read n).2.position = r.position + (r.read n).1.length := rfl
      have hjoin : (r.read n).1 ++ r.items.drop (r.position + (r.read n).1.length) =
          r.items.drop r.position := by
        rw [← List.drop_drop]
        have htake : (r.read n).1 = (r.items.drop r.position).take (r.read n).1.length := by
          rw [hlength, ← List.length_drop, ← List.take_eq_take_min]
          rfl
        exact (congrArg (· ++ _) htake).trans (List.take_append_drop _ _)
      rw [hitems, hmoved] at hgot hends
      constructor
      · intro got h
        rw [Option.map_eq_map, Option.map_eq_some_iff] at h
        obtain ⟨rest, hrest, rfl⟩ := h
        rw [hgot rest hrest, hjoin]
      · intro h
        rw [List.length_cons] at h
        rw [hends (by omega), Option.map_eq_map, Option.map_some, hjoin]

end Reader
