import FlockDb.Vfs.Read

/-!
# Prefetching with a shared cursor

`prefetch` gives a list of pages to a few workers. Each takes the next position from a cursor
that all of them share and faults the page there, until the cursor is past the list. The
workers' atomic steps interleave in any order, and faults end in any order and in any way.
-/

namespace FlockDb

variable {E : Type} {n : ℕ}

/-- `PREFETCH_FANOUT`: the most workers of one call. -/
def prefetchFanout : ℕ := 16

/-- A slice of page numbers: a slice of eight-byte values has fewer than `2 ^ 60`. -/
structure PageSlice where
  pages : List ℕ
  length_lt : pages.length < 2 ^ 60

/-- How many workers `prefetch` starts. -/
def PageSlice.workers (slice : PageSlice) : ℕ := min slice.pages.length prefetchFanout

/-- Where a worker stands in its loop. -/
inductive PrefetchWorker where
  /-- It is about to take a position from the cursor. -/
  | ready
  /-- It took a position and has not looked the page up. -/
  | claimed (position : ℕ)
  /-- It is in `read_page`. -/
  | faulting (position page : ℕ)
  | stopped
  deriving DecidableEq

/-- A fault that ended: who faulted which page at which position, and the result, which is
dropped. -/
structure PrefetchFault (E : Type) (n : ℕ) where
  worker : Fin n
  position : ℕ
  page : ℕ
  result : Except (VfsError E) Bytes

/-- A call of `prefetch`: the cursor, an `AtomicUsize`, the workers, and the faults that ended. -/
structure Prefetch (E : Type) (n : ℕ) where
  cursor : ℕ
  workers : Fin n → PrefetchWorker
  faults : List (PrefetchFault E n)

/-- A worker, when it is scheduled, and what its fault comes to if it is in one. -/
structure PrefetchStep (E : Type) (n : ℕ) where
  worker : Fin n
  result : Except (VfsError E) Bytes

/-- A worker is in `read_page`. -/
def PrefetchWorker.isFaulting : PrefetchWorker → Bool
  | .faulting _ _ => true
  | _ => false

namespace Prefetch

/-- The workers were spawned. -/
def start : Prefetch E n := ⟨0, fun _ => .ready, []⟩

/-- A worker goes on. -/
def setWorker (st : Prefetch E n) (w : Fin n) (next : PrefetchWorker) : Prefetch E n :=
  { st with workers := Function.update st.workers w next }

/-- The next atomic step of a worker: `fetch_add` on the cursor, the lookup of the page, or the
end of a fault. -/
def step (slice : PageSlice) (st : Prefetch E n) (next : PrefetchStep E n) : Prefetch E n :=
  match st.workers next.worker with
  | .ready =>
    { st.setWorker next.worker (.claimed st.cursor) with cursor := (st.cursor + 1) % 2 ^ 64 }
  | .claimed position =>
    match slice.pages[position]? with
    | none => st.setWorker next.worker .stopped
    | some page => st.setWorker next.worker (.faulting position page)
  | .faulting position page =>
    -- whether the fault succeeded does not matter to the worker
    { st.setWorker next.worker .ready with
      faults := st.faults ++ [⟨next.worker, position, page, next.result⟩] }
  | .stopped => st

/-- A call after some steps of its workers. -/
def after (slice : PageSlice) (schedule : List (PrefetchStep E slice.workers)) :
    Prefetch E slice.workers :=
  schedule.foldl (step slice) start

/-- The positions whose faults ended. -/
def positions (st : Prefetch E n) : List ℕ := st.faults.map PrefetchFault.position

/-- How many faults are in progress. -/
def inProgress (st : Prefetch E n) : ℕ :=
  (Finset.univ.filter fun w => (st.workers w).isFaulting).card

end Prefetch

namespace PrefetchWorker

/-- The position that a worker took and is not done with. -/
def holds : PrefetchWorker → Option ℕ
  | .claimed position => some position
  | .faulting position _ => some position
  | .ready => none
  | .stopped => none

/-- How often a worker is ahead of the faults that it ended: once, unless it is ready. -/
def ahead : PrefetchWorker → ℕ
  | .ready => 0
  | .claimed _ => 1
  | .faulting _ _ => 1
  | .stopped => 1

end PrefetchWorker

namespace Prefetch

/-- What holds whenever workers share a cursor: each position below it is held by one worker or
done with, the others are untouched, and the cursor is ahead of the faults by one for each
worker that is not ready. -/
structure Shared (slice : PageSlice) (st : Prefetch E n) : Prop where
  nodup : st.positions.Nodup
  fault : ∀ fault ∈ st.faults, slice.pages[fault.position]? = some fault.page
  done_lt : ∀ position ∈ st.positions, position < st.cursor
  held_lt : ∀ {w position}, (st.workers w).holds = some position →
    position < st.cursor ∧ position ∉ st.positions
  held_once : ∀ {w w' position}, (st.workers w).holds = some position →
    (st.workers w').holds = some position → w = w'
  faulting : ∀ {w position page}, st.workers w = .faulting position page →
    slice.pages[position]? = some page
  taken : ∀ position < st.cursor, position < slice.pages.length →
    position ∈ st.positions ∨ ∃ w, (st.workers w).holds = some position
  stopped : ∀ w, st.workers w = .stopped → slice.pages.length < st.cursor
  cursor_eq : st.cursor = st.faults.length + ∑ w, (st.workers w).ahead

/-- Nothing is shared at the start. -/
theorem shared_start (slice : PageSlice) : (start : Prefetch E n).Shared slice where
  nodup := .nil
  fault := fun fault h => by cases h
  done_lt := fun position h => by cases h
  held_lt := fun h => by cases h
  held_once := fun h => by cases h
  faulting := fun h => by cases h
  taken := fun position h => absurd h (Nat.not_lt_zero position)
  stopped := fun w h => by cases h
  cursor_eq := by simp [start, PrefetchWorker.ahead]

/-- A fault that ended is of a page of the slice. -/
theorem Shared.position_lt {slice : PageSlice} {st : Prefetch E n} (h : st.Shared slice)
    {position : ℕ} (hposition : position ∈ st.positions) : position < slice.pages.length := by
  obtain ⟨fault, hfault, rfl⟩ := List.mem_map.mp hposition
  exact (List.getElem?_eq_some_iff.mp (h.fault fault hfault)).1

/-- The cursor never goes further past the slice than there are workers. -/
theorem Shared.cursor_le {slice : PageSlice} {st : Prefetch E n} (h : st.Shared slice) :
    st.cursor ≤ slice.pages.length + n := by
  have hfaults : st.faults.length ≤ slice.pages.length := by
    have hsub : st.positions ⊆ List.range slice.pages.length := fun position hposition =>
      List.mem_range.mpr (h.position_lt hposition)
    have hlength := (h.nodup.subperm hsub).length_le
    rwa [positions, List.length_map, List.length_range] at hlength
  have hahead : ∑ w, (st.workers w).ahead ≤ n := by
    have hone : ∀ w ∈ (Finset.univ : Finset (Fin n)), (st.workers w).ahead ≤ 1 := by
      intro w _
      cases st.workers w <;> simp [PrefetchWorker.ahead]
    exact (Finset.sum_le_card_nsmul _ _ 1 hone).trans (by simp)
  rw [h.cursor_eq]
  omega

/-- Setting one worker changes what all of them are ahead by its own difference. -/
theorem sum_ahead_setWorker (st : Prefetch E n) (w : Fin n) (next : PrefetchWorker) :
    (∑ w', ((st.setWorker w next).workers w').ahead) + (st.workers w).ahead =
      (∑ w', (st.workers w').ahead) + next.ahead := by
  have hupdate : ∀ w', ((st.setWorker w next).workers w').ahead =
      Function.update (fun w' => (st.workers w').ahead) w next.ahead w' := by
    intro w'
    by_cases hw : w' = w
    · subst hw
      simp [setWorker]
    · simp [setWorker, hw]
  have hrest := Finset.add_sum_erase Finset.univ (fun w' => (st.workers w').ahead)
    (Finset.mem_univ w)
  rw [Finset.sum_congr rfl fun w' _ => hupdate w', Finset.sum_update_of_mem (Finset.mem_univ w),
    Finset.sdiff_singleton_eq_erase]
  omega

/-- The workers after one of them went on. -/
theorem workers_setWorker (st : Prefetch E n) (w w' : Fin n) (next : PrefetchWorker) :
    (st.setWorker w next).workers w' = if w' = w then next else st.workers w' :=
  Function.update_apply _ _ _ _

/-- A worker takes the position at the cursor. -/
theorem Shared.fetch {slice : PageSlice} {st : Prefetch E n} (h : st.Shared slice) {w : Fin n}
    (hw : st.workers w = .ready) :
    ({ st.setWorker w (.claimed st.cursor) with cursor := st.cursor + 1 } :
      Prefetch E n).Shared slice where
  nodup := h.nodup
  fault := h.fault
  done_lt := fun position hposition => (h.done_lt position hposition).trans (Nat.lt_succ_self _)
  held_lt := by
    intro w' position hheld
    simp only [workers_setWorker] at hheld
    by_cases hw' : w' = w
    · rw [if_pos hw'] at hheld
      obtain rfl : st.cursor = position := Option.some.inj hheld
      exact ⟨Nat.lt_succ_self _, fun hdone => lt_irrefl _ (h.done_lt _ hdone)⟩
    · rw [if_neg hw'] at hheld
      obtain ⟨hlt, hnot⟩ := h.held_lt hheld
      exact ⟨hlt.trans (Nat.lt_succ_self _), hnot⟩
  held_once := by
    intro w₁ w₂ position hheld₁ hheld₂
    simp only [workers_setWorker] at hheld₁ hheld₂
    -- the position at the cursor is new, so no other worker holds it
    have hnew : ∀ w', (st.workers w').holds ≠ some st.cursor := fun w' hheld =>
      lt_irrefl _ (h.held_lt hheld).1
    split at hheld₁ <;> split at hheld₂
    · next hw₁ hw₂ => rw [hw₁, hw₂]
    · next hw₁ hw₂ =>
      obtain rfl : st.cursor = position := Option.some.inj hheld₁
      exact absurd hheld₂ (hnew w₂)
    · next hw₁ hw₂ =>
      obtain rfl : st.cursor = position := Option.some.inj hheld₂
      exact absurd hheld₁ (hnew w₁)
    · exact h.held_once hheld₁ hheld₂
  faulting := by
    intro w' position page hfaulting
    simp only [workers_setWorker] at hfaulting
    split at hfaulting
    · cases hfaulting
    · exact h.faulting hfaulting
  taken := by
    intro position hlt hposition
    simp only [workers_setWorker]
    rcases Nat.lt_succ_iff_lt_or_eq.mp hlt with hlt | rfl
    · refine (h.taken position hlt hposition).imp_right ?_
      rintro ⟨w', hheld⟩
      refine ⟨w', ?_⟩
      rwa [if_neg]
      rintro rfl
      rw [hw] at hheld
      cases hheld
    · exact .inr ⟨w, by rw [if_pos rfl]; rfl⟩
  stopped := by
    intro w' hstopped
    simp only [workers_setWorker] at hstopped
    split at hstopped
    · cases hstopped
    · exact (h.stopped w' hstopped).trans (Nat.lt_succ_self _)
  cursor_eq := by
    have hsum := sum_ahead_setWorker st w (.claimed st.cursor)
    have hcursor := h.cursor_eq
    rw [hw] at hsum
    change _ + 0 = _ + 1 at hsum
    change st.cursor + 1 = st.faults.length +
      ∑ w', ((st.setWorker w (.claimed st.cursor)).workers w').ahead
    omega

/-- A worker that took a position starts the fault of the page there. -/
theorem Shared.lookup {slice : PageSlice} {st : Prefetch E n} (h : st.Shared slice) {w : Fin n}
    {position page : ℕ} (hw : st.workers w = .claimed position)
    (hpage : slice.pages[position]? = some page) :
    (st.setWorker w (.faulting position page)).Shared slice := by
  have hholds : ∀ w', ((st.setWorker w (.faulting position page)).workers w').holds =
      (st.workers w').holds := by
    intro w'
    rw [workers_setWorker]
    split
    · next hw' => rw [hw', hw]; rfl
    · rfl
  refine ⟨h.nodup, h.fault, h.done_lt, ?_, ?_, ?_, ?_, ?_, ?_⟩
  · exact fun hheld => h.held_lt ((hholds _).symm.trans hheld)
  · exact fun hheld hheld' =>
      h.held_once ((hholds _).symm.trans hheld) ((hholds _).symm.trans hheld')
  · intro w' position' page' hfaulting
    rw [workers_setWorker] at hfaulting
    split at hfaulting
    · obtain ⟨rfl, rfl⟩ := PrefetchWorker.faulting.inj hfaulting
      exact hpage
    · exact h.faulting hfaulting
  · intro position' hlt hposition'
    simp only [hholds]
    exact h.taken position' hlt hposition'
  · intro w' hstopped
    rw [workers_setWorker] at hstopped
    split at hstopped
    · cases hstopped
    · exact h.stopped w' hstopped
  · have hsum := sum_ahead_setWorker st w (.faulting position page)
    have hcursor := h.cursor_eq
    rw [hw] at hsum
    change _ + 1 = _ + 1 at hsum
    change st.cursor = st.faults.length + _
    omega

/-- A worker that took a position past the slice stops. -/
theorem Shared.stop {slice : PageSlice} {st : Prefetch E n} (h : st.Shared slice) {w : Fin n}
    {position : ℕ} (hw : st.workers w = .claimed position)
    (hpage : slice.pages[position]? = none) : (st.setWorker w .stopped).Shared slice := by
  have hpast : slice.pages.length ≤ position := List.getElem?_eq_none_iff.mp hpage
  have hheld : (st.workers w).holds = some position := by rw [hw]; rfl
  have hholds : ∀ {w' position'}, ((st.setWorker w .stopped).workers w').holds = some position' →
      (st.workers w').holds = some position' := by
    intro w' position' hheld'
    rw [workers_setWorker] at hheld'
    split at hheld'
    · cases hheld'
    · exact hheld'
  refine ⟨h.nodup, h.fault, h.done_lt, ?_, ?_, ?_, ?_, ?_, ?_⟩
  · exact fun hheld' => h.held_lt (hholds hheld')
  · exact fun hheld₁ hheld₂ => h.held_once (hholds hheld₁) (hholds hheld₂)
  · intro w' position' page' hfaulting
    rw [workers_setWorker] at hfaulting
    split at hfaulting
    · cases hfaulting
    · exact h.faulting hfaulting
  · intro position' hlt hposition'
    refine (h.taken position' hlt hposition').imp_right ?_
    rintro ⟨w', hheld'⟩
    refine ⟨w', ?_⟩
    rw [workers_setWorker, if_neg]
    · exact hheld'
    · -- the position of the worker that stops is past the slice
      rintro rfl
      obtain rfl : position' = position := Option.some.inj (hheld'.symm.trans hheld)
      omega
  · intro w' hstopped
    rw [workers_setWorker] at hstopped
    split at hstopped
    · exact hpast.trans_lt (h.held_lt hheld).1
    · exact h.stopped w' hstopped
  · have hsum := sum_ahead_setWorker st w .stopped
    have hcursor := h.cursor_eq
    rw [hw] at hsum
    change _ + 1 = _ + 1 at hsum
    change st.cursor = st.faults.length + _
    omega

/-- A fault ends, and its worker is ready again. -/
theorem Shared.finish {slice : PageSlice} {st : Prefetch E n} (h : st.Shared slice) {w : Fin n}
    {position page : ℕ} (hw : st.workers w = .faulting position page)
    (result : Except (VfsError E) Bytes) :
    ({ st.setWorker w .ready with faults := st.faults ++ [⟨w, position, page, result⟩] } :
      Prefetch E n).Shared slice := by
  have hheld : (st.workers w).holds = some position := by rw [hw]; rfl
  obtain ⟨hlt, hnew⟩ := h.held_lt hheld
  have hpositions : ({ st.setWorker w .ready with
      faults := st.faults ++ [⟨w, position, page, result⟩] } : Prefetch E n).positions =
      st.positions ++ [position] := by
    simp [positions]
  have hholds : ∀ {w' position'}, ((st.setWorker w .ready).workers w').holds = some position' →
      w' ≠ w ∧ (st.workers w').holds = some position' := by
    intro w' position' hheld'
    rw [workers_setWorker] at hheld'
    split at hheld'
    · cases hheld'
    · next hne => exact ⟨hne, hheld'⟩
  refine ⟨?_, ?_, ?_, ?_, ?_, ?_, ?_, ?_, ?_⟩
  · rw [hpositions]
    refine List.nodup_append.mpr ⟨h.nodup, List.nodup_singleton _, fun a ha b hb hab => hnew ?_⟩
    exact List.mem_singleton.mp hb ▸ hab ▸ ha
  · intro fault hfault
    rcases List.mem_append.mp hfault with hold | hlast
    · exact h.fault fault hold
    · rw [List.mem_singleton.mp hlast]
      exact h.faulting hw
  · intro position' hposition'
    rw [hpositions] at hposition'
    rcases List.mem_append.mp hposition' with hold | hlast
    · exact h.done_lt position' hold
    · exact List.mem_singleton.mp hlast ▸ hlt
  · intro w' position' hheld'
    obtain ⟨hne, hheld'⟩ := hholds hheld'
    obtain ⟨hlt', hnot⟩ := h.held_lt hheld'
    rw [hpositions]
    refine ⟨hlt', fun hmem => ?_⟩
    rcases List.mem_append.mp hmem with hold | hlast
    · exact hnot hold
    · -- it would be held by two workers
      rw [List.mem_singleton.mp hlast] at hheld'
      exact hne (h.held_once hheld' hheld)
  · exact fun hheld₁ hheld₂ => h.held_once (hholds hheld₁).2 (hholds hheld₂).2
  · intro w' position' page' hfaulting
    change (st.setWorker w .ready).workers w' = _ at hfaulting
    rw [workers_setWorker] at hfaulting
    split at hfaulting
    · cases hfaulting
    · exact h.faulting hfaulting
  · intro position' hlt' hposition'
    rw [hpositions]
    rcases h.taken position' hlt' hposition' with hold | ⟨w', hheld'⟩
    · exact .inl (List.mem_append_left _ hold)
    · by_cases hw' : w' = w
      · rw [hw'] at hheld'
        obtain rfl : position = position' := Option.some.inj (hheld.symm.trans hheld')
        exact .inl (List.mem_append_right _ (List.mem_singleton_self _))
      · refine .inr ⟨w', ?_⟩
        change ((st.setWorker w .ready).workers w').holds = _
        rwa [workers_setWorker, if_neg hw']
  · intro w' hstopped
    change (st.setWorker w .ready).workers w' = _ at hstopped
    rw [workers_setWorker] at hstopped
    split at hstopped
    · cases hstopped
    · exact h.stopped w' hstopped
  · have hsum := sum_ahead_setWorker st w .ready
    have hcursor := h.cursor_eq
    rw [hw] at hsum
    change _ + 1 = _ + 0 at hsum
    change st.cursor = (st.faults ++ [_]).length +
      ∑ w', ((st.setWorker w .ready).workers w').ahead
    rw [List.length_append, List.length_singleton]
    omega

/-- **One atomic step** of any worker keeps what is shared. -/
theorem Shared.step {slice : PageSlice} {st : Prefetch E n} (hn : n ≤ prefetchFanout)
    (h : st.Shared slice) (next : PrefetchStep E n) : (st.step slice next).Shared slice := by
  rw [Prefetch.step]
  cases hw : st.workers next.worker with
  | ready =>
    have hwraps : (st.cursor + 1) % 2 ^ 64 = st.cursor + 1 := by
      have hle := h.cursor_le
      have hlt := slice.length_lt
      simp only [prefetchFanout] at hn
      exact Nat.mod_eq_of_lt (by omega)
    simp only [hwraps]
    exact h.fetch hw
  | claimed position =>
    simp only
    cases hpage : slice.pages[position]? with
    | none => exact h.stop hw hpage
    | some page => exact h.lookup hw hpage
  | faulting position page => exact h.finish hw next.result
  | stopped => exact h

/-- What is shared after any steps of the workers. -/
theorem shared_after {slice : PageSlice} (schedule : List (PrefetchStep E slice.workers)) :
    (after slice schedule).Shared slice := by
  have hn : slice.workers ≤ prefetchFanout := min_le_right _ _
  induction schedule using List.reverseRecOn with
  | nil => exact shared_start slice
  | append_singleton schedule next ih =>
    rw [after, List.foldl_concat]
    exact ih.step hn next

end Prefetch

/-- **Every page is faulted once.** After any interleaving of the workers' steps, whether or not
faults succeed, only positions of the slice were faulted, each at most once and for the page
there, at most sixteen faults are in progress, and the cursor is at most as far past the slice
as there are workers. Once all workers stopped each position was faulted by exactly one of
them, exactly once. -/
theorem prefetch_faults_once (slice : PageSlice)
    (schedule : List (PrefetchStep E slice.workers)) :
    let st := Prefetch.after slice schedule
    st.positions.Nodup ∧
      (∀ fault ∈ st.faults, slice.pages[fault.position]? = some fault.page) ∧
      (∀ w position page, st.workers w = .faulting position page →
        slice.pages[position]? = some page) ∧
      st.inProgress ≤ 16 ∧ st.cursor ≤ slice.pages.length + slice.workers ∧
      ((∀ w, st.workers w = .stopped) → ∀ position < slice.pages.length,
        st.positions.count position = 1 ∧
          ∃! w, ∃ fault ∈ st.faults, fault.worker = w ∧ fault.position = position) := by
  intro st
  have hshared : st.Shared slice := Prefetch.shared_after schedule
  refine ⟨hshared.nodup, hshared.fault, fun w position page => hshared.faulting, ?_,
    hshared.cursor_le, fun hstopped position hposition => ?_⟩
  · have hcard : st.inProgress ≤ slice.workers := by
      refine (Finset.card_le_univ _).trans ?_
      rw [Fintype.card_fin]
    exact hcard.trans (min_le_right _ _)
  · have hworkers : 0 < slice.workers := lt_min (Nat.zero_lt_of_lt hposition) (by decide)
    have hpast := hshared.stopped ⟨0, hworkers⟩ (hstopped _)
    have hdone : position ∈ st.positions := by
      refine (hshared.taken position (hposition.trans hpast) hposition).resolve_right ?_
      rintro ⟨w, hheld⟩
      rw [hstopped w] at hheld
      cases hheld
    refine ⟨List.count_eq_one_of_mem hshared.nodup hdone, ?_⟩
    obtain ⟨fault, hfault, rfl⟩ := List.mem_map.mp hdone
    refine ⟨fault.worker, ⟨fault, hfault, rfl, rfl⟩, ?_⟩
    rintro w ⟨fault', hfault', rfl, hsame⟩
    rw [List.inj_on_of_nodup_map hshared.nodup hfault' hfault hsame]

end FlockDb
