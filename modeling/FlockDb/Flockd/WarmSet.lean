import FlockDb.Flockd.Scheduler

/-!
# What a warm set holds

However the calls of `observe` interleave, a database's warm set holds the first distinct
pages that were observed of it, up to the cap, and says whether there were more. Below the
cap the order of the observations does not matter, and no observation matters twice.
-/

namespace FlockDb

open Ascending

namespace WarmSet

/-- A warm set that holds the first pages seen, up to the cap, and says whether there are
more. -/
structure Holds (set : WarmSet) (seen : List ℕ) : Prop where
  mem_iff : ∀ p, p ∈ set.pages ↔ p ∈ seen.eraseDups.take warmSetCap
  saturated_iff : set.saturated = true ↔ warmSetCap < seen.eraseDups.length

/-- A warm set is known by its pages and its flag. -/
theorem ext {set set' : WarmSet} (hpages : set.pages = set'.pages)
    (hsaturated : set.saturated = set'.saturated) : set = set' := by
  cases set
  cases set'
  cases hpages
  cases hsaturated
  rfl

/-- An empty warm set holds what was seen before anything was. -/
theorem holds_new : new.Holds [] := ⟨fun p => by simp [new], by simp [new]⟩

namespace Holds

variable {set : WarmSet} {seen : List ℕ}

/-- The set has as many pages as there are to hold. -/
theorem length_eq (h : set.Holds seen) :
    set.pages.length = min warmSetCap seen.eraseDups.length := by
  have hnodup : (seen.eraseDups.take warmSetCap).Nodup :=
    (nodup_eraseDups seen).sublist (List.take_sublist _ _)
  have hperm : set.pages.Perm (seen.eraseDups.take warmSetCap) :=
    (List.perm_ext_iff_of_nodup (set.ascending.imp ne_of_lt) hnodup).mpr h.mem_iff
  rw [hperm.length_eq, List.length_take]

/-- What is known of the pages seen determines the set. -/
theorem unique {set' : WarmSet} (h : set.Holds seen) (h' : set'.Holds seen) : set = set' := by
  refine WarmSet.ext ?_ ?_
  · exact eq_of_mem_iff set.ascending set'.ascending fun p =>
      (h.mem_iff p).trans (h'.mem_iff p).symm
  · exact Bool.eq_iff_iff.mpr (h.saturated_iff.trans h'.saturated_iff.symm)

/-- A page that was seen before changes nothing of what was first seen. -/
theorem of_seen {page : ℕ} (h : set.Holds seen) (hpage : page ∈ seen) :
    set.Holds (seen ++ [page]) := by
  have hsame : (seen ++ [page]).eraseDups = seen.eraseDups := by
    rw [eraseDups_concat, if_pos hpage]
  exact ⟨fun p => by rw [hsame, h.mem_iff], by rw [hsame, h.saturated_iff]⟩

/-- **One page of a trace.** A set that holds what was seen holds it with one page more once
it learned that page. -/
theorem learnPage (h : set.Holds seen) (page : ℕ) :
    (set.learnPage page).Holds (seen ++ [page]) := by
  have hlength := h.length_eq
  rw [WarmSet.learnPage]
  split
  case h_1 i hfound =>
    -- the page is there, so it was seen
    have hmem := (h.mem_iff page).mp (mem_of_search hfound)
    exact h.of_seen (List.mem_eraseDups.mp (List.mem_of_mem_take hmem))
  case h_2 idx hmissing =>
    obtain ⟨hnew, -, hinsert⟩ := insertIdx_search set.ascending hmissing
    split
    case isTrue hcap =>
      -- the set is full: the page is dropped and the flag set
      have hfull : warmSetCap ≤ seen.eraseDups.length := by omega
      by_cases hpage : page ∈ seen
      · have hmore : warmSetCap < seen.eraseDups.length := by
          refine lt_of_le_of_ne hfull fun heq => hnew ((h.mem_iff page).mpr ?_)
          rw [heq, List.take_length]
          exact List.mem_eraseDups.mpr hpage
        exact of_seen ⟨h.mem_iff, by simp [hmore]⟩ hpage
      · have hsnoc : (seen ++ [page]).eraseDups = seen.eraseDups ++ [page] := by
          rw [eraseDups_concat, if_neg hpage]
        refine ⟨fun p => ?_, ?_⟩
        · rw [hsnoc, List.take_append_of_le_length hfull]
          exact h.mem_iff p
        · rw [hsnoc, List.length_append, List.length_singleton]
          exact iff_of_true rfl (by omega)
    case isFalse hcap =>
      -- the set has room, so it held everything seen so far
      have hroom : seen.eraseDups.length < warmSetCap := by omega
      have hall (p : ℕ) : p ∈ set.pages ↔ p ∈ seen := by
        rw [h.mem_iff, List.take_of_length_le hroom.le, List.mem_eraseDups]
      have hpage : page ∉ seen := fun hmem => hnew ((hall page).mpr hmem)
      have hsnoc : (seen ++ [page]).eraseDups = seen.eraseDups ++ [page] := by
        rw [eraseDups_concat, if_neg hpage]
      have hlength' : (seen ++ [page]).eraseDups.length = seen.eraseDups.length + 1 := by
        rw [hsnoc, List.length_append, List.length_singleton]
      refine ⟨fun p => ?_, ?_⟩
      · rw [hinsert, hall, List.take_of_length_le (by omega), List.mem_eraseDups, List.mem_append,
          List.mem_singleton, or_comm]
      · rw [hlength']
        exact h.saturated_iff.trans (iff_of_false (by omega) (by omega))

/-- A set that holds what was seen holds it with a trace more once it learned the trace. -/
theorem learn (h : set.Holds seen) (trace : List ℕ) : (set.learn trace).Holds (seen ++ trace) := by
  induction trace generalizing set seen with
  | nil => rwa [List.append_nil]
  | cons page trace ih =>
    have hrest := ih (h.learnPage page)
    rwa [List.append_assoc, List.singleton_append] at hrest

/-- A set that holds one sequence of pages holds any other that first sees the same ones. -/
theorem of_eraseDups {seen' : List ℕ} (h : set.Holds seen)
    (hsame : seen'.eraseDups = seen.eraseDups) : set.Holds seen' :=
  ⟨fun p => by rw [hsame, h.mem_iff], by rw [hsame, h.saturated_iff]⟩

/-- A set below its cap holds any other sequence with the same pages. -/
theorem of_unsaturated {seen' : List ℕ} (h : set.Holds seen) (hfew : set.saturated = false)
    (hsame : ∀ p, p ∈ seen' ↔ p ∈ seen) : set.Holds seen' := by
  have hlength : seen.eraseDups.length ≤ warmSetCap := by
    rw [← not_lt, ← h.saturated_iff, hfew]
    exact Bool.false_ne_true
  have hperm : seen'.eraseDups.Perm seen.eraseDups := by
    refine (List.perm_ext_iff_of_nodup (nodup_eraseDups _) (nodup_eraseDups _)).mpr fun p => ?_
    rw [List.mem_eraseDups, List.mem_eraseDups, hsame]
  refine ⟨fun p => ?_, ?_⟩
  · rw [h.mem_iff, List.take_of_length_le hlength,
      List.take_of_length_le (hperm.length_eq ▸ hlength), hperm.mem_iff]
  · rw [h.saturated_iff, hperm.length_eq]

end Holds

end WarmSet

/-- What was seen before is first seen nowhere else. -/
theorem eraseDups_append_of_subset {seen trace : List ℕ} (h : ∀ p ∈ trace, p ∈ seen) :
    (seen ++ trace).eraseDups = seen.eraseDups := by
  have hnone : trace.removeAll seen = [] := by
    rw [List.removeAll, List.filter_eq_nil_iff]
    intro p hp
    simp [h p hp]
  rw [List.eraseDups_append, hnone, List.eraseDups_nil, List.append_nil]

namespace WakeScheduler

/-- `warm_set`: the warm set of a database, an empty one if it was never observed. -/
def warmSet (sched : WakeScheduler) (db : DbId) : WarmSet := (sched.warm db).getD .new

/-- A scheduler after one more call. -/
theorem after_concat (history : List (DbId × List ℕ)) (db : DbId) (trace : List ℕ) :
    after (history ++ [(db, trace)]) = (after history).observe db trace := by
  rw [after, List.foldl_concat]
  rfl

/-- A call folds its trace into the warm set of its own database. -/
theorem warmSet_observe (sched : WakeScheduler) (db other : DbId) (trace : List ℕ) :
    (sched.observe other trace).warmSet db =
      if other = db then (sched.warmSet db).learn trace else sched.warmSet db := by
  simp only [warmSet, observe]
  by_cases hdb : other = db
  · rw [if_pos hdb, hdb, Function.update_self, Option.getD_some]
  · rw [if_neg hdb, Function.update_of_ne (Ne.symm hdb)]

/-- A database is known once it was observed. -/
theorem warm_isSome {history : List (DbId × List ℕ)} {db : DbId} {trace : List ℕ}
    (h : (db, trace) ∈ history) : ((after history).warm db).isSome := by
  induction history using List.reverseRecOn with
  | nil => cases h
  | append_singleton history call ih =>
    obtain ⟨other, last⟩ := call
    rw [after_concat]
    by_cases hdb : db = other
    · simp [observe, hdb]
    · simp only [observe, Function.update_of_ne hdb]
      refine ih ((List.mem_append.mp h).resolve_right fun hlast => hdb ?_)
      exact (Prod.mk.inj (List.mem_singleton.mp hlast)).1

/-- To observe what a database's warm set has learned changes nothing. -/
theorem observe_of_learned {sched : WakeScheduler} {db : DbId} {trace : List ℕ}
    (hknown : (sched.warm db).isSome)
    (hlearned : (sched.warmSet db).learn trace = sched.warmSet db) :
    sched.observe db trace = sched := by
  obtain ⟨set, hset⟩ := Option.isSome_iff_exists.mp hknown
  have hwarm : sched.warmSet db = set := by rw [warmSet, hset, Option.getD_some]
  rw [hwarm] at hlearned
  refine congrArg WakeScheduler.mk (funext fun other => ?_)
  by_cases hother : other = db
  · rw [hother, Function.update_self, hset, Option.getD_some, hlearned]
  · exact Function.update_of_ne hother _ _

end WakeScheduler

/-- What one more call observed of a database. -/
theorem observedPages_concat (history : List (DbId × List ℕ)) (db other : DbId) (trace : List ℕ) :
    observedPages (history ++ [(other, trace)]) db =
      observedPages history db ++ if other = db then trace else [] := by
  by_cases hdb : other = db
  · simp [observedPages, hdb]
  · simp [observedPages, hdb]

/-- After any history the warm set of a database holds what was observed of it. -/
theorem WakeScheduler.holds_after (history : List (DbId × List ℕ)) (db : DbId) :
    ((after history).warmSet db).Holds (observedPages history db) := by
  induction history using List.reverseRecOn with
  | nil => exact WarmSet.holds_new
  | append_singleton history call ih =>
    obtain ⟨other, trace⟩ := call
    rw [after_concat, warmSet_observe, observedPages_concat]
    by_cases hdb : other = db
    · rw [if_pos hdb, if_pos hdb]
      exact ih.learn trace
    · rw [if_neg hdb, if_neg hdb, List.append_nil]
      exact ih

/-- **The warm set of a database is what was first observed of it.** After any history of
calls, in any interleaving, it lists in ascending order the first distinct pages of the
database up to the cap, and is saturated exactly if there were more. To observe a trace
again changes nothing, nor do observations of other databases, and unless it is saturated
any history that observed the same pages of the database leads to the same set. -/
theorem warmSet_after (history : List (DbId × List ℕ)) (db : DbId) :
    let set := (WakeScheduler.after history).warmSet db
    let distinct := (observedPages history db).eraseDups
    (set.pages.Pairwise (· < ·) ∧ ∀ p, p ∈ set.pages ↔ p ∈ distinct.take warmSetCap) ∧
      (set.saturated = true ↔ warmSetCap < distinct.length) ∧
      (∀ trace, (db, trace) ∈ history →
        WakeScheduler.after (history ++ [(db, trace)]) = WakeScheduler.after history) ∧
      (∀ other trace, other ≠ db →
        (WakeScheduler.after (history ++ [(other, trace)])).warmSet db = set) ∧
      (set.saturated = false → ∀ history',
        (∀ p, p ∈ observedPages history' db ↔ p ∈ observedPages history db) →
        (WakeScheduler.after history').warmSet db = set) := by
  intro set distinct
  have hholds := WakeScheduler.holds_after history db
  refine ⟨⟨set.ascending, hholds.mem_iff⟩, hholds.saturated_iff, ?_, ?_, ?_⟩
  · intro trace hobserved
    have hseen : ∀ p ∈ trace, p ∈ observedPages history db := fun p hp =>
      List.mem_flatMap.mpr ⟨_, List.mem_filter.mpr ⟨hobserved, decide_eq_true rfl⟩, hp⟩
    have hlearned : set.learn trace = set :=
      ((hholds.learn trace).of_eraseDups (eraseDups_append_of_subset hseen).symm).unique hholds
    rw [WakeScheduler.after_concat]
    exact WakeScheduler.observe_of_learned (WakeScheduler.warm_isSome hobserved) hlearned
  · intro other trace hother
    rw [WakeScheduler.after_concat, WakeScheduler.warmSet_observe, if_neg hother]
  · intro hfew history' hsame
    exact (WakeScheduler.holds_after history' db).unique (hholds.of_unsaturated hfew hsame)

end FlockDb
