import FlockDb.Library.Ascending
import FlockDb.Library.Runs
import FlockDb.Vfs.Trace

/-!
# The wake scheduler

A query is served through a source that records the pages it faults. The scheduler folds
the trace into the database's warm set, and hands that set to the source of the next
wake before its reads arrive. What the first wake learned covers what the next one asks
for, as long as the set stays below its cap.
-/

namespace FlockDb

open Ascending Runs

variable {E σ : Type}

/-- A `PageSource` with its `prefetch`, which is advisory and drops every error. -/
structure PrefetchSource (E σ : Type) extends PageSource E σ where
  prefetch : σ → List ℕ → σ

/-- `RecordingSource`: a source with the list of the pages faulted or prefetched. -/
def recordingSource (inner : PrefetchSource E σ) : PrefetchSource E (σ × List ℕ) where
  toPageSource := inner.toPageSource.recording
  prefetch := fun s pages => (inner.prefetch s.1 pages, s.2 ++ pages)

/-- `RecordingSource::touched`: the pages recorded, sorted and without repeats. -/
def touched (recorded : List ℕ) : List ℕ := sortDedup recorded

/-- `DbId`: the name of a database whose warm set is tracked. -/
structure DbId where
  id : String
  deriving DecidableEq

/-- `WARM_SET_CAP`: the most pages that a warm set holds. -/
def warmSetCap : ℕ := 8192

/-- `WarmSet`: the pages to prewarm, and whether some were dropped at the cap. -/
structure WarmSet where
  pages : List ℕ
  saturated : Bool
  ascending : pages.Pairwise (· < ·)
  bounded : pages.length ≤ warmSetCap

namespace WarmSet

/-- An empty warm set. -/
def new : WarmSet := ⟨[], false, .nil, Nat.zero_le _⟩

/-- One page of `learn`: it is inserted where it belongs unless it is there or the set is
full. -/
def learnPage (set : WarmSet) (page : ℕ) : WarmSet :=
  match hsearch : search set.pages page with
  | .ok _ => set
  | .error idx =>
    if hcap : warmSetCap ≤ set.pages.length then { set with saturated := true }
    else
      { set with
        pages := set.pages.insertIdx idx page
        ascending := (insertIdx_search set.ascending hsearch).2.1
        bounded := by
          have hlength : (set.pages.insertIdx idx page).length ≤ set.pages.length + 1 :=
            List.length_insertIdx_le_succ
          omega }

/-- `WarmSet::learn`: fold a trace into the set. -/
def learn (set : WarmSet) (touched : List ℕ) : WarmSet := touched.foldl learnPage set

end WarmSet

/-- `WakeScheduler`: the warm set of each database that was observed. -/
structure WakeScheduler where
  warm : DbId → Option WarmSet

namespace WakeScheduler

/-- A scheduler that has observed nothing. -/
def new : WakeScheduler := ⟨fun _ => none⟩

/-- `observe`: fold a query's trace into the warm set of its database. -/
def observe (sched : WakeScheduler) (db : DbId) (touched : List ℕ) : WakeScheduler :=
  ⟨Function.update sched.warm db (some (((sched.warm db).getD .new).learn touched))⟩

/-- The pages of a database's warm set, none for a database never observed. -/
def pages (sched : WakeScheduler) (db : DbId) : List ℕ := ((sched.warm db).map (·.pages)).getD []

/-- `prewarm`: hand the warm set of a database to a freshly woken source. -/
def prewarm (sched : WakeScheduler) (db : DbId) (source : PrefetchSource E σ) (s : σ) : ℕ × σ :=
  ((sched.pages db).length, source.prefetch s (sched.pages db))

/-- A scheduler after a history of calls of `observe`. -/
def after (history : List (DbId × List ℕ)) : WakeScheduler :=
  history.foldl (fun sched call => sched.observe call.1 call.2) new

end WakeScheduler

/-- Everything a history observed of a database. -/
def observedPages (history : List (DbId × List ℕ)) (db : DbId) : List ℕ :=
  (history.filter (·.1 = db)).flatMap (·.2)

/-- A page learned is a page of the set, if the set has room for it. -/
theorem WarmSet.mem_learnPage {set : WarmSet} {page : ℕ}
    (hroom : page ∈ set.pages ∨ set.pages.length < warmSetCap) (a : ℕ) :
    a ∈ (set.learnPage page).pages ↔ a ∈ set.pages ∨ a = page := by
  rw [learnPage]
  split
  case h_1 i hfound =>
    have hmem := mem_of_search hfound
    constructor
    · exact .inl
    · rintro (h | rfl)
      · exact h
      · exact hmem
  case h_2 idx hmissing =>
    obtain ⟨hnew, -, hmem⟩ := insertIdx_search set.ascending hmissing
    rw [dif_neg (not_le.mpr (hroom.resolve_left hnew)), hmem, or_comm]

/-- A warm set has no more pages than any set that includes it. -/
theorem WarmSet.length_le_card {set : WarmSet} {all : Finset ℕ} (h : ∀ p ∈ set.pages, p ∈ all) :
    set.pages.length ≤ all.card := by
  have hnodup : set.pages.Nodup := set.ascending.imp ne_of_lt
  rw [← List.toFinset_card_of_nodup hnodup]
  exact Finset.card_le_card fun p hp => h p (List.mem_toFinset.mp hp)

/-- A trace learned is in the set, if set and trace together do not exceed the cap. -/
theorem WarmSet.mem_learn {all : Finset ℕ} (hcap : all.card ≤ warmSetCap) {trace : List ℕ}
    (htrace : ∀ p ∈ trace, p ∈ all) {set : WarmSet} (hset : ∀ p ∈ set.pages, p ∈ all) (a : ℕ) :
    a ∈ (set.learn trace).pages ↔ a ∈ set.pages ∨ a ∈ trace := by
  induction trace generalizing set with
  | nil => simp [learn]
  | cons page trace ih =>
    have hpage := htrace page List.mem_cons_self
    have hroom : page ∈ set.pages ∨ set.pages.length < warmSetCap := by
      by_cases hmem : page ∈ set.pages
      · exact .inl hmem
      · -- the set misses a page of the whole, so it has fewer than the cap
        have hless : ∀ p ∈ set.pages, p ∈ all.erase page := fun p hp =>
          Finset.mem_erase.mpr ⟨fun heq => hmem (heq ▸ hp), hset p hp⟩
        have hlength := length_le_card hless
        have hcard := Finset.card_erase_lt_of_mem hpage
        exact .inr (by omega)
    have hlearned := mem_learnPage hroom
    have hnext : ∀ p ∈ (set.learnPage page).pages, p ∈ all := by
      intro p hp
      rcases (hlearned p).mp hp with h | rfl
      · exact hset p h
      · exact hpage
    have hrest := ih (fun p hp => htrace p (List.mem_cons_of_mem _ hp)) hnext
    rw [learn, List.foldl_cons, ← learn, hrest, hlearned, List.mem_cons, or_assoc]

namespace WakeScheduler

/-- The pages of a database that is known are those of its warm set. -/
theorem pages_eq (sched : WakeScheduler) (db : DbId) :
    ((sched.warm db).getD .new).pages = sched.pages db := by
  rw [pages]
  cases sched.warm db <;> rfl

/-- A call of `observe` folds the trace into its own database's pages only. -/
theorem pages_observe (sched : WakeScheduler) (db other : DbId) (trace : List ℕ) :
    (sched.observe other trace).pages db =
      if other = db then (((sched.warm db).getD .new).learn trace).pages else sched.pages db := by
  simp only [pages, observe]
  by_cases hdb : other = db
  · rw [if_pos hdb, hdb, Function.update_self, Option.map_some, Option.getD_some]
  · rw [if_neg hdb, Function.update_of_ne (Ne.symm hdb)]

/-- After a history whose distinct pages for a database do not exceed the cap, its warm
set has exactly the pages observed. -/
theorem mem_pages_after {history : List (DbId × List ℕ)} {db : DbId}
    (hcap : (observedPages history db).toFinset.card ≤ warmSetCap) (a : ℕ) :
    a ∈ (after history).pages db ↔ a ∈ observedPages history db := by
  have hgo : ∀ (calls : List (DbId × List ℕ)) (sched : WakeScheduler),
      (∀ p ∈ observedPages calls db, p ∈ observedPages history db) →
      (∀ p ∈ sched.pages db, p ∈ observedPages history db) →
      (a ∈ (calls.foldl (fun sched call => sched.observe call.1 call.2) sched).pages db ↔
        a ∈ sched.pages db ∨ a ∈ observedPages calls db) := by
    intro calls
    induction calls with
    | nil => simp [observedPages]
    | cons call calls ih =>
      obtain ⟨other, trace⟩ := call
      intro sched hcalls hsched
      have hobserve := pages_observe sched db other trace
      rw [List.foldl_cons]
      by_cases hdb : other = db
      · have hsplit : observedPages ((other, trace) :: calls) db =
            trace ++ observedPages calls db := by
          simp [observedPages, hdb]
        rw [hsplit] at hcalls ⊢
        rw [if_pos hdb] at hobserve
        have htrace : ∀ p ∈ trace, p ∈ (observedPages history db).toFinset := fun p hp =>
          List.mem_toFinset.mpr (hcalls p (List.mem_append_left _ hp))
        have hset : ∀ p ∈ ((sched.warm db).getD .new).pages,
            p ∈ (observedPages history db).toFinset := fun p hp =>
          List.mem_toFinset.mpr (hsched p (pages_eq sched db ▸ hp))
        have hlearned := WarmSet.mem_learn hcap htrace hset
        rw [pages_eq, ← hobserve] at hlearned
        have hnext : ∀ p ∈ (sched.observe other trace).pages db, p ∈ observedPages history db := by
          intro p hp
          rcases (hlearned p).mp hp with h | h
          · exact hsched p h
          · exact hcalls p (List.mem_append_left _ h)
        rw [ih _ (fun p hp => hcalls p (List.mem_append_right _ hp)) hnext, hlearned,
          List.mem_append, or_assoc]
      · have hsplit : observedPages ((other, trace) :: calls) db = observedPages calls db := by
          simp [observedPages, hdb]
        rw [hsplit] at hcalls ⊢
        rw [if_neg hdb] at hobserve
        rw [ih _ hcalls (hobserve ▸ hsched), hobserve]
  have hnone : ∀ p ∈ new.pages db, p ∈ observedPages history db := fun p hp => by cases hp
  rw [after, hgo history new (fun _ => id) hnone]
  exact or_iff_right (by simp [new, pages])

end WakeScheduler

/-- One read of a query: its result, and the source after it. -/
def readStep (src : PageSource E σ) (totalLen : UInt64) (s : σ) (read : UInt64 × ByteVec) :
    Except Checked.Trap (Except (VfsError E) ℕ) × σ :=
  let out := serveRead src totalLen read.1 read.2 s
  (out.result, out.src)

/-- The pages that cover the reads of a query, in order. -/
def coveringAll (size totalLen : UInt64) (reads : List (UInt64 × ByteVec)) : List ℕ :=
  reads.flatMap fun read => covering size totalLen read.1 read.2

/-- A page size that stays does so over a read. -/
theorem sized_read {src : PageSource E σ} {size : UInt64} {st : σ × List ℕ}
    (h : src.Sized size st.1) (totalLen : UInt64) (read : UInt64 × ByteVec) :
    src.Sized size (readStep src.recording totalLen st read).2.1 :=
  serveRead_keeps (P := fun st : σ × List ℕ => src.Sized size st.1)
    (fun _ pageNo hst => hst.next pageNo) totalLen read.1 read.2 h

/-- A query asks for pages that cover its reads only, whatever comes back. -/
theorem query_asks_within {src : PageSource E σ} {size : UInt64} (totalLen : UInt64)
    (reads : List (UInt64 × ByteVec)) {st : σ × List ℕ} (hsized : src.Sized size st.1) :
    ∀ pageNo ∈ (run (readStep src.recording totalLen) st reads).2.2,
      pageNo ∈ st.2 ∨ pageNo ∈ coveringAll size totalLen reads := by
  induction reads generalizing st with
  | nil => exact fun pageNo hmem => .inl hmem
  | cons read reads ih =>
    intro pageNo hmem
    rw [coveringAll, List.flatMap_cons, List.mem_append, ← coveringAll]
    rcases ih (sized_read hsized totalLen read) pageNo hmem with hfirst | hrest
    · rcases serveRead_asks_within (hsized []) totalLen read.1 read.2 st.2 pageNo hfirst with h | h
      · exact .inl h
      · exact .inr (.inl h)
    · exact .inr (.inr hrest)

/-- A query that is served asked for the pages that cover its reads, and a steady source
for the pages of each read once, in order. -/
theorem query_asks {src : PageSource E σ} {size totalLen : UInt64}
    {reads : List (UInt64 × ByteVec)} {st : σ × List ℕ} (hsized : src.Sized size st.1)
    (hserved : ∀ r ∈ (run (readStep src.recording totalLen) st reads).1, ∃ n, r = .ok (.ok n)) :
    let log := (run (readStep src.recording totalLen) st reads).2.2
    (∀ pageNo, pageNo ∈ log ↔ pageNo ∈ st.2 ∨ pageNo ∈ coveringAll size totalLen reads) ∧
      (src.Steady st.1 → log = st.2 ++ coveringAll size totalLen reads) := by
  induction reads generalizing st with
  | nil => simp [coveringAll]
  | cons read reads ih =>
    rw [run_cons, List.forall_mem_cons] at hserved
    obtain ⟨⟨n, hfirst⟩, hrest⟩ := hserved
    obtain ⟨hmem, honce⟩ := serveRead_asks (hsized []) hfirst
    obtain ⟨hmem', honce'⟩ := ih (sized_read hsized totalLen read) hrest
    rw [run_cons]
    have hcovering : coveringAll size totalLen (read :: reads) =
        covering size totalLen read.1 read.2 ++ coveringAll size totalLen reads := rfl
    rw [hcovering]
    refine ⟨fun pageNo => ?_, fun hsteady => ?_⟩
    · rw [hmem', List.mem_append, ← or_assoc]
      exact or_congr_left (hmem pageNo)
    · obtain ⟨hstill, hlog⟩ := honce hsteady
      rw [honce' hstill, ← List.append_assoc]
      exact congrArg (· ++ _) hlog

/-- **What the first wake learns the next one covers.** A query that is served through a
recording source has touched the pages that cover its clamped ranges, in ascending order
without repeats, and asked a steady source for the pages of each read once and in order.
After any history of observations that has this trace and at most as many distinct pages
of the database as the cap, `prewarm` hands `prefetch` a set that has every page which
the query asks for again. That a source keeps its page size and answers a page with the
same bytes each time, `Sized` and `Steady`, is what `PageSource` documents of one virtual
file. -/
theorem learned_covers {src : PrefetchSource E σ} {size totalLen : UInt64} {s : σ}
    (hsized : src.Sized size s) {reads : List (UInt64 × ByteVec)}
    (hserved : ∀ r ∈ (run (readStep (recordingSource src).toPageSource totalLen) (s, []) reads).1,
      ∃ n, r = .ok (.ok n)) :
    let log := (run (readStep (recordingSource src).toPageSource totalLen) (s, []) reads).2.2
    (touched log).Pairwise (· < ·) ∧
      (∀ pageNo, pageNo ∈ touched log ↔
        ∃ read ∈ reads, pageNo ∈ covering size totalLen read.1 read.2) ∧
      (src.Steady s → log = coveringAll size totalLen reads) ∧
      ∀ (history : List (DbId × List ℕ)) (db : DbId), (db, touched log) ∈ history →
        (observedPages history db).toFinset.card ≤ warmSetCap →
        ∀ {E' τ : Type} (fresh again : PrefetchSource E' τ) (t u : τ), again.Sized size u →
          let warm := (WakeScheduler.after history).pages db
          (WakeScheduler.after history).prewarm db fresh t =
              (warm.length, fresh.prefetch t warm) ∧
            ∀ pageNo ∈ (run (readStep (recordingSource again).toPageSource totalLen) (u, [])
              reads).2.2, pageNo ∈ warm := by
  intro log
  obtain ⟨hmem, honce⟩ :=
    @query_asks _ _ src.toPageSource size totalLen reads (s, []) hsized hserved
  obtain ⟨hascending, htouched⟩ := sortDedup_spec log
  have hlearned : ∀ pageNo, pageNo ∈ touched log ↔ pageNo ∈ coveringAll size totalLen reads := by
    intro pageNo
    exact (htouched pageNo).trans ((hmem pageNo).trans (or_iff_right (List.not_mem_nil)))
  refine ⟨hascending, fun pageNo => ?_, honce, ?_⟩
  · rw [hlearned, coveringAll, List.mem_flatMap]
  · intro history db hobserved hcap E' τ fresh again t u hsized'
    refine ⟨rfl, fun pageNo hasked => ?_⟩
    rw [WakeScheduler.mem_pages_after hcap, observedPages, List.mem_flatMap]
    refine ⟨_, List.mem_filter.mpr ⟨hobserved, decide_eq_true rfl⟩, (hlearned pageNo).mpr ?_⟩
    rcases @query_asks_within _ _ again.toPageSource size totalLen reads (u, []) hsized' pageNo
      hasked with h | h
    · cases h
    · exact h

/-- A source of pages of two bytes, to be prefetched at no cost. -/
def zeroPages : PrefetchSource Empty Unit where
  pageSize := fun _ => 2
  readPage := fun s _ => (.ok [0, 0], s)
  prefetch := fun s _ => s

/-- A buffer of three bytes. -/
def threeZeros : ByteVec := ⟨[0, 0, 0], by decide⟩

/-- Three bytes from the second on lie in two pages, and after one observation of them the
warm set has both. -/
theorem learned_covers_threeZeros :
    let log := (run (readStep (recordingSource zeroPages).toPageSource 5) ((), [])
      [(1, threeZeros)]).2.2
    log = [0, 1] ∧
      let warm := (WakeScheduler.after [(⟨"acme/ledger"⟩, touched log)]).pages ⟨"acme/ledger"⟩
      0 ∈ warm ∧ 1 ∈ warm := by
  have hserved : ∀ r ∈ (run (readStep (recordingSource zeroPages).toPageSource 5) ((), [])
      [(1, threeZeros)]).1, ∃ n, r = .ok (.ok n) := by
    intro r hr
    obtain rfl : r = .ok (.ok 3) := List.mem_singleton.mp hr
    exact ⟨3, rfl⟩
  obtain ⟨-, -, honce, hcovers⟩ := @learned_covers _ _ zeroPages 2 5 () (fun _ => rfl)
    [(1, threeZeros)] hserved
  intro log
  have hlog : log = [0, 1] := honce fun _ _ _ _ _ hpage hpage' =>
    (Except.ok.inj hpage').symm.trans (Except.ok.inj hpage)
  refine ⟨hlog, ?_⟩
  have hobserved : observedPages [(⟨"acme/ledger"⟩, touched log)] ⟨"acme/ledger"⟩ = touched log :=
    List.append_nil _
  have hfew : (touched log).length ≤ 2 := by
    refine (List.destutter_sublist _ _).length_le.trans ?_
    rw [List.length_mergeSort, hlog]
    exact le_rfl
  have hcap : (observedPages [(⟨"acme/ledger"⟩, touched log)]
      ⟨"acme/ledger"⟩).toFinset.card ≤ warmSetCap := by
    rw [hobserved]
    exact (List.toFinset_card_le _).trans (hfew.trans (by decide))
  obtain ⟨-, hpages⟩ :=
    hcovers _ ⟨"acme/ledger"⟩ (List.mem_singleton_self _) hcap zeroPages zeroPages () ()
      fun _ => rfl
  refine ⟨hpages 0 ?_, hpages 1 ?_⟩
  · change 0 ∈ log
    rw [hlog]
    decide
  · change 1 ∈ log
    rw [hlog]
    decide

end FlockDb
