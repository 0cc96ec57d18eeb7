import FlockDb.Sync.Restore

/-!
# Which pages a follower needs

A primary may have collected pages of old commits. A follower at a commit of the log needs the
pages of the commits after it; but its position is found in the shipments of the whole log, and
these are built with all their pages.
-/

namespace FlockDb

variable {S : Substrate} {src : WalSource S}

/-- The pages of the commits from a position on are in the primary's store. -/
def PrimaryLog.PagesFrom (log : PrimaryLog src) (k : ℕ) : Prop :=
  ∀ c ∈ log.commits.drop k, c.PagesIn src.cas

/-- The pages of the commits up to a position are in the primary's store. -/
def PrimaryLog.PagesUpTo (log : PrimaryLog src) (k : ℕ) : Prop :=
  ∀ c ∈ log.commits.take k, c.PagesIn src.cas

/-- Up to a position and from there on is the whole log. -/
theorem PrimaryLog.pagesPresent_iff (log : PrimaryLog src) (k : ℕ) :
    log.PagesPresent ↔ log.PagesUpTo k ∧ log.PagesFrom k := by
  rw [PagesPresent, PagesUpTo, PagesFrom, ← List.forall_mem_append, List.take_append_drop]

/-- Only a source with the pages of its whole log finds a follower past the start. -/
theorem PrimaryLog.pagesPresent_of_resumeAfter (log : PrimaryLog src) (hS : S.ContentAddressed)
    {head : S.ManifestId} (hhead : head ≠ log.start) {start : Lsn}
    (h : src.resumeAfter head = .ok start) : log.PagesPresent := by
  cases hshipments : src.shipmentsFrom 0 with
  | ok shipments => exact log.pagesPresent_of_shipmentsFrom_zero hS hshipments
  | error e =>
    simp [WalSource.resumeAfter, log.startHead_eq, hhead, hshipments, bind, Except.bind] at h

namespace Replica

/-- With nothing failing, the restore loop over the rest of the log goes through. -/
theorem AtHead.applyUpTo_isOk (hS : S.Laws) {ledger : Ledger S} (target : Lsn) {k : ℕ}
    {r : Replica S} (h : AtHead ledger k r) {shipments : List (Shipment S)}
    (hcarries : List.Forall₂ (fun c s => Carries s c) (ledger.commits.drop k) shipments) :
    (Replica.applyUpTo (fun _ => .none) target r shipments).1 = .ok () := by
  induction shipments generalizing k r with
  | nil => rfl
  | cons s shipments ih =>
    obtain ⟨c, hc, hs, hrest⟩ := Positions.forall₂_drop_cons hcarries
    rw [Replica.applyUpTo]
    by_cases htarget : target < s.commitLsn
    · rw [if_pos htarget]
    · rw [if_neg htarget]
      obtain ⟨hresult, hnext⟩ := h.apply_next hS hc hs (stopError_none.mpr hs.intact)
      rcases hstep : r.apply .none s with ⟨result, r'⟩
      rw [hstep] at hresult hnext
      obtain rfl : result = .ok .advanced := hresult
      exact ih hnext hrest

/-- The calls on a source that a follower at the `k`-th head makes go through when the pages of
the commits after it are there, and complain of a missing page only when they are not. -/
structure NeedsOnlyRest (log : PrimaryLog src) (k : ℕ) (r : Replica S) : Prop where
  catchUp : log.PagesFrom k → ∃ advanced, (r.catchUpPlain src).1 = .ok advanced
  restoreTo : log.PagesFrom k → ∀ target, k ≤ log.position target →
    (r.restoreTo (fun _ => .none) src target).1 = .ok ()
  resumeAfter : log.PagesFrom k → ∃ start, src.resumeAfter r.head = .ok start
  manifestAt : log.PagesFrom k → ∀ target, ∃ m, src.manifestAt target = .ok m
  missing : ∀ lsn p page,
    (r.catchUpPlain src).1 = .error (.missingPage lsn p page) ∨
    (∃ target, k ≤ log.position target ∧
      (r.restoreTo (fun _ => .none) src target).1 = .error (.missingPage lsn p page)) ∨
    src.resumeAfter r.head = .error (.missingPage lsn p page) ∨
    (∃ target, src.manifestAt target = .error (.missingPage lsn p page)) →
      ∃ c ∈ log.commits.drop k, ¬c.PagesIn src.cas

/-- With the pages of the whole log, every call goes through. -/
theorem needsOnlyRest_of_pagesPresent (hS : S.Laws) {log : PrimaryLog src}
    (hpages : log.PagesPresent) {k : ℕ} {r : Replica S} (hhead : log.heads[k]? = some r.head) :
    NeedsOnlyRest log k r := by
  let p : Primary S := ⟨src, log, hpages⟩
  have hatHead : AtHead p.log.ledger k r := hhead
  have hcatchUp : (r.catchUpPlain src).1 = .ok (log.commits.length - k) :=
    (hatHead.catchesUp hS).result
  obtain ⟨start, shipments, hresume, hshipments, hcarries⟩ :
      ∃ start shipments, src.resumeAfter r.store.head = .ok start ∧
        src.shipmentsFrom start = .ok shipments ∧
        List.Forall₂ (fun c s => Carries s c) (log.commits.drop k) shipments := hatHead.shipments hS
  have hrestore (target : Lsn) : (r.restoreTo (fun _ => .none) src target).1 = .ok () := by
    have hloop := hatHead.applyUpTo_isOk hS target hcarries
    simp only [Replica.restoreTo, hresume, hshipments]
    exact hloop
  have hmanifest := log.manifestAt_eq hS.toContentAddressed hpages
  refine ⟨fun _ => ⟨_, hcatchUp⟩, fun _ target _ => hrestore target, fun _ => ⟨start, hresume⟩,
    fun _ target => ⟨_, hmanifest target⟩, ?_⟩
  rintro lsn page id (herror | ⟨target, -, herror⟩ | herror | ⟨target, herror⟩)
  · cases hcatchUp.symm.trans herror
  · cases (hrestore target).symm.trans herror
  · cases hresume.symm.trans herror
  · cases (hmanifest target).symm.trans herror

/-- **When a follower needs only the rest of the log.** It does if the primary also has the pages
of the commits that the follower has applied, or lacks pages of those it has not; otherwise the
search for its position fails for a page that it has no use for. -/
theorem needsOnlyRest_iff (hS : S.Laws) (log : PrimaryLog src) {k : ℕ} (hk : 0 < k)
    {r : Replica S} (hhead : log.heads[k]? = some r.head) :
    NeedsOnlyRest log k r ↔ (log.PagesFrom k → log.PagesUpTo k) := by
  constructor
  · intro h hrest
    have hne : r.head ≠ log.start := by
      intro heq
      rw [heq] at hhead
      have hzero := log.ledger.heads_position hhead log.ledger.getElem?_heads_zero
      omega
    obtain ⟨start, hstart⟩ := h.resumeAfter hrest
    have hpages := log.pagesPresent_of_resumeAfter hS.toContentAddressed hne hstart
    exact ((log.pagesPresent_iff k).mp hpages).1
  · intro h
    by_cases hrest : log.PagesFrom k
    · have hpages : log.PagesPresent := (log.pagesPresent_iff k).mpr ⟨h hrest, hrest⟩
      exact needsOnlyRest_of_pagesPresent hS hpages hhead
    · have hgone : ∃ c ∈ log.commits.drop k, ¬c.PagesIn src.cas := by
        simpa [PrimaryLog.PagesFrom] using hrest
      exact ⟨fun h => absurd h hrest, fun h => absurd h hrest, fun h => absurd h hrest,
        fun h => absurd h hrest, fun _ _ _ _ => hgone⟩

/-- With both pages there, a replica at the first commit needs only the second. -/
theorem needsOnlyRest_behind : NeedsOnlyRest Memory.twoCommitLog 1 behind :=
  (needsOnlyRest_iff (Memory.laws _) Memory.twoCommitLog (by decide) rfl).mpr fun _ =>
    ((Memory.twoCommitLog.pagesPresent_iff 1).mp Memory.twoCommitLog_pagesPresent).1

/-- The log of the two commits over a store from which the page of the first is gone. -/
def collectedLog : PrimaryLog (Memory.source Memory.twoCommits [[8]]) :=
  { Memory.twoCommitLog with
    readCheckpoint_eq := rfl
    records_eq := Memory.records_source (by decide) _
    startHead_eq := rfl }

/-- A replica at the first commit fails for the page of that commit, while the page of the one
it has to apply is there. -/
theorem resume_needs_old_pages :
    collectedLog.heads[1]? = some behind.head ∧ collectedLog.PagesFrom 1 ∧
      (behind.catchUpPlain (Memory.source Memory.twoCommits [[8]])).1 =
        .error (.missingPage 1 0 "page") ∧
      (Memory.source Memory.twoCommits [[8]]).manifestAt 3 = .error (.missingPage 1 0 "page") := by
  have hships : (Memory.source Memory.twoCommits [[8]]).shipmentsFrom 0 =
      .error (.missingPage 1 0 "page") := by
    rw [collectedLog.shipmentsFrom_eq]
    rfl
  have hresume : (Memory.source Memory.twoCommits [[8]]).resumeAfter behind.store.head =
      .error (.missingPage 1 0 "page") := by
    simp only [WalSource.resumeAfter, collectedLog.startHead_eq, hships]
    rfl
  refine ⟨rfl, fun c hc => ?_, ?_, ?_⟩
  · obtain rfl := List.mem_singleton.mp hc
    exact (WalSource.carries_of_ship (Memory.laws _).toContentAddressed
      (s := Memory.secondShipment) rfl).2
  · simp only [catchUpPlain, catchUp, hresume]
  · simp only [WalSource.manifestAt, hships]
    rfl

end Replica

end FlockDb
