import FlockDb.Library.Runs
import FlockDb.Sync.Apply
import FlockDb.Sync.MemoryLog

/-!
# Following a primary

A replica that is delivered the shipments of a log, in whatever order and number,
walks the log's history: its head is the position it has reached. `apply` refines
one step of following a chain, and the position is the invariant that every
delivery and every restart keeps.
-/

namespace FlockDb

open Runs

variable {S : Substrate}

/-- The `k`-th commit of a history leaves the `k`-th head. -/
theorem Ledger.getElem?_heads_base (ledger : Ledger S) {k : ℕ} {c : Commit S}
    (hc : ledger.commits[k]? = some c) : ledger.heads[k]? = some c.base := by
  have hlink : (ledger.commits.map Commit.link)[k]? = some c.link := by simp [hc]
  exact ledger.linked.source_eq hlink

/-- The `k`-th commit of a history reaches the head after the `k`-th. -/
theorem Ledger.getElem?_heads_manifest (ledger : Ledger S) {k : ℕ} {c : Commit S}
    (hc : ledger.commits[k]? = some c) : ledger.heads[k + 1]? = some c.manifest := by
  rw [ledger.getElem?_heads_succ, hc, Option.map_some]

/-- A delivery: a shipment, with the faults its call meets, or a restart of the
replica. -/
inductive Delivery (S : Substrate) where
  | shipment (faults : Faults S) (s : Shipment S)
  | restart

/-- A delivery out of a list of shipments. -/
def Delivery.From (shipments : List (Shipment S)) : Delivery S → Prop
  | .shipment _ s => s ∈ shipments
  | .restart => True

namespace Replica

/-- A call that returned `Advanced`. -/
def isAdvanced : Except (SyncError S) Applied → Bool
  | .ok .advanced => true
  | _ => false

/-- Handle one delivery; a shipment answers with the result of `apply`. -/
def deliver (r : Replica S) : Delivery S → Option (Except (SyncError S) Applied) × Replica S
  | .shipment faults s =>
    let (result, r) := r.apply faults s
    (some result, r)
  | .restart => (none, r.reopen)

/-- The verdict of a chain's follower that a result of `apply` stands for. -/
def verdict : Except (SyncError S) Applied → Chain.Verdict
  | .ok .advanced => .advanced
  | .ok .alreadyPresent => .present
  | .error _ => .refused

/-- `apply` on a genuine shipment that goes through is one step along a chain. -/
theorem apply_follow (hS : S.Laws) {faults : Faults S} (r : Replica S) {s : Shipment S}
    (hderived : s.Derived) (hthrough : stopError faults s = none) :
    (verdict (r.apply faults s).1, (r.apply faults s).2.head) = Chain.follow r.head s.link := by
  have houtcome := apply_outcome hS faults r s
  generalize r.apply faults s = result at houtcome
  cases houtcome with
  | present hhead => exact (Chain.follow_target hhead).symm
  | outOfOrder hmanifest hbase => exact (Chain.follow_other hmanifest hbase).symm
  | stopped _ _ hstop _ =>
    rw [hthrough] at hstop
    cases hstop
  | diverged hmanifest hbase _ hreplayed hgot =>
    refine absurd ?_ hgot
    rw [hreplayed.head_eq, hderived, ← hbase]
    rfl
  | advanced hmanifest hbase _ _ hgot =>
    rw [Chain.follow_source hmanifest hbase]
    exact congrArg (Prod.mk _) hgot

/-- A replica stands at the `k`-th head of a history. -/
def AtHead (ledger : Ledger S) (k : ℕ) (r : Replica S) : Prop := ledger.heads[k]? = some r.head

namespace AtHead

variable {ledger : Ledger S} {k : ℕ} {r : Replica S}

/-- A replica recognizes exactly the commit it stands behind. -/
theorem manifest_iff (h : AtHead ledger k r) {j : ℕ} {c : Commit S}
    (hc : ledger.commits[j]? = some c) : r.head = c.manifest ↔ j + 1 = k := by
  have hposition := ledger.getElem?_heads_manifest hc
  constructor
  · intro heq
    exact ledger.heads_position hposition (heq ▸ h)
  · intro heq
    exact Option.some.inj (h.symm.trans (heq ▸ hposition))

/-- A replica stands in front of exactly the commit at its position. -/
theorem base_iff (h : AtHead ledger k r) {j : ℕ} {c : Commit S}
    (hc : ledger.commits[j]? = some c) : r.head = c.base ↔ j = k := by
  have hposition := ledger.getElem?_heads_base hc
  constructor
  · intro heq
    exact ledger.heads_position hposition (heq ▸ h)
  · intro heq
    exact Option.some.inj (h.symm.trans (heq ▸ hposition))

/-- What a replica at position `k` does with a shipment of commit `j` that goes
through. -/
theorem verdict_eq (hS : S.Laws) (h : AtHead ledger k r) {j : ℕ} {c : Commit S}
    (hc : ledger.commits[j]? = some c) {s : Shipment S} (hs : Carries s c) {faults : Faults S}
    (hthrough : stopError faults s = none) :
    (verdict (r.apply faults s).1, (r.apply faults s).2.head) =
      if j + 1 = k then (.present, r.head)
      else if j = k then (.advanced, c.manifest)
      else (.refused, r.head) := by
  have hlink : (ledger.commits.map Commit.link)[j]? = some c.link := by simp [hc]
  have hderived := hs.derived (ledger.derived c (List.mem_of_getElem? hc))
  rw [apply_follow hS r hderived hthrough, hs.link_eq]
  exact Chain.follow_of_linked ledger.linked ledger.nodup h hlink

/-- The next shipment advances the replica to the next head. -/
theorem apply_next (hS : S.Laws) (h : AtHead ledger k r) {c : Commit S}
    (hc : ledger.commits[k]? = some c) {s : Shipment S} (hs : Carries s c) {faults : Faults S}
    (hthrough : stopError faults s = none) :
    (r.apply faults s).1 = .ok .advanced ∧ AtHead ledger (k + 1) (r.apply faults s).2 := by
  have hverdict := h.verdict_eq hS hc hs hthrough
  rw [if_neg (by omega), if_pos rfl, Prod.mk.injEq] at hverdict
  constructor
  · rcases hresult : (r.apply faults s).1 with e | (_ | _)
    · simp [hresult, verdict] at hverdict
    · rfl
    · simp [hresult, verdict] at hverdict
  · rw [AtHead, hverdict.2]
    exact ledger.getElem?_heads_manifest hc

/-- The shipment just applied is already present. -/
theorem apply_last (hS : S.Laws) (h : AtHead ledger k r) {j : ℕ} {c : Commit S}
    (hc : ledger.commits[j]? = some c) (hj : j + 1 = k) {s : Shipment S} (hs : Carries s c)
    (faults : Faults S) : (r.apply faults s).1 = .ok .alreadyPresent := by
  have hmanifest : r.head = s.manifest := hs.manifest ▸ (h.manifest_iff hc).mpr hj
  have houtcome := apply_outcome hS faults r s
  generalize r.apply faults s = result at houtcome
  cases houtcome with
  | present => rfl
  | outOfOrder hne _ => exact absurd hmanifest hne
  | stopped hne _ _ _ => exact absurd hmanifest hne
  | diverged hne _ _ _ _ => exact absurd hmanifest hne
  | advanced hne _ _ _ _ => exact absurd hmanifest hne

/-- Every other shipment is out of order and changes nothing. -/
theorem apply_other (hS : S.Laws) (h : AtHead ledger k r) {j : ℕ} {c : Commit S}
    (hc : ledger.commits[j]? = some c) (hnext : j ≠ k) (hlast : j + 1 ≠ k) {s : Shipment S}
    (hs : Carries s c) (faults : Faults S) :
    r.apply faults s =
      (.error (.outOfOrder s.commitLsn (S.manifestHex s.base) (S.manifestHex r.head)), r) := by
  have hmanifest : r.head ≠ s.manifest := by
    rw [hs.manifest]
    exact fun heq => hlast ((h.manifest_iff hc).mp heq)
  have hbase : r.head ≠ s.base := by
    rw [hs.base]
    exact fun heq => hnext ((h.base_iff hc).mp heq)
  have houtcome := apply_outcome hS faults r s
  generalize r.apply faults s = result at houtcome
  cases houtcome with
  | present heq => exact absurd heq hmanifest
  | outOfOrder _ _ => rfl
  | stopped _ heq _ _ => exact absurd heq hbase
  | diverged _ heq _ _ _ => exact absurd heq hbase
  | advanced _ heq _ _ _ => exact absurd heq hbase

end AtHead

/-- A replica follows a history: it stands at the `k`-th head, durably and with
every page, and the LSN it has recorded is that of the `k`-th commit. -/
structure Follows (ledger : Ledger S) (k : ℕ) (r : Replica S) : Prop where
  atHead : AtHead ledger k r
  durable : Durable r
  complete : Complete r
  applied : ∀ lsn, r.appliedLsn = some lsn →
    ∃ j c, k = j + 1 ∧ ledger.commits[j]? = some c ∧ lsn = c.lsn

namespace Follows

variable {ledger : Ledger S} {k : ℕ} {r : Replica S}

/-- One call of `apply` on a shipment of the history keeps the position, counting
an advance. -/
theorem apply (hS : S.Laws) (h : Follows ledger k r) {c : Commit S} (hc : c ∈ ledger.commits)
    {s : Shipment S} (hs : Carries s c) (faults : Faults S) :
    Follows ledger (k + if isAdvanced (r.apply faults s).1 then 1 else 0)
      (r.apply faults s).2 := by
  obtain ⟨j, hc⟩ := List.mem_iff_getElem?.mp hc
  have hdurable := h.durable.apply hS faults s
  have hcomplete := h.complete.apply hS faults s
  have houtcome := apply_outcome hS faults r s
  generalize r.apply faults s = result at houtcome hdurable hcomplete
  cases houtcome with
  | present hhead =>
    have hj : j + 1 = k := (h.atHead.manifest_iff hc).mp (hhead.trans hs.manifest)
    refine ⟨h.atHead, hdurable, hcomplete, fun lsn hlsn => ⟨j, c, hj.symm, hc, ?_⟩⟩
    -- A position already recorded is the LSN of the same commit.
    cases hprev : r.appliedLsn with
    | none =>
      have hlsn : s.commitLsn = lsn := by simpa [hprev] using hlsn
      rw [← hlsn, hs.commitLsn]
    | some prev =>
      obtain ⟨i, c', hi, hc', rfl⟩ := h.applied prev hprev
      obtain rfl : i = j := by omega
      obtain rfl : c' = c := Option.some.inj (hc'.symm.trans hc)
      have hlsn : max c'.lsn s.commitLsn = lsn := by simpa [hprev] using hlsn
      rw [← hlsn, hs.commitLsn, max_self]
  | outOfOrder _ _ => exact h
  | stopped _ _ _ hkept =>
    refine ⟨h.atHead.trans (congrArg some hkept.store.head.symm), hdurable, hcomplete, ?_⟩
    exact fun lsn hlsn => h.applied lsn (hkept.appliedLsn ▸ hlsn)
  | diverged _ hbase _ hreplayed hgot =>
    refine absurd ?_ hgot
    have hderived := hs.derived (ledger.derived c (List.mem_of_getElem? hc))
    rw [hreplayed.head_eq, hderived, ← hbase]
    rfl
  | advanced _ hbase _ _ hgot =>
    have hj : j = k := (h.atHead.base_iff hc).mp (hbase.trans hs.base)
    subst hj
    refine ⟨?_, hdurable, hcomplete, fun lsn hlsn => ⟨j, c, rfl, hc, ?_⟩⟩
    · have hposition := ledger.getElem?_heads_manifest hc
      exact hposition.trans (congrArg some (hs.manifest.symm.trans hgot.symm))
    · rw [← hs.commitLsn]
      exact (Option.some.inj hlsn).symm

/-- A restart comes back to the same position. -/
theorem reopen (hS : S.Laws) (h : Follows ledger k r) : Follows ledger k r.reopen where
  atHead := h.atHead.trans (congrArg some (h.durable.reopen_head hS).symm)
  durable := durable_reopen hS r
  complete := h.complete.reopen hS h.durable
  applied := by
    intro lsn hlsn
    cases hlsn

/-- The pages a replica reads at its head are the ones its head names. -/
theorem read_iff (hS : S.Laws) (h : Follows ledger k r) (p : PageNo) (bytes : Bytes) :
    r.read r.head p = .ok bytes ↔ S.Names r.head p bytes := by
  rw [read_ok_iff, hS.read_ok_iff_names h.complete]

end Follows

/-- Deliveries of shipments of a history keep the position, counting the advances. -/
theorem follows_run (hS : S.Laws) {ledger : Ledger S} {shipments : List (Shipment S)}
    (hcarries : List.Forall₂ (fun c s => Carries s c) ledger.commits shipments) {k : ℕ}
    {r : Replica S} (h : Follows ledger k r) {deliveries : List (Delivery S)}
    (hfrom : ∀ d ∈ deliveries, d.From shipments) :
    Follows ledger (k + (run deliver r deliveries).1.countP fun result => result.any isAdvanced)
      (run deliver r deliveries).2 := by
  refine run_countP (fun k r d hd h => ?_) hfrom h
  cases d with
  | shipment faults s =>
    obtain ⟨j, hs⟩ := List.mem_iff_getElem?.mp hd
    obtain ⟨c, hc, hsc⟩ := Positions.exists_of_forall₂_right hcarries hs
    exact h.apply hS (List.mem_of_getElem? hc) hsc faults
  | restart => exact h.reopen hS

/-- A replica set up at the start of a history follows it from there. -/
theorem StartsAt.follows {ledger : Ledger S} {r : Replica S} (h : r.StartsAt ledger.start) :
    Follows ledger 0 r where
  atHead := congrArg some h.head.symm
  durable := h.recovered.trans h.head.symm
  complete := by
    rw [Complete, h.head]
    exact h.holds
  applied := by
    intro lsn hlsn
    rw [h.applied] at hlsn
    cases hlsn

/-- **A follower is at the position it has advanced to.** However a log's
shipments are reordered, repeated, dropped or interrupted by restarts and failed
calls, the head is the one after as many commits as calls returned `Advanced`, it
reads the primary's pages, and every shipment's verdict and the recorded LSN are
those of that position. -/
theorem follows_any_delivery (hS : S.Laws) {src : WalSource S} (log : PrimaryLog src)
    {shipments : List (Shipment S)} (hship : src.shipmentsFrom 0 = .ok shipments)
    {r : Replica S} (hstart : r.StartsAt log.start) {deliveries : List (Delivery S)}
    (hfrom : ∀ d ∈ deliveries, d.From shipments) :
    let k := (run deliver r deliveries).1.countP fun result => result.any isAdvanced
    let r' := (run deliver r deliveries).2
    log.heads[k]? = some r'.head ∧
    (∀ p bytes, r'.read r'.head p = .ok bytes ↔ S.Names r'.head p bytes) ∧
    (S.Holds src.cas r'.head → ∀ p bytes,
      r'.read r'.head p = .ok bytes ↔ S.read src.cas r'.head p = .ok bytes) ∧
    (∀ j s, shipments[j]? = some s →
      (j = k → (r'.apply .none s).1 = .ok .advanced) ∧
      (j + 1 = k → ∀ faults, (r'.apply faults s).1 = .ok .alreadyPresent) ∧
      (j ≠ k → j + 1 ≠ k → ∀ faults, r'.apply faults s =
        (.error (.outOfOrder s.commitLsn (S.manifestHex s.base) (S.manifestHex r'.head)), r'))) ∧
    (∀ lsn, r'.appliedLsn = some lsn →
      ∃ j s, k = j + 1 ∧ shipments[j]? = some s ∧ lsn = s.commitLsn) := by
  have hcarries : List.Forall₂ (fun c s => Carries s c) log.ledger.commits shipments :=
    log.carries_of_shipmentsFrom_zero hS.toContentAddressed hship
  have hrun := follows_run hS hcarries hstart.follows hfrom
  intro k r'
  have h : Follows log.ledger k r' := by
    rw [Nat.zero_add] at hrun
    exact hrun
  refine ⟨h.atHead, h.read_iff hS, fun hholds p bytes => ?_, fun j s hs => ?_, fun lsn hlsn => ?_⟩
  · rw [h.read_iff hS, hS.read_ok_iff_names hholds]
  · obtain ⟨c, hc, hsc⟩ := Positions.exists_of_forall₂_right hcarries hs
    refine ⟨?_, fun hj faults => h.atHead.apply_last hS hc hj hsc faults,
      fun hnext hlast faults => h.atHead.apply_other hS hc hnext hlast hsc faults⟩
    rintro rfl
    exact (h.atHead.apply_next hS hc hsc (stopError_none.mpr hsc.intact)).1
  · obtain ⟨j, c, hk, hc, rfl⟩ := h.applied lsn hlsn
    obtain ⟨s, hs, hsc⟩ := Positions.exists_of_forall₂ hcarries hc
    exact ⟨j, s, hk, hs, hsc.commitLsn.symm⟩

/-- Deliveries out of order, repeated and with a restart between. -/
def shuffledDeliveries : List (Delivery (memory Memory.twoCommits)) :=
  [.shipment .none Memory.secondShipment, .shipment .none Memory.firstShipment,
    .shipment .none Memory.firstShipment, .restart, .shipment .none Memory.secondShipment]

/-- The shuffled deliveries take a fresh replica to the end of the log. -/
theorem follows_any_delivery_shuffled :
    let r' := (run deliver (Memory.freshReplica Memory.twoCommits) shuffledDeliveries).2
    Memory.twoCommitLog.heads[2]? = some r'.head ∧
      (r'.read r'.head 0 = .ok [8] ↔ (memory Memory.twoCommits).Names r'.head 0 [8]) := by
  have hfrom : ∀ d ∈ shuffledDeliveries,
      d.From [Memory.firstShipment, Memory.secondShipment] := by
    simp [shuffledDeliveries, Delivery.From]
  have h := follows_any_delivery (Memory.laws _) Memory.twoCommitLog
    Memory.shipmentsFrom_twoCommits (Memory.freshReplica_startsAt _) hfrom
  have hcount : (run deliver (Memory.freshReplica Memory.twoCommits) shuffledDeliveries).1.countP
      (fun result => result.any isAdvanced) = 2 := by decide
  rw [hcount] at h
  exact ⟨h.1, h.2.1 0 [8]⟩

end Replica

end FlockDb
