import FlockDb.Sync.CatchUp

/-!
# Restoring to a point in time

`restore_to` promises to leave the replica at the primary's state as of a target.
Its loop only moves forward: it ends at the target's position or stays where the
replica already was, whichever is later, and a checkpoint past the target is
never looked at.
-/

namespace FlockDb

open Runs

variable {S : Substrate}

/-- The head a restore to a target is meant to end at: the manifest as of the
target, or the start where nothing lies at or before the target and no checkpoint
lies beyond it. -/
def PrimaryLog.AsOf {src : WalSource S} (log : PrimaryLog src) (target : Lsn)
    (head : S.ManifestId) : Prop :=
  src.manifestAt target = .ok (some head) ∨
    (∀ c ∈ log.commits, target < c.lsn) ∧
      (∀ m cp, log.marker = some (m, cp) → cp ≤ target) ∧ head = log.start

/-- No commit lies at or before a target whose position is zero. -/
theorem PrimaryLog.position_eq_zero_iff {src : WalSource S} (log : PrimaryLog src)
    {target : Lsn} : log.position target = 0 ↔ ∀ c ∈ log.commits, target < c.lsn := by
  constructor
  · intro hzero c hc
    obtain ⟨j, hj⟩ := List.mem_iff_getElem?.mp hc
    by_contra hle
    have hlt := (log.lt_position_iff hj).mpr (not_lt.mp hle)
    omega
  · intro hall
    by_contra hpos
    have hlt : 0 < log.commits.length := by
      have hle := log.position_le target
      omega
    have hfirst : log.commits[0]? = some log.commits[0] := List.getElem?_eq_getElem hlt
    have hle := (log.lt_position_iff hfirst).mp (Nat.pos_of_ne_zero hpos)
    exact absurd hle (not_le.mpr (hall _ (List.getElem_mem hlt)))

/-- A restore to a target is meant to end at the target's position, unless a
checkpoint has cut the log off beyond it. -/
theorem PrimaryLog.asOf_iff {src : WalSource S} (log : PrimaryLog src)
    (hS : S.ContentAddressed) (hpages : log.PagesPresent) {target : Lsn} {head : S.ManifestId} :
    log.AsOf target head ↔
      log.heads[log.position target]? = some head ∧
        ∀ m cp, log.marker = some (m, cp) → cp ≤ target := by
  rw [AsOf, log.manifestAt_eq hS hpages, Except.ok.injEq, ← log.position_eq_zero_iff]
  by_cases hzero : log.position target = 0
  · rw [if_pos hzero, hzero, log.ledger.getElem?_heads_zero]
    constructor
    · rintro (habsurd | ⟨-, hmarker, rfl⟩)
      · cases habsurd
      · exact ⟨rfl, hmarker⟩
    · rintro ⟨hhead, hmarker⟩
      exact .inr ⟨rfl, hmarker, (Option.some.inj hhead).symm⟩
  · rw [if_neg hzero]
    constructor
    · rintro (hhead | ⟨habsurd, -⟩)
      · refine ⟨hhead, fun m cp hmarker => ?_⟩
        -- A commit at or before the target lies above the marker.
        have hlength := log.position_le target
        have hlt : 0 < log.commits.length := by omega
        have hfirst : log.commits[0]? = some log.commits[0] := List.getElem?_eq_getElem hlt
        have hle := (log.lt_position_iff hfirst).mp (Nat.pos_of_ne_zero hzero)
        have hcp := log.marker_lt (List.getElem_mem hlt) hmarker
        exact (hcp.trans_le hle).le
      · exact absurd habsurd hzero
    · exact fun h => .inl h.1

namespace Replica

/-- A replica is not past a target when its head is the start or a commit at or
before the target. -/
theorem AtHead.notPast_iff {src : WalSource S} (log : PrimaryLog src) {k : ℕ} {r : Replica S}
    (h : AtHead log.ledger k r) (target : Lsn) :
    (∀ c ∈ log.commits, c.manifest = r.head → c.lsn ≤ target) ↔ k ≤ log.position target := by
  constructor
  · intro hall
    cases k with
    | zero => exact Nat.zero_le _
    | succ j =>
      obtain ⟨c, hc, hmanifest⟩ : ∃ c, log.commits[j]? = some c ∧ c.manifest = r.head :=
        Option.map_eq_some_iff.mp ((log.getElem?_heads_succ j).symm.trans h)
      have hle := hall c (List.mem_of_getElem? hc) hmanifest
      exact (log.lt_position_iff hc).mpr hle
  · intro hk c hmem hmanifest
    obtain ⟨j, hc⟩ := List.mem_iff_getElem?.mp hmem
    have hj : j + 1 = k := (h.manifest_iff hc).mp hmanifest.symm
    exact (log.lt_position_iff hc).mp (by omega)

/-- An `apply` of the next shipment that does not fail advances. -/
theorem AtHead.apply_ok (hS : S.Laws) {ledger : Ledger S} {k : ℕ} {r r' : Replica S}
    (h : AtHead ledger k r) {c : Commit S} (hc : ledger.commits[k]? = some c) {s : Shipment S}
    (hs : Carries s c) {faults : Faults S} {applied : Applied}
    (hok : r.apply faults s = (.ok applied, r')) : AtHead ledger (k + 1) r' := by
  have houtcome := apply_outcome hS faults r s
  rw [hok] at houtcome
  cases houtcome with
  | present hhead =>
    have hk : k + 1 = k := (h.manifest_iff hc).mp (hhead.trans hs.manifest)
    omega
  | advanced _ _ _ _ hgot =>
    have hposition := ledger.getElem?_heads_manifest hc
    exact hposition.trans (congrArg some (hgot.trans hs.manifest).symm)

/-- The restore loop, from the `k`-th head: it ends at the target's position when
that is ahead, and does nothing when it is not. -/
theorem AtHead.applyUpTo (hS : S.Laws) {src : WalSource S} (log : PrimaryLog src)
    (faults : Lsn → Faults S) (target : Lsn) {k : ℕ} {r : Replica S}
    (h : AtHead log.ledger k r) {shipments : List (Shipment S)}
    (hcarries : List.Forall₂ (fun c s => Carries s c) (log.commits.drop k) shipments) :
    (log.position target ≤ k → Replica.applyUpTo faults target r shipments = (.ok (), r)) ∧
      (k ≤ log.position target → ∀ r', Replica.applyUpTo faults target r shipments =
        (.ok (), r') → AtHead log.ledger (log.position target) r') := by
  induction shipments generalizing k r with
  | nil =>
    refine ⟨fun _ => rfl, fun hk r' hr' => ?_⟩
    have hlength : log.commits.length ≤ k :=
      List.drop_eq_nil_iff.mp (List.forall₂_nil_right_iff.mp hcarries)
    have hle := log.position_le target
    obtain rfl : k = log.position target := by omega
    obtain rfl : r = r' := congrArg Prod.snd hr'
    exact h
  | cons s shipments ih =>
    obtain ⟨c, hc, hs, hrest⟩ := Positions.forall₂_drop_cons hcarries
    have hposition : k < log.position target ↔ c.lsn ≤ target := log.lt_position_iff hc
    rw [Replica.applyUpTo]
    by_cases htarget : target < s.commitLsn
    · rw [if_pos htarget]
      rw [hs.commitLsn] at htarget
      have hle : log.position target ≤ k := by
        by_contra hlt
        exact absurd (hposition.mp (not_le.mp hlt)) (not_le.mpr htarget)
      refine ⟨fun _ => rfl, fun hk r' hr' => ?_⟩
      obtain rfl : k = log.position target := by omega
      obtain rfl : r = r' := congrArg Prod.snd hr'
      exact h
    · rw [if_neg htarget]
      rw [hs.commitLsn] at htarget
      have hlt : k < log.position target := hposition.mpr (not_lt.mp htarget)
      refine ⟨fun hle => absurd hlt (not_lt.mpr hle), fun _ r' hr' => ?_⟩
      rcases hstep : r.apply (faults s.commitLsn) s with ⟨e | applied, r₁⟩
      · simp [hstep] at hr'
      · simp only [hstep] at hr'
        exact (ih (h.apply_ok hS hc hs hstep) hrest).2 hlt r' hr'

/-- What a restore from the `k`-th head does, when the pages are there: nothing if
the target's position is not ahead, and otherwise it ends there unless it fails. -/
theorem AtHead.restoreTo (hS : S.Laws) {p : Primary S} (faults : Lsn → Faults S) (target : Lsn)
    {k : ℕ} {r : Replica S} (h : AtHead p.log.ledger k r) :
    (p.log.position target ≤ k → r.restoreTo faults p.src target = (.ok (), r)) ∧
      (k ≤ p.log.position target → ∀ r', r.restoreTo faults p.src target = (.ok (), r') →
        AtHead p.log.ledger (p.log.position target) r') := by
  obtain ⟨start, shipments, hresume, hshipments, hcarries⟩ := h.shipments hS
  simp only [Replica.restoreTo, hresume, hshipments]
  exact h.applyUpTo hS p.log faults target hcarries

/-- Without the pages of its log, a source fails every restore. -/
theorem restoreTo_of_not_pagesPresent (hS : S.Laws) {src : WalSource S} (log : PrimaryLog src)
    (hpages : ¬log.PagesPresent) (faults : Lsn → Faults S) (r : Replica S) (target : Lsn) :
    ∃ e, (r.restoreTo faults src target).1 = .error e := by
  have hship : ∃ e, src.shipmentsFrom 0 = .error e := by
    cases h : src.shipmentsFrom 0 with
    | error e => exact ⟨e, rfl⟩
    | ok shipments =>
      exact absurd (log.pagesPresent_of_shipmentsFrom_zero hS.toContentAddressed h) hpages
  obtain ⟨e, hship⟩ := hship
  by_cases hstart : r.store.head = log.start
  · have hresume : src.resumeAfter r.store.head = .ok 0 := by
      simp [WalSource.resumeAfter, log.startHead_eq, hstart, bind, Except.bind, pure, Except.pure]
    exact ⟨e, by simp only [restoreTo, hresume, hship]⟩
  · have hresume : src.resumeAfter r.store.head = .error e := by
      simp [WalSource.resumeAfter, log.startHead_eq, hstart, hship, bind, Except.bind]
    exact ⟨e, by simp only [restoreTo, hresume]⟩

/-- **When a restore that succeeds is exact.** It is when the replica is not past
the target and no checkpoint lies beyond it; otherwise the call succeeds and leaves
the replica where it was, except that a source without its pages fails it. -/
theorem restoreTo_exact_iff (hS : S.Laws) {src : WalSource S} (log : PrimaryLog src)
    {r : Replica S} (hhead : r.head ∈ log.heads) (faults : Lsn → Faults S) (target : Lsn) :
    ((r.restoreTo faults src target).1 = .ok () →
      log.AsOf target (r.restoreTo faults src target).2.head) ↔
    ¬log.PagesPresent ∨
      (∀ c ∈ log.commits, c.manifest = r.head → c.lsn ≤ target) ∧
        ∀ m cp, log.marker = some (m, cp) → cp ≤ target := by
  by_cases hpages : log.PagesPresent
  · obtain ⟨k, hk⟩ := List.mem_iff_getElem?.mp hhead
    let p : Primary S := ⟨src, log, hpages⟩
    have hatHead : AtHead p.log.ledger k r := hk
    obtain ⟨hbehind, hahead⟩ := hatHead.restoreTo hS faults target
    rw [hatHead.notPast_iff log target, log.asOf_iff hS.toContentAddressed hpages]
    by_cases hcond : k ≤ log.position target ∧ ∀ m cp, log.marker = some (m, cp) → cp ≤ target
    · refine iff_of_true (fun hok => ⟨?_, hcond.2⟩) (.inr hcond)
      exact hahead hcond.1 _ (Prod.ext hok rfl)
    · -- The target's position is not ahead, so the call succeeds without moving.
      have hle : log.position target ≤ k := by
        by_cases hk : k ≤ log.position target
        · have hmarker : ¬∀ m cp, log.marker = some (m, cp) → cp ≤ target :=
            fun hmarker => hcond ⟨hk, hmarker⟩
          push Not at hmarker
          obtain ⟨m, cp, hmarker, hbeyond⟩ := hmarker
          have hzero : log.position target = 0 := log.position_eq_zero_iff.mpr fun c hc =>
            hbeyond.trans (log.marker_lt hc hmarker)
          omega
        · omega
      have hresult : r.restoreTo faults src target = (.ok (), r) := hbehind hle
      rw [hresult]
      refine iff_of_false (fun h => hcond ?_) ?_
      · obtain ⟨hhead', hmarker⟩ := h rfl
        have hsame : log.position target = k := log.ledger.heads_position hhead' hk
        exact ⟨hsame.ge, hmarker⟩
      · rintro (habsurd | habsurd)
        · exact habsurd hpages
        · exact hcond habsurd
  · obtain ⟨e, herror⟩ := restoreTo_of_not_pagesPresent hS log hpages faults r target
    refine iff_of_true (fun hok => ?_) (.inl hpages)
    rw [herror] at hok
    cases hok

/-- A fresh replica restores to the log's first commit. -/
theorem restoreTo_exact_iff_fresh :
    Memory.twoCommitLog.AsOf 1 ((Memory.freshReplica Memory.twoCommits).restoreTo
      (fun _ => .none) (Memory.source Memory.twoCommits [[7], [8]]) 1).2.head := by
  have hhead : (Memory.freshReplica Memory.twoCommits).head ∈ Memory.twoCommitLog.heads :=
    List.mem_of_getElem? Memory.twoCommitLog.ledger.getElem?_heads_zero
  have hiff := restoreTo_exact_iff (Memory.laws _) Memory.twoCommitLog hhead (fun _ => .none) 1
  refine hiff.mpr (.inr ⟨fun c hc hmanifest => ?_, fun m cp hmarker => ?_⟩) ?_
  · rcases List.mem_cons.mp hc with rfl | hc
    · exact le_rfl
    · obtain rfl := List.mem_singleton.mp hc
      cases hmanifest
  · cases hmarker
  · have hresume : (Memory.source Memory.twoCommits [[7], [8]]).resumeAfter [] = .ok 0 := rfl
    have hhead : (Memory.freshReplica Memory.twoCommits).store.head = [] := rfl
    simp only [restoreTo, hhead, hresume, Memory.shipmentsFrom_twoCommits]
    rfl

/-- A replica that has followed the log of two commits to its end. -/
def followed : Replica (memory Memory.twoCommits) :=
  (run applyPlain (Memory.freshReplica Memory.twoCommits)
    [Memory.firstShipment, Memory.secondShipment]).2

/-- A replica past the target is told it was restored and stays where it was. -/
theorem restoreTo_past_target :
    let src := Memory.source Memory.twoCommits [[7], [8]]
    src.manifestAt 1 = .ok (some Memory.firstHead) ∧
      followed.head ∈ Memory.twoCommitLog.heads ∧
      followed.restoreTo (fun _ => .none) src 1 = (.ok (), followed) ∧
      followed.head = Memory.secondHead ∧ Memory.secondHead ≠ Memory.firstHead := by
  have hresume : (Memory.source Memory.twoCommits [[7], [8]]).resumeAfter Memory.secondHead =
      .ok 4 := by
    simp only [WalSource.resumeAfter, Memory.twoCommitLog.startHead_eq,
      Memory.shipmentsFrom_twoCommits]
    rfl
  have hhead : followed.store.head = Memory.secondHead := rfl
  have hrest : (Memory.source Memory.twoCommits [[7], [8]]).shipmentsFrom 4 = .ok [] := by
    rw [Memory.twoCommitLog.shipmentsFrom_eq]
    rfl
  refine ⟨?_, by decide, ?_, hhead, by decide⟩
  · simp only [WalSource.manifestAt, Memory.shipmentsFrom_twoCommits]
    rfl
  · simp only [restoreTo, hhead, hresume, hrest]
    rfl

end Replica

end FlockDb
