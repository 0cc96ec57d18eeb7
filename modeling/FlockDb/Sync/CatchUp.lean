import FlockDb.Sync.Following

/-!
# Catching up

`catch_up` asks the source where the replica's head stands in the log and applies
the rest. From the `k`-th head it applies the commits after the `k`-th, in order,
and stops at the last head. A run of catch-ups, restarts and further commits of
the primary applies every commit past the first head once.
-/

namespace FlockDb

open Runs

variable {S : Substrate}

/-- A primary whose store has the pages of its log. -/
structure Primary (S : Substrate) where
  src : WalSource S
  log : PrimaryLog src
  pagesPresent : log.PagesPresent

/-- A primary later on: the same start, and further commits. -/
structure Primary.Extends (p p' : Primary S) : Prop where
  start : p'.log.start = p.log.start
  commits : p.log.commits <+: p'.log.commits

/-- Further commits leave every head where it was. -/
theorem Primary.Extends.getElem?_heads {p p' : Primary S} (h : p.Extends p') {k : ℕ}
    {m : S.ManifestId} (hm : p.log.heads[k]? = some m) : p'.log.heads[k]? = some m := by
  cases k with
  | zero =>
    rw [p.log.ledger.getElem?_heads_zero] at hm
    rw [p'.log.ledger.getElem?_heads_zero, ← hm]
    exact congrArg some h.start
  | succ k =>
    rw [PrimaryLog.getElem?_heads_succ] at hm ⊢
    obtain ⟨c, hc, rfl⟩ := Option.map_eq_some_iff.mp hm
    have hlt := (List.getElem?_eq_some_iff.mp hc).1
    have hsame := List.prefix_iff_getElem?.mp h.commits k hlt
    rw [hsame, ← List.getElem?_eq_getElem hlt, hc, Option.map_some]

namespace Replica

/-- Apply a shipment with nothing failing. -/
def applyPlain (r : Replica S) (s : Shipment S) : Except (SyncError S) Applied × Replica S :=
  r.apply .none s

/-- Catch up with nothing failing. -/
def catchUpPlain (r : Replica S) (src : WalSource S) : Except (SyncError S) ℕ × Replica S :=
  r.catchUp (fun _ => .none) src

/-- Applying the shipments of the commits from a position on advances through each
of them, in order. -/
theorem AtHead.applyAll (hS : S.Laws) {ledger : Ledger S} {k : ℕ} {r : Replica S}
    (h : AtHead ledger k r) {shipments : List (Shipment S)}
    (hcarries : List.Forall₂ (fun c s => Carries s c) (ledger.commits.drop k) shipments)
    (advanced : ℕ) :
    ∃ r', Replica.applyAll (fun _ => .none) r advanced shipments =
        (.ok (advanced + shipments.length), r') ∧
      run applyPlain r shipments = (List.replicate shipments.length (.ok .advanced), r') ∧
      AtHead ledger (k + shipments.length) r' := by
  induction shipments generalizing k r advanced with
  | nil => exact ⟨r, rfl, rfl, h⟩
  | cons s shipments ih =>
    obtain ⟨c, hc, hs, hrest⟩ := Positions.forall₂_drop_cons hcarries
    obtain ⟨hresult, hnext⟩ := h.apply_next hS hc hs (stopError_none.mpr hs.intact)
    rcases hstep : r.apply .none s with ⟨result, r₁⟩
    rw [hstep] at hresult hnext
    obtain rfl : result = .ok .advanced := hresult
    obtain ⟨r', hall, hrun, hend⟩ := ih hnext hrest (advanced + 1)
    refine ⟨r', ?_, ?_, ?_⟩
    · simp only [Replica.applyAll, hstep, if_pos, hall, List.length_cons]
      congr 2
      omega
    · have hrun' : run applyPlain r₁ shipments =
          (List.replicate shipments.length (.ok .advanced), r') := hrun
      simp only [run_cons, applyPlain, hstep] at hrun' ⊢
      rw [hrun']
      rfl
    · have hlength : k + (s :: shipments).length = k + 1 + shipments.length := by
        rw [List.length_cons]
        omega
      rw [hlength]
      exact hend

/-- A replica at the `k`-th head has caught up with a primary: how often the call
advanced, through which commits, where it ended, and what a second call does. -/
structure CatchesUp (p : Primary S) (k : ℕ) (r : Replica S) : Prop where
  result : (r.catchUpPlain p.src).1 = .ok (p.log.commits.length - k)
  applied : ∃ shipments, List.Forall₂ (fun c s => Carries s c) (p.log.commits.drop k) shipments ∧
    run applyPlain r shipments =
      (List.replicate (p.log.commits.length - k) (.ok .advanced), (r.catchUpPlain p.src).2)
  head : AtHead p.log.ledger p.log.commits.length (r.catchUpPlain p.src).2
  again : (r.catchUpPlain p.src).2.catchUpPlain p.src = (.ok 0, (r.catchUpPlain p.src).2)

/-- From the `k`-th head, the source ships the commits from `k` on. -/
theorem AtHead.shipments (hS : S.Laws) {p : Primary S} {k : ℕ} {r : Replica S}
    (h : AtHead p.log.ledger k r) :
    ∃ start shipments, p.src.resumeAfter r.store.head = .ok start ∧
      p.src.shipmentsFrom start = .ok shipments ∧
      List.Forall₂ (fun c s => Carries s c) (p.log.commits.drop k) shipments := by
  obtain ⟨start, hresume, hfilter⟩ :=
    p.log.resumeAfter_of_head hS.toContentAddressed p.pagesPresent h
  obtain ⟨shipments, hshipments⟩ := p.log.shipmentsFrom_isOk p.pagesPresent start
  have hcarries := p.log.carries_of_shipmentsFrom hS.toContentAddressed hshipments
  exact ⟨start, shipments, hresume, hshipments, hfilter ▸ hcarries⟩

/-- A position of the log is at most its length. -/
theorem AtHead.le_length {ledger : Ledger S} {k : ℕ} {r : Replica S} (h : AtHead ledger k r) :
    k ≤ ledger.commits.length := by
  have hlt : k < ledger.heads.length := (List.getElem?_eq_some_iff.mp h).1
  rw [ledger.length_heads] at hlt
  exact Nat.lt_succ_iff.mp hlt

/-- From the `k`-th head, the call applies the commits from `k` on. -/
theorem AtHead.catchUpPlain_eq (hS : S.Laws) {p : Primary S} {k : ℕ} {r : Replica S}
    (h : AtHead p.log.ledger k r) :
    ∃ shipments r', List.Forall₂ (fun c s => Carries s c) (p.log.commits.drop k) shipments ∧
      r.catchUpPlain p.src = (.ok (p.log.commits.length - k), r') ∧
      run applyPlain r shipments =
        (List.replicate (p.log.commits.length - k) (.ok .advanced), r') ∧
      AtHead p.log.ledger p.log.commits.length r' := by
  obtain ⟨start, shipments, hresume, hshipments, hcarries⟩ := h.shipments hS
  obtain ⟨r', hall, hrun, hend⟩ := h.applyAll hS hcarries 0
  have hlength : shipments.length = p.log.commits.length - k := by
    rw [← hcarries.length_eq, List.length_drop]
  refine ⟨shipments, r', hcarries, ?_, hlength ▸ hrun, ?_⟩
  · simp only [Replica.catchUpPlain, catchUp, hresume, hshipments, hall]
    rw [Nat.zero_add, hlength]
  · have hle : k ≤ p.log.commits.length := h.le_length
    rwa [hlength, Nat.add_sub_cancel' hle] at hend

/-- A replica at a head of the log catches up. -/
theorem AtHead.catchesUp (hS : S.Laws) {p : Primary S} {k : ℕ} {r : Replica S}
    (h : AtHead p.log.ledger k r) : CatchesUp p k r := by
  obtain ⟨shipments, r', hcarries, hresult, hrun, hend⟩ := h.catchUpPlain_eq hS
  obtain ⟨none, r'', hnone, hagain, hrun', -⟩ := hend.catchUpPlain_eq hS
  have hnil : none = [] := by
    rw [List.drop_length] at hnone
    exact List.forall₂_nil_left_iff.mp hnone
  subst hnil
  rw [Nat.sub_self] at hagain hrun'
  obtain rfl : r' = r'' := congrArg Prod.snd hrun'
  obtain rfl : (r.catchUpPlain p.src).2 = r' := congrArg Prod.snd hresult
  exact ⟨congrArg Prod.fst hresult, ⟨shipments, hcarries, hrun⟩, hend, hagain⟩

/-- The LSNs of the shipments that a list of shipments advances a replica through. -/
def advancedLsns : Replica S → List (Shipment S) → List Lsn
  | _, [] => []
  | r, s :: shipments =>
    let (result, r') := r.applyPlain s
    if isAdvanced result then s.commitLsn :: advancedLsns r' shipments
    else advancedLsns r' shipments

/-- The LSNs of the commits that a call of `catch_up` advances through. -/
def catchUpLsns (r : Replica S) (src : WalSource S) : List Lsn :=
  match src.resumeAfter r.store.head with
  | .error _ => []
  | .ok start =>
    match src.shipmentsFrom start with
    | .error _ => []
    | .ok shipments => r.advancedLsns shipments

/-- When every shipment advances the replica, it advances through all of them. -/
theorem advancedLsns_eq {r r' : Replica S} {shipments : List (Shipment S)}
    (h : run applyPlain r shipments =
      (List.replicate shipments.length (.ok .advanced), r')) :
    r.advancedLsns shipments = shipments.map Shipment.commitLsn := by
  induction shipments generalizing r with
  | nil => rfl
  | cons s shipments ih =>
    rw [run_cons, List.length_cons, List.replicate_succ, Prod.mk.injEq, List.cons.injEq] at h
    obtain ⟨⟨hresult, houtputs⟩, hfinal⟩ := h
    have hrest := ih (r := (r.applyPlain s).2) (Prod.ext houtputs hfinal)
    simp only [advancedLsns, hresult, isAdvanced, if_pos, hrest, List.map_cons]

/-- The LSNs a call of `catch_up` advances through are those of the commits past
the replica's head. -/
theorem AtHead.catchUpLsns_eq (hS : S.Laws) {p : Primary S} {k : ℕ} {r : Replica S}
    (h : AtHead p.log.ledger k r) :
    r.catchUpLsns p.src = (p.log.commits.drop k).map Commit.lsn := by
  obtain ⟨start, shipments, hresume, hshipments, hcarries⟩ := h.shipments hS
  obtain ⟨r', -, hrun, -⟩ := h.applyAll hS hcarries 0
  have hlsns : shipments.map Shipment.commitLsn = (p.log.commits.drop k).map Commit.lsn := by
    rw [← List.forall₂_eq_eq_eq, List.forall₂_map_left_iff, List.forall₂_map_right_iff]
    exact hcarries.flip.imp fun _ _ hs => hs.commitLsn
  simp only [catchUpLsns, hresume, hshipments]
  rw [advancedLsns_eq hrun, hlsns]

/-- A replica catching up stays durable. -/
theorem Durable.applyAll (hS : S.Laws) (faults : Lsn → Faults S) {r : Replica S} (h : Durable r)
    (advanced : ℕ) (shipments : List (Shipment S)) :
    Durable (Replica.applyAll faults r advanced shipments).2 := by
  induction shipments generalizing r advanced with
  | nil => exact h
  | cons s shipments ih =>
    have hstep := h.apply hS (faults s.commitLsn) s
    rw [Replica.applyAll]
    rcases hresult : r.apply (faults s.commitLsn) s with ⟨_ | _, r'⟩
    · rw [hresult] at hstep
      exact hstep
    · rw [hresult] at hstep
      exact ih hstep _

/-- A call of `catch_up` keeps a replica durable. -/
theorem Durable.catchUp (hS : S.Laws) (faults : Lsn → Faults S) {r : Replica S} (h : Durable r)
    (src : WalSource S) : Durable (r.catchUp faults src).2 := by
  unfold Replica.catchUp
  cases src.resumeAfter r.store.head with
  | error e => exact h
  | ok start =>
    cases hshipments : src.shipmentsFrom start with
    | error e =>
      simp only [hshipments]
      exact h
    | ok shipments =>
      simp only [hshipments]
      exact h.applyAll hS faults 0 shipments

/-- A follower's life beside its primary: catch-ups, restarts, and further commits,
with the LSNs of the commits it has advanced through so far. -/
inductive Follow (p₀ : Primary S) (r₀ : Replica S) :
    List Lsn → Primary S → Replica S → Prop
  | start : Follow p₀ r₀ [] p₀ r₀
  | commits {lsns p r p'} (h : Follow p₀ r₀ lsns p r) (hextends : p.Extends p') :
      Follow p₀ r₀ lsns p' r
  | restart {lsns p r} (h : Follow p₀ r₀ lsns p r) : Follow p₀ r₀ lsns p r.reopen
  | catchUp {lsns p r} (h : Follow p₀ r₀ lsns p r) :
      Follow p₀ r₀ (lsns ++ r.catchUpLsns p.src) p (r.catchUpPlain p.src).2

/-- Wherever a follower's life has taken it, it stands at a head of the log, and it
has advanced through exactly the commits between its first head and this one. -/
theorem Follow.position (hS : S.Laws) {p₀ : Primary S} {r₀ : Replica S} {k : ℕ}
    (hstart : AtHead p₀.log.ledger k r₀) (hdurable : Durable r₀) {lsns : List Lsn}
    {p : Primary S} {r : Replica S} (h : Follow p₀ r₀ lsns p r) :
    Durable r ∧ ∃ m, k ≤ m ∧ AtHead p.log.ledger m r ∧
      lsns = ((p.log.commits.take m).drop k).map Commit.lsn := by
  induction h with
  | start =>
    refine ⟨hdurable, k, le_rfl, hstart, ?_⟩
    simp
  | @commits lsns p r p' h hextends ih =>
    obtain ⟨hdurable, m, hkm, hhead, rfl⟩ := ih
    refine ⟨hdurable, m, hkm, hextends.getElem?_heads hhead, ?_⟩
    have hlength : m ≤ p.log.commits.length := hhead.le_length
    obtain ⟨more, hmore⟩ := hextends.commits
    rw [← hmore, List.take_append_of_le_length hlength]
  | restart h ih =>
    obtain ⟨hdurable, m, hkm, hhead, hlsns⟩ := ih
    refine ⟨durable_reopen hS _, m, hkm, ?_, hlsns⟩
    exact hhead.trans (congrArg some (hdurable.reopen_head hS).symm)
  | @catchUp lsns p r h ih =>
    obtain ⟨hdurable, m, hkm, hhead, rfl⟩ := ih
    have hlength : m ≤ p.log.commits.length := hhead.le_length
    refine ⟨hdurable.catchUp hS _ p.src, p.log.commits.length, hkm.trans hlength,
      (hhead.catchesUp hS).head, ?_⟩
    rw [hhead.catchUpLsns_eq hS, List.take_length, ← List.map_append]
    have hsplit : p.log.commits.drop k =
        (p.log.commits.take m).drop k ++ p.log.commits.drop m := by
      rw [← List.drop_append_of_le_length (by rw [List.length_take]; omega),
        List.take_append_drop]
    rw [hsplit]

/-- **Catching up applies each commit once.** From the `k`-th head of a log, the
call applies the commits after it in order and ends at the last head; at no head
of the log it refuses and changes nothing; and over any run of catch-ups, restarts
and further commits the replica stands at a head, having advanced through exactly
the commits up to it. -/
theorem catchUp_exactly_once (hS : S.Laws) :
    (∀ (p : Primary S) (r : Replica S) (k : ℕ), p.log.heads[k]? = some r.head →
      CatchesUp p k r) ∧
    (∀ (p : Primary S) (r : Replica S), r.head ∉ p.log.heads →
      r.catchUpPlain p.src = (.error (.followerUnknown (S.manifestHex r.head)), r)) ∧
    (∀ (p₀ : Primary S) (r₀ : Replica S) (k : ℕ), p₀.log.heads[k]? = some r₀.head →
      r₀.store.recoveredHead = r₀.head → ∀ lsns p r, Follow p₀ r₀ lsns p r →
      ∃ m, k ≤ m ∧ p.log.heads[m]? = some r.head ∧ CatchesUp p m r ∧
        lsns = ((p.log.commits.take m).drop k).map Commit.lsn) := by
  refine ⟨fun p r k hhead => AtHead.catchesUp hS hhead, fun p r hforeign => ?_, ?_⟩
  · have hunknown : p.src.resumeAfter r.store.head =
        .error (.followerUnknown (S.manifestHex r.head)) :=
      p.log.resumeAfter_of_foreign hS.toContentAddressed p.pagesPresent hforeign
    simp only [catchUpPlain, catchUp, hunknown]
  · intro p₀ r₀ k hhead hdurable lsns p r hfollow
    obtain ⟨-, m, hkm, hm, hlsns⟩ := hfollow.position hS hhead hdurable
    exact ⟨m, hkm, hm, AtHead.catchesUp hS hm, hlsns⟩

/-- A replica that has applied the first of the two commits. -/
def behind : Replica (memory Memory.twoCommits) :=
  ((Memory.freshReplica Memory.twoCommits).apply .none Memory.firstShipment).2

/-- A fresh replica catches up with the log of two commits by both, and a replica at the first of
them by the second. -/
theorem catchUp_exactly_once_twoCommits :
    let src := Memory.source Memory.twoCommits [[7], [8]]
    ((Memory.freshReplica Memory.twoCommits).catchUpPlain src).1 = .ok 2 ∧
      behind.head = Memory.firstHead ∧ (behind.catchUpPlain src).1 = .ok 1 ∧
      (behind.catchUpPlain src).2.head = Memory.secondHead := by
  let p : Primary (memory Memory.twoCommits) :=
    ⟨_, Memory.twoCommitLog, Memory.twoCommitLog_pagesPresent⟩
  obtain ⟨hcatches, -, -⟩ := catchUp_exactly_once (Memory.laws Memory.twoCommits)
  have hfresh := hcatches p (Memory.freshReplica Memory.twoCommits) 0 rfl
  have hbehind := hcatches p behind 1 rfl
  exact ⟨hfresh.result, rfl, hbehind.result, (Option.some.inj hbehind.head).symm⟩

end Replica

end FlockDb
