import FlockDb.Core.ReadReplica

/-!
# What a read replica shows over time

The manifest that queries see, the manifest the kernel was hydrated from and the head of the
store move at different times. Over any run of operations with one primary, whose log may have
been checkpointed and rewound, the queries see a manifest that the replica has stood at, and only
ever a later one of the primary's log.
-/

namespace FlockDb

open Runs

variable {S : Substrate} {E : Engine}

/-- All commits of one primary, in the order of its log. Each derives from its base, which no
later commit reaches, and no two reach the same state. A commit after a rewind starts where an
earlier one did. -/
structure Lineage (S : Substrate) where
  commits : List (Commit S)
  derived : ∀ c ∈ commits, c.Derived
  nodup : (commits.map Commit.manifest).Nodup
  moves : ∀ c ∈ commits, c.base ≠ c.manifest
  ordered : commits.Pairwise fun c c' => c.base ≠ c'.manifest

namespace Lineage

variable (lineage : Lineage S)

/-- How many commits of the log lead up to a manifest: none to one that no commit reaches. -/
def rank (m : S.ManifestId) : ℕ :=
  if m ∈ lineage.commits.map Commit.manifest then
    (lineage.commits.map Commit.manifest).idxOf m + 1
  else 0

/-- A manifest is the same as another one, or comes before it in the log. -/
def Before (m m' : S.ManifestId) : Prop := m = m' ∨ lineage.rank m < lineage.rank m'

/-- A shipment of one of the commits. -/
def Genuine (s : Shipment S) : Prop := ∃ c ∈ lineage.commits, Carries s c

/-- The order of the log is transitive. -/
theorem before_trans {m m' m'' : S.ManifestId} (h : lineage.Before m m')
    (h' : lineage.Before m' m'') : lineage.Before m m'' := by
  rcases h with rfl | hlt
  · exact h'
  · rcases h' with rfl | hlt'
    · exact .inr hlt
    · exact .inr (hlt.trans hlt')

/-- The `j`-th commit of the log reaches the manifest of rank `j + 1`. -/
theorem rank_manifest {j : ℕ} {c : Commit S} (hc : lineage.commits[j]? = some c) :
    lineage.rank c.manifest = j + 1 := by
  have hget : (lineage.commits.map Commit.manifest)[j]? = some c.manifest := by
    rw [List.getElem?_map, hc, Option.map_some]
  obtain ⟨hlt, heq⟩ := List.getElem?_eq_some_iff.mp hget
  rw [rank, if_pos (List.mem_of_getElem? hget), ← heq, lineage.nodup.idxOf_getElem]

/-- A commit starts before it ends. -/
theorem rank_base_lt {c : Commit S} (hc : c ∈ lineage.commits) :
    lineage.rank c.base < lineage.rank c.manifest := by
  obtain ⟨j, hj⟩ := List.mem_iff_getElem?.mp hc
  rw [lineage.rank_manifest hj]
  by_cases hbase : c.base ∈ lineage.commits.map Commit.manifest
  · obtain ⟨c', hc', hmanifest⟩ := List.mem_map.mp hbase
    obtain ⟨i, hi⟩ := List.mem_iff_getElem?.mp hc'
    rw [← hmanifest, lineage.rank_manifest hi]
    by_contra hge
    -- the base would be the state that this commit or a later one reaches
    rcases Nat.lt_or_ge j i with hlt | hle
    · obtain ⟨hj', rfl⟩ := List.getElem?_eq_some_iff.mp hj
      obtain ⟨hi', rfl⟩ := List.getElem?_eq_some_iff.mp hi
      exact List.pairwise_iff_getElem.mp lineage.ordered j i hj' hi' hlt hmanifest.symm
    · obtain rfl : i = j := by omega
      obtain rfl : c' = c := Option.some.inj (hi.symm.trans hj)
      exact lineage.moves c' hc hmanifest.symm
  · rw [rank, if_neg hbase]
    omega

/-- Applying a shipment of the log never moves the head back. -/
theorem before_apply (hS : S.Laws) {s : Shipment S} (hs : lineage.Genuine s) (faults : Faults S)
    (r : Replica S) : lineage.Before r.head (r.apply faults s).2.head := by
  obtain ⟨c, hc, hcarries⟩ := hs
  have houtcome := Replica.apply_outcome hS faults r s
  generalize r.apply faults s = result at houtcome
  cases houtcome with
  | present _ => exact .inl rfl
  | outOfOrder _ _ => exact .inl rfl
  | stopped _ _ _ hkept => exact .inl hkept.store.head.symm
  | diverged _ hbase _ hreplayed hgot =>
    refine absurd ?_ hgot
    rw [hreplayed.head_eq, hcarries.derived (lineage.derived c hc), ← hbase]
    rfl
  | advanced _ hbase _ _ hgot =>
    refine .inr ?_
    have hhead : (⟨_, r.clock.set s.createdAtMs, some s.commitLsn⟩ : Replica S).head = c.manifest :=
      hgot.trans hcarries.manifest
    rw [hhead, hbase, hcarries.base]
    exact lineage.rank_base_lt hc

end Lineage

/-- The commits that a log holds are those of a primary that was not rewound. -/
def PrimaryLog.lineage {src : WalSource S} (log : PrimaryLog src) : Lineage S where
  commits := log.commits
  derived := log.derived
  nodup := by
    have hstates := (List.nodup_cons.mp log.nodup).2
    rwa [List.map_map] at hstates
  moves := by
    intro c hc hsame
    obtain ⟨j, hj⟩ := List.mem_iff_getElem?.mp hc
    have hbase := log.ledger.getElem?_heads_base hj
    rw [hsame] at hbase
    have hposition := log.ledger.heads_position hbase (log.ledger.getElem?_heads_manifest hj)
    omega
  ordered := by
    refine List.pairwise_iff_getElem.mpr fun i j hi hj hlt hsame => ?_
    have hbase := log.ledger.getElem?_heads_base (List.getElem?_eq_getElem hi)
    rw [hsame] at hbase
    have hposition := log.ledger.heads_position hbase
      (log.ledger.getElem?_heads_manifest (List.getElem?_eq_getElem hj))
    omega

/-- What a source ships are commits of its log. -/
theorem PrimaryLog.ships {src : WalSource S} (log : PrimaryLog src) (hS : S.ContentAddressed) :
    Replica.Ships src log.lineage.Genuine := by
  intro start shipments hshipments s hs
  have hcarries := log.carries_of_shipmentsFrom hS hshipments
  obtain ⟨i, hi⟩ := List.mem_iff_getElem?.mp hs
  obtain ⟨c, hc, hsc⟩ := Positions.exists_of_forall₂_right hcarries hi
  exact ⟨c, (List.mem_filter.mp (List.mem_of_getElem? hc)).1, hsc⟩

namespace ReadReplica

/-- An operation with shipments of the log moves the applied head on in the log, if at all. -/
theorem before_step (hS : S.Laws) (lineage : Lineage S) (r : ReadReplica S E)
    {op : ReplicaOp S E} (hop : op.From lineage.Genuine) :
    lineage.Before r.appliedHead (r.step op).2.appliedHead :=
  step_replica (P := fun replica => lineage.Before r.appliedHead replica.head)
    (fun replica _ faults hs h =>
      lineage.before_trans h (lineage.before_apply hS hs faults replica)) hop (.inl rfl)

/-- The queries see the applied head or an earlier one, and an operation shows them the same
or a later one. -/
theorem visible_before_step (hS : S.Laws) {lineage : Lineage S} {r : ReadReplica S E}
    (h : lineage.Before r.visibleHead r.appliedHead) {op : ReplicaOp S E}
    (hop : op.From lineage.Genuine) :
    lineage.Before r.visibleHead (r.step op).2.visibleHead ∧
      lineage.Before (r.step op).2.visibleHead (r.step op).2.appliedHead := by
  have hhead := lineage.before_trans h (before_step hS lineage r hop)
  have hseen := step_seen r op
  generalize r.step op = result at hhead hseen
  cases hseen with
  | @kept _ r' _ hvisible _ =>
    have hsame : r'.visibleHead = r.visibleHead := hvisible
    exact ⟨.inl hsame.symm, hsame ▸ hhead⟩
  | queried _ => exact ⟨.inl rfl, h⟩
  | @refreshed _ r' _ hrefreshed =>
    have hsame : r'.visibleHead = r'.appliedHead := hrefreshed.visible_eq
    exact ⟨hsame ▸ hhead, .inl hsame⟩

/-- Over a run the queries see the same manifest or a later one. -/
theorem visible_before_run (hS : S.Laws) {lineage : Lineage S} {r : ReadReplica S E}
    (h : lineage.Before r.visibleHead r.appliedHead) {ops : List (ReplicaOp S E)}
    (hops : ∀ op ∈ ops, op.From lineage.Genuine) :
    lineage.Before r.visibleHead (run step r ops).2.visibleHead ∧
      lineage.Before (run step r ops).2.visibleHead (run step r ops).2.appliedHead := by
  have hstep : ∀ (r' : ReadReplica S E) op, op.From lineage.Genuine →
      lineage.Before r.visibleHead r'.visibleHead ∧
        lineage.Before r'.visibleHead r'.appliedHead →
      lineage.Before r.visibleHead (r'.step op).2.visibleHead ∧
        lineage.Before (r'.step op).2.visibleHead (r'.step op).2.appliedHead := by
    rintro r' op hop ⟨hvisible, hr'⟩
    obtain ⟨hnext, happlied⟩ := visible_before_step hS hr' hop
    exact ⟨lineage.before_trans hvisible hnext, happlied⟩
  exact run_invariant hstep hops ⟨.inl rfl, h⟩

/-- The queries see a manifest that the replica has stood at. -/
theorem visible_was_applied {r : ReadReplica S E} (h : r.visibleHead = r.appliedHead)
    (ops : List (ReplicaOp S E)) :
    ∃ before, before <+: ops ∧
      (run step r ops).2.visibleHead = (run step r before).2.appliedHead := by
  induction ops using List.reverseRecOn with
  | nil => exact ⟨[], List.prefix_rfl, h⟩
  | append_singleton ops op ih =>
    obtain ⟨before, hprefix, heq⟩ := ih
    have hseen := step_seen (run step r ops).2 op
    have hlast : (run step r (ops ++ [op])).2 = ((run step r ops).2.step op).2 := by
      rw [run_append]
      rfl
    rw [hlast]
    generalize hresult : (run step r ops).2.step op = result at hseen
    cases hseen with
    | kept _ hvisible _ =>
      exact ⟨before, hprefix.trans (List.prefix_append _ _), Eq.trans hvisible heq⟩
    | queried _ => exact ⟨before, hprefix.trans (List.prefix_append _ _), heq⟩
    | refreshed _ hrefreshed =>
      refine ⟨ops ++ [op], List.prefix_rfl, ?_⟩
      rw [hlast, hresult]
      exact hrefreshed.visible_eq

/-- What holds of the manifest that queries see, after a run. -/
structure ShowsHistory (lineage : Lineage S) (r : ReadReplica S E) (ops : List (ReplicaOp S E)) :
    Prop where
  shown : Shown (run step r ops).2
  wasApplied : ∃ before, before <+: ops ∧
    (run step r ops).2.visibleHead = (run step r before).2.appliedHead
  forward : ∀ before, before <+: ops →
    lineage.Before (run step r before).2.visibleHead (run step r ops).2.visibleHead
  moved : ∀ op : ReplicaOp S E,
    ((run step r ops).2.step op).2.visibleHead ≠ (run step r ops).2.visibleHead →
      op.Refreshes ∧ ∃ reply, ((run step r ops).2.step op).1 = .ok reply
  failed : ∀ (op : ReplicaOp S E) e, op.Refreshes → ((run step r ops).2.step op).1 = .error e →
    ((run step r ops).2.step op).2.kernel = (run step r ops).2.kernel ∧
      ((run step r ops).2.step op).2.visibleHead = (run step r ops).2.visibleHead

/-- An operation that moves the visible manifest is a refresh, or a restore, that went through,
and one that fails keeps the kernel and its manifest. -/
theorem moved_and_failed (r : ReadReplica S E) (op : ReplicaOp S E) :
    ((r.step op).2.visibleHead ≠ r.visibleHead →
      op.Refreshes ∧ ∃ reply, (r.step op).1 = .ok reply) ∧
    ∀ e, op.Refreshes → (r.step op).1 = .error e →
      (r.step op).2.kernel = r.kernel ∧ (r.step op).2.visibleHead = r.visibleHead := by
  have hseen := step_seen r op
  generalize r.step op = result at hseen
  cases hseen with
  | kept hkernel hvisible _ =>
    exact ⟨fun hmoved => absurd hvisible hmoved, fun _ _ _ => ⟨hkernel, hvisible⟩⟩
  | queried hop =>
    subst hop
    exact ⟨fun hmoved => absurd rfl hmoved, fun _ hrefreshes => hrefreshes.elim⟩
  | @refreshed reply _ hop _ => exact ⟨fun _ => ⟨hop, reply, rfl⟩, fun e _ he => by cases he⟩

/-- **What a read replica shows.** In every run of operations with the shipments of one primary,
whatever fails in it, the kernel was hydrated from the visible manifest, which the replica has
stood at; the manifest moves only in a refresh or a restore that goes through, only on in the
primary's log, and one that fails leaves it and the kernel in place. -/
theorem showsHistory (hS : S.Laws) (lineage : Lineage S) {env : Env S E} {pool pool' : Pool S}
    {dbName : String} {opts : KernelOpts} {r : ReadReplica S E}
    (hopen : openWith env pool dbName opts = (.ok r, pool')) {ops : List (ReplicaOp S E)}
    (hops : ∀ op ∈ ops, op.From lineage.Genuine) : ShowsHistory lineage r ops := by
  have hvisible : r.visibleHead = r.appliedHead := (hydrated_of_openWith hopen).1
  refine ⟨shown_run hS (shown_of_openWith hopen) ops, visible_was_applied hvisible ops, ?_,
    fun op => (moved_and_failed _ op).1, fun op => (moved_and_failed _ op).2⟩
  rintro before ⟨after, rfl⟩
  rw [run_append]
  have hbefore : ∀ op ∈ before, op.From lineage.Genuine := fun op hop => hops op (by simp [hop])
  have hafter : ∀ op ∈ after, op.From lineage.Genuine := fun op hop => hops op (by simp [hop])
  have happlied := (visible_before_run hS (.inl hvisible) hbefore).2
  exact (visible_before_run hS happlied hafter).1

/-- The shipment of a commit that sets page 0 to a database file of one row. -/
def oneRow : Shipment (memory []) where
  base := []
  manifest := [⟨[(0, some [0, 7])], 10⟩]
  commitLsn := 1
  createdAtMs := 10
  writes := [⟨0, some [0, 7]⟩]
  pages := [⟨[0, 7], [0, 7]⟩]

/-- The log of that commit. -/
def oneRowLineage : Lineage (memory []) where
  commits := [⟨[], oneRow.manifest, 1, 10, oneRow.changes⟩]
  derived := by
    intro c hc
    obtain rfl := List.mem_singleton.mp hc
    decide
  nodup := List.nodup_singleton _
  moves := by
    intro c hc
    obtain rfl := List.mem_singleton.mp hc
    decide
  ordered := List.pairwise_singleton _ _

/-- A new read replica applies the commit, and shows it after a refresh. -/
theorem showsHistory_oneRow :
    let ops : List (ReplicaOp (memory []) memoryEngine) :=
      [.apply .none oneRow, .query "SELECT", .refresh .none]
    ShowsHistory oneRowLineage follower ops ∧
      (run step follower ops).2.visibleHead = oneRow.manifest := by
  intro ops
  have hintact : oneRow.Intact := by
    intro w hw id hid
    obtain rfl := List.mem_singleton.mp hw
    obtain rfl : [0, 7] = id := Option.some.inj hid
    exact ⟨[0, 7], rfl, rfl⟩
  have hgenuine : oneRowLineage.Genuine oneRow :=
    ⟨_, List.mem_singleton_self _, rfl, rfl, rfl, rfl, rfl, hintact⟩
  obtain ⟨pool, hopen⟩ := openWith_followerPool
  refine ⟨showsHistory (Memory.laws []) oneRowLineage hopen fun op hop => ?_, rfl⟩
  simp only [ops, List.mem_cons, List.not_mem_nil, or_false] at hop
  rcases hop with rfl | rfl | rfl
  · exact hgenuine
  · trivial
  · trivial

end ReadReplica

end FlockDb
