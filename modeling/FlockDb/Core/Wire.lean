import FlockDb.Core.Commits
import FlockDb.Core.Follower

/-!
# A wire between a primary and its follower

The primary's log is shipped over a wire that loses, repeats and reorders, to a follower that can
die at any call and be opened again. Each step of either keeps the two in agreement: what is on the
wire, and where the follower is, comes from commits that the primary's log ships or once did.
-/

namespace FlockDb

open Runs

variable {S : Substrate} {E : Engine} {L : Logs S} {root : S.ManifestId}

/-- A primary, the shipments on the wire, and a follower: its pool, and its process if it runs. -/
structure Replication (S : Substrate) (E : Engine) where
  primary : World S E
  wire : List (Shipment S)
  pool : Pool S
  replica : Option (ReadReplica S E)

/-- A step of the two. A shipment on the wire arrives at any time, or more than once, or never. -/
inductive ReplicationOp (S : Substrate) (E : Engine) where
  | primary (op : Op S E)
  | ship (start : Lsn)
  | open (env : Env S E)
  | deliver (place : ℕ) (faults : Faults S)
  | catchUp (faults : Lsn → Faults S)
  | restoreTo (faults : Lsn → Faults S) (kernelFaults : KernelFaults E) (target : Lsn)
  | refresh (faults : KernelFaults E)
  | query (sql : String)
  | crash

/-- A step that is not a restore of the primary's, or one that records its head. -/
def ReplicationOp.Recording : ReplicationOp S E → Prop
  | .primary op => op.Recording
  | _ => True

namespace Replication

variable (files : S.Wal → WalFiles) (n copy : String)

/-- The log of the followed database, while the primary has a handle on it. -/
def source (st : Replication S E) : Option (WalSource S) :=
  (st.primary.handles n).bind fun db => (db.walSource files st.primary.pool).toOption

/-- What a step has the replica do. -/
def request (st : Replication S E) : ReplicationOp S E → Option (ReplicaOp S E)
  | .deliver place faults => st.wire[place]?.map (.apply faults)
  | .catchUp faults => (st.source files n).map (.catchUp faults)
  | .restoreTo faults kernelFaults target =>
    (st.source files n).map fun src => .restoreTo faults kernelFaults src target
  | .refresh faults => some (.refresh faults)
  | .query sql => some (.query sql)
  | _ => none

/-- One step. A process that dies leaves its store in its pool. -/
def step (st : Replication S E) : ReplicationOp S E → Replication S E
  | .primary op => { st with primary := (st.primary.step op).2 }
  | .ship start =>
    match st.source files n with
    | none => st
    | some src =>
      match src.shipmentsFrom start with
      | .error _ => st
      | .ok shipments => { st with wire := st.wire ++ shipments }
  | .open env =>
    match st.replica with
    | some _ => st
    | none =>
      match ReadReplica.openWith env st.pool copy ⟨none, none⟩ with
      | (.error _, pool) => { st with pool }
      | (.ok r, pool) => { st with pool, replica := some r }
  | .crash =>
    match st.replica with
    | none => st
    | some r => { st with pool := st.pool.keep copy r.replica.store, replica := none }
  | op =>
    match st.replica, st.request files n op with
    | some r, some op => { st with replica := some (r.step op).2 }
    | _, _ => st

/-- One step, and what the primary's side of it tells of the followed database. -/
def tell (st : Replication S E × List (S.ManifestId × E.Content)) (op : ReplicationOp S E) :
    Unit × Replication S E × List (S.ManifestId × E.Content) :=
  ((), st.1.step files n copy op, match op with
    | .primary op => st.1.primary.tells n op ++ st.2
    | _ => st.2)

/-- A primary on an empty pool and a follower that has not been set up. -/
def start (primary follower : Pool S) : Replication S E := ⟨.start primary, [], follower, none⟩

/-- What the theorem is about: the primary rewinds nothing, and makes no fork into the name. -/
def Allows (st : Replication S E) : ReplicationOp S E → Prop
  | .primary op => op.Plain ∧ ¬World.ForksInto st.primary op n
  | _ => True

variable {files n copy}

/-- What holds of a primary and its follower. The commits that were sent are what the primary's log
ships or shipped before it started anew. -/
structure Agrees (L : Logs S) (root : S.ManifestId) (n copy : String) (st : Replication S E)
    (sent : List (Commit S)) (told : List (S.ManifestId × E.Content)) : Prop where
  told : World.Told L root n st.primary sent told
  pageSize_eq : st.pool.pageSize = st.primary.pool.pageSize
  wire : ∀ s ∈ st.wire, ∃ c ∈ sent, Carries s c
  running : ∀ r, st.replica = some r →
    (st.pool.dbs copy).isSome ∧ Live root sent st.primary.pool.pageSize r
  resting : st.replica = none → Shipped root sent (st.pool.recoveredHead copy) ∧
    (st.pool.recoveredHead copy ≠ root → S.Holds st.pool.cas (st.pool.recoveredHead copy))

variable {st : Replication S E} {sent : List (Commit S)} {told : List (S.ManifestId × E.Content)}

/-- The source of the followed database reads its log. -/
theorem Agrees.source_eq (h : Agrees L root n copy st sent told) {src : WalSource S}
    (hsrc : st.source L.files n = some src) :
    src = ⟨L.files (st.primary.pool.wal n), st.primary.pool.dbDir n ++ "/wal",
      st.primary.pool.cas, st.primary.pool.pageSize⟩ := by
  rw [source] at hsrc
  cases hdb : st.primary.handles n with
  | none =>
    rw [hdb] at hsrc
    cases hsrc
  | some db =>
    obtain ⟨rfl, -⟩ := h.told.logged.filed n db hdb
    rw [hdb, Option.bind_some, Db.walSource, h.told.logged.heads _ db hdb] at hsrc
    exact (Option.some.inj hsrc).symm

/-- What the source ships are commits of the log. -/
theorem Agrees.ships (hL : L.Laws) (hS : S.Laws) (h : Agrees L root n copy st sent told)
    {src : WalSource S} (hsrc : st.source L.files n = some src) :
    Replica.Ships src fun s => ∃ c ∈ sent, Carries s c := by
  intro start shipments hshipments s hs
  obtain rfl := h.source_eq hsrc
  set v := st.primary.pool.logView L n with hv
  set src : WalSource S := ⟨L.files (st.primary.pool.wal n), st.primary.pool.dbDir n ++ "/wal",
    st.primary.pool.cas, st.primary.pool.pageSize⟩
  have hcheckpoint : src.readCheckpoint = .ok v.marker := hL.readCheckpoint_eq _ _ _ _
  have hrecords : src.records = .ok v.records := hL.records_eq _ _ _ _
  have hstart : src.startHead = .ok (v.startHead root) :=
    hL.startHead_eq h.told.logged.root_eq n _
  have hfold : src.shipmentsFrom start =
      ((v.commits root).filter fun c => start ≤ c.lsn).mapM src.ship := by
    simp only [WalSource.shipmentsFrom, hcheckpoint, hstart, hrecords, bind, Except.bind]
    exact src.foldRecords_eq _ _ _ _ _
  have hshipped := Fallible.mapM_eq_ok_iff.mp (hfold.symm.trans hshipments)
  obtain ⟨i, hi⟩ := List.mem_iff_getElem?.mp hs
  obtain ⟨c, hc, hship⟩ := Positions.exists_of_forall₂_right hshipped hi
  exact ⟨c, h.told.ships c (List.mem_filter.mp (List.mem_of_getElem? hc)).1,
    (WalSource.carries_of_ship hS.toContentAddressed hship).1⟩

/-- What a step has the replica do comes from the log. -/
theorem Agrees.request_from (hL : L.Laws) (hS : S.Laws) (h : Agrees L root n copy st sent told)
    {op : ReplicationOp S E} {rop : ReplicaOp S E} (hop : st.request L.files n op = some rop) :
    rop.From fun s => ∃ c ∈ sent, Carries s c := by
  cases op with
  | deliver place faults =>
    obtain ⟨s, hs, rfl⟩ := Option.map_eq_some_iff.mp hop
    exact h.wire s (List.mem_of_getElem? hs)
  | catchUp faults =>
    obtain ⟨src, hsrc, rfl⟩ := Option.map_eq_some_iff.mp hop
    exact h.ships hL hS hsrc
  | restoreTo faults kernelFaults target =>
    obtain ⟨src, hsrc, rfl⟩ := Option.map_eq_some_iff.mp hop
    exact h.ships hL hS hsrc
  | refresh faults =>
    obtain rfl := Option.some.inj hop
    trivial
  | query sql =>
    obtain rfl := Option.some.inj hop
    trivial
  | _ => cases hop

/-- A replica that does something from the log agrees. -/
theorem Agrees.moved (hS : S.Laws) (h : Agrees L root n copy st sent told) {r : ReadReplica S E}
    (hr : st.replica = some r) {rop : ReplicaOp S E}
    (hop : rop.From fun s => ∃ c ∈ sent, Carries s c) :
    Agrees L root n copy { st with replica := some (r.step rop).2 } sent told where
  told := h.told
  pageSize_eq := h.pageSize_eq
  wire := h.wire
  running := by
    intro r' hr'
    obtain rfl := Option.some.inj hr'
    obtain ⟨hsome, hlive⟩ := h.running r hr
    exact ⟨hsome, hlive.step hS h.told.derived hop⟩
  resting := fun hnone => by cases hnone

/-- A step of the replica on what arrives agrees. -/
theorem Agrees.requested (hL : L.Laws) (hS : S.Laws) (h : Agrees L root n copy st sent told)
    (op : ReplicationOp S E) :
    Agrees L root n copy (match st.replica, st.request L.files n op with
      | some r, some op => { st with replica := some (r.step op).2 }
      | _, _ => st) sent told := by
  cases hr : st.replica with
  | none => exact h
  | some r =>
    cases hop : st.request L.files n op with
    | none => exact h
    | some rop => exact h.moved hS hr (h.request_from hL hS hop)

/-- A step of the primary agrees. -/
theorem Agrees.primary (hL : L.Laws) (hS : S.Laws) (hE : E.Laws)
    (h : Agrees L root n copy st sent told) {op : Op S E} (hrecords : op.Recording) :
    Agrees L root n copy { st with primary := (st.primary.step op).2 }
      ((st.primary.step op).2.commits L root n ++ sent) (st.primary.tells n op ++ told) := by
  have hsubset : ∀ c ∈ sent, c ∈ (st.primary.step op).2.commits L root n ++ sent :=
    fun c hc => List.mem_append_right _ hc
  have hpageSize : (st.primary.step op).2.pool.pageSize = st.primary.pool.pageSize :=
    (World.onward_step hS st.primary op).pageSize_eq
  refine ⟨h.told.step hL hS hE hrecords, h.pageSize_eq.trans hpageSize.symm, fun s hs => ?_,
    fun r hr => ?_, fun hr => ?_⟩
  · obtain ⟨c, hc, hcarries⟩ := h.wire s hs
    exact ⟨c, hsubset c hc, hcarries⟩
  · obtain ⟨hsome, hopts, hfollows, hvisible, hholds⟩ := h.running r hr
    refine ⟨hsome, hopts, ⟨hfollows.pageSize_eq.trans hpageSize.symm, hfollows.durable,
      hfollows.complete, hfollows.shipped.mono hsubset⟩, hvisible.mono hsubset, hholds⟩
  · obtain ⟨hshipped, hholds⟩ := h.resting hr
    exact ⟨hshipped.mono hsubset, hholds⟩

/-- A store that resolves the root has all of it. -/
theorem holds_root (hS : S.ContentAddressed) {cas : S.Cas} {pageSize : ℕ}
    (hroot : S.emptyRoot pageSize = .ok root) {pages : PageMap S.PageId}
    (hresolve : S.resolve cas root = .ok pages) : S.Holds cas root := by
  obtain rfl := hS.eq_pageMap_of_resolve hresolve
  refine ⟨hresolve, fun hpage => ?_⟩
  rw [hS.pageMap_emptyRoot hroot] at hpage
  simp at hpage

/-- Opening the follower agrees. -/
theorem Agrees.open (hS : S.Laws) (h : Agrees L root n copy st sent told) (hr : st.replica = none)
    (env : Env S E) :
    Agrees L root n copy (match ReadReplica.openWith env st.pool copy ⟨none, none⟩ with
      | (.error _, pool) => { st with pool }
      | (.ok r, pool) => { st with pool, replica := some r }) sent told := by
  obtain ⟨hshipped, hholds⟩ := h.resting hr
  obtain ⟨hbeside, hleft, hok⟩ :=
    ReadReplica.openWith_cases hS.toRecovers env st.pool copy ⟨none, none⟩
  rcases hopened : ReadReplica.openWith env st.pool copy ⟨none, none⟩ with ⟨e | r, pool⟩
  all_goals
    rw [hopened] at hbeside hleft hok
    simp only
  · refine ⟨h.told, hbeside.pageSize_eq.trans h.pageSize_eq, h.wire, fun r hr' => ?_, fun _ => ?_⟩
    · rw [hr] at hr'
      cases hr'
    · rw [hleft]
      exact ⟨hshipped, fun hne => (hholds hne).grows hbeside.grows⟩
  · obtain ⟨hsome, hopts, hvisible, hstore, hkernel⟩ := hok r rfl
    have hhead : r.replica.head = st.pool.recoveredHead copy := congrArg DurableStore.head hstore
    have hcas : r.replica.store.pager.cas = pool.cas := congrArg (·.pager.cas) hstore
    have hcomplete : r.replica.Complete := by
      rw [Replica.Complete, hhead, hcas]
      by_cases hroot : st.pool.recoveredHead copy = root
      · obtain ⟨pages, -, -, -, hresolve, -⟩ := DuckDbKernel.hydrates_of_open hkernel
        rw [hstore] at hresolve
        rw [hroot]
        exact holds_root hS.toContentAddressed h.told.logged.root_eq (hroot ▸ hresolve)
      · exact (hholds hroot).grows hbeside.grows
    refine ⟨h.told, hbeside.pageSize_eq.trans h.pageSize_eq, h.wire, fun r' hr' => ?_,
      fun hnone => by cases hnone⟩
    obtain rfl := Option.some.inj hr'
    have hfollows : Follows root sent st.primary.pool.pageSize r.replica := by
      refine ⟨?_, ?_, hcomplete, hhead.symm ▸ hshipped⟩
      · rw [hstore]
        exact hbeside.pageSize_eq.trans h.pageSize_eq
      · rw [Replica.Durable, hhead, hstore]
        exact hleft
    exact ⟨hsome, hopts, hfollows, hvisible.symm ▸ hfollows.shipped, hvisible.symm ▸ hcomplete⟩

/-- A follower whose process dies agrees: its pool recovers the head that its store had. -/
theorem Agrees.crash (h : Agrees L root n copy st sent told) {r : ReadReplica S E}
    (hr : st.replica = some r) :
    Agrees L root n copy { st with pool := st.pool.keep copy r.replica.store, replica := none }
      sent told := by
  obtain ⟨hsome, -, ⟨hpageSize, hdurable, hcomplete, hshipped⟩, -⟩ := h.running r hr
  have hhead : (st.pool.keep copy r.replica.store).recoveredHead copy = r.replica.head := by
    rw [Pool.recoveredHead, Pool.wal_keep hsome, ← hdurable]
    change S.recovered st.pool.pageSize _ = S.recovered r.replica.store.pager.pageSize _
    rw [hpageSize, h.pageSize_eq]
  refine ⟨h.told, h.pageSize_eq, h.wire, fun r' hr' => (by cases hr'), fun _ => ?_⟩
  rw [hhead]
  exact ⟨hshipped, fun _ => hcomplete⟩

/-- A step agrees. What it adds to the commits that were sent is in the log after it. -/
theorem Agrees.step (hL : L.Laws) (hS : S.Laws) (hE : E.Laws)
    (h : Agrees L root n copy st sent told) {op : ReplicationOp S E} (hrecords : op.Recording) :
    ∃ sent', (∀ c ∈ sent',
        c ∈ (tell L.files n copy (st, told) op).2.1.primary.commits L root n ∨ c ∈ sent) ∧
      Agrees L root n copy (tell L.files n copy (st, told) op).2.1 sent'
        (tell L.files n copy (st, told) op).2.2 := by
  have hkept {st' : Replication S E} (h' : Agrees L root n copy st' sent told) :
      ∃ sent', (∀ c ∈ sent', c ∈ st'.primary.commits L root n ∨ c ∈ sent) ∧
        Agrees L root n copy st' sent' told := ⟨sent, fun c hc => .inr hc, h'⟩
  cases op with
  | primary op => exact ⟨_, fun c => List.mem_append.mp, h.primary hL hS hE hrecords⟩
  | ship start =>
    refine hkept ?_
    simp only [tell, Replication.step]
    cases hsrc : st.source L.files n with
    | none => exact h
    | some src =>
      simp only
      cases hshipments : src.shipmentsFrom start with
      | error e => exact h
      | ok shipments =>
        refine ⟨h.told, h.pageSize_eq, fun s hs => ?_, h.running, h.resting⟩
        rcases List.mem_append.mp hs with hs | hs
        · exact h.wire s hs
        · exact h.ships hL hS hsrc start shipments hshipments s hs
  | «open» env =>
    refine hkept ?_
    simp only [tell, Replication.step]
    cases hr : st.replica with
    | some r => exact h
    | none =>
      have hopen := h.open hS hr env
      rw [hr] at hopen
      exact hopen
  | crash =>
    refine hkept ?_
    simp only [tell, Replication.step]
    cases hr : st.replica with
    | none => exact h
    | some r => exact h.crash hr
  | deliver place faults => exact hkept (h.requested hL hS (.deliver place faults))
  | catchUp faults => exact hkept (h.requested hL hS (.catchUp faults))
  | restoreTo faults kernelFaults target =>
    exact hkept (h.requested hL hS (.restoreTo faults kernelFaults target))
  | refresh faults => exact hkept (h.requested hL hS (.refresh faults))
  | query sql => exact hkept (h.requested hL hS (.query sql))

/-- Only its own steps change a primary. -/
theorem primary_step (files : S.Wal → WalFiles) (n copy : String) (st : Replication S E)
    {op : ReplicationOp S E} (hop : ∀ op', op ≠ .primary op') :
    (st.step files n copy op).primary = st.primary := by
  cases op with
  | primary op => exact absurd rfl (hop op)
  | ship start =>
    rw [Replication.step]
    cases st.source files n with
    | none => rfl
    | some src => cases hshipments : src.shipmentsFrom start <;> simp only [hshipments]
  | «open» env =>
    rw [Replication.step]
    cases st.replica with
    | some r => rfl
    | none => rcases ReadReplica.openWith env st.pool copy ⟨none, none⟩ with ⟨e | r, pool⟩ <;> rfl
  | crash =>
    rw [Replication.step]
    cases st.replica <;> rfl
  | _ =>
    simp only [Replication.step]
    split <;> rfl

/-- An empty pool and a follower that has not been set up agree. -/
theorem agrees_start (hL : L.Laws) (hS : S.Laws) {primary follower : Pool S}
    (hempty : ∀ n, primary.dbs n = none) (hroot : S.emptyRoot primary.pageSize = .ok root)
    (hpos : 0 < primary.pageSize) (hfresh : follower.dbs copy = none)
    (hpageSize : follower.pageSize = primary.pageSize) :
    Agrees (E := E) L root n copy (start primary follower) [] [] := by
  have hnew := (Pool.recorded_of_free hL hS.toRecovers hroot (hempty n)).1
  have hhead : follower.recoveredHead copy = root := by
    rw [Pool.recoveredHead, Pool.wal, hfresh]
    exact hS.recovered_freshWal (hpageSize.symm ▸ hroot)
  refine ⟨⟨World.logged_start hL hS.toRecovers hempty hroot hpos, fun c hc => ?_,
    fun c hc => (by cases hc), fun c hc => (by cases hc), fun m content hm => (by cases hm)⟩,
    hpageSize, fun s hs => (by cases hs), fun r hr => (by cases hr),
    fun _ => ⟨.inl hhead, fun hne => absurd hhead hne⟩⟩
  have hcommits : (primary.logView L n).commits root = [] := by
    rw [hnew]
    rfl
  have hnone : c ∈ (primary.logView L n).commits root := hc
  rw [hcommits] at hnone
  cases hnone

/-- A primary that went on from an empty pool, and its follower: the log starts at the root, and
has all commits that were sent. -/
def Onward (L : Logs S) (root : S.ManifestId) (n copy : String) (st : Replication S E)
    (told : List (S.ManifestId × E.Content)) : Prop :=
  ∃ sent, Agrees L root n copy st sent told ∧ World.startHead L root st.primary n = root ∧
    ∀ c ∈ sent, c ∈ st.primary.commits L root n

/-- A primary on an empty pool is at its start. -/
theorem onward_start (hL : L.Laws) (hS : S.Laws) {primary follower : Pool S}
    (hempty : ∀ n, primary.dbs n = none) (hroot : S.emptyRoot primary.pageSize = .ok root)
    (hpos : 0 < primary.pageSize) (hfresh : follower.dbs copy = none)
    (hpageSize : follower.pageSize = primary.pageSize) :
    Onward (E := E) L root n copy (start primary follower) [] := by
  refine ⟨[], agrees_start hL hS hempty hroot hpos hfresh hpageSize, ?_, fun c hc => by cases hc⟩
  change (primary.logView L n).startHead root = root
  rw [(Pool.recorded_of_free hL hS.toRecovers hroot (hempty n)).1]
  rfl

/-- A step that rewinds nothing, and makes no fork into the name, goes on. -/
theorem Onward.step (hL : L.Laws) (hS : S.Laws) (hE : E.Laws) (h : Onward L root n copy st told)
    {op : ReplicationOp S E} (hallows : Allows n st op) :
    Onward L root n copy (tell L.files n copy (st, told) op).2.1
      (tell L.files n copy (st, told) op).2.2 := by
  obtain ⟨sent, hagrees, hstarts, hsent⟩ := h
  have hrecords : op.Recording := by
    cases op with
    | primary op => exact hallows.1.recording
    | _ => trivial
  obtain ⟨sent', hsent', hagrees'⟩ := hagrees.step hL hS hE hrecords
  have hcontinues : World.startHead L root (st.step L.files n copy op).primary n =
        World.startHead L root st.primary n ∧
      ∀ c ∈ st.primary.commits L root n,
        c ∈ (st.step L.files n copy op).primary.commits L root n := by
    cases op with
    | primary op => exact hagrees.told.logged.continues_step hL hS hE hallows.1 hallows.2
    | _ =>
      rw [primary_step L.files n copy st (by simp)]
      exact ⟨rfl, fun _ hc => hc⟩
  refine ⟨sent', hagrees', hcontinues.1.trans hstarts, fun c hc => ?_⟩
  rcases hsent' c hc with hnew | hold
  · exact hnew
  · exact hcontinues.2 c (hsent c hold)

end Replication

end FlockDb
