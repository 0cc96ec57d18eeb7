import FlockDb.Core.Wire

/-!
# A primary and its follower

Whatever a follower shows was a snapshot of the database it follows, and once it has caught up it
shows what the primary's own log would open with. A primary that rewinds starts its log anew. What
was shipped before is still of its snapshots, and the log refuses a follower that is nowhere in it.
-/

namespace FlockDb

open Runs

variable {S : Substrate} {E : Engine} {L : Logs S} {root : S.ManifestId}

namespace Replication

variable {n copy : String} {st : Replication S E} {sent : List (Commit S)}
  {told : List (S.ManifestId × E.Content)}

/-- What a follower has been hydrated from is a snapshot that was told, with its content. -/
theorem Agrees.shows (hS : S.Laws) (h : Agrees L root n copy st sent told) {r : ReadReplica S E}
    (hr : st.replica = some r) {conn : E.Connection} (hconn : r.Hydrated conn) :
    r.visibleHead = root ∨ (r.visibleHead, E.content conn) ∈ told := by
  obtain ⟨-, -, hfollows, hvisible, hholds⟩ := h.running r hr
  refine hvisible.imp id ?_
  rintro ⟨c, hc, hm⟩
  obtain ⟨content, hmem⟩ := h.told.contents c hc
  obtain ⟨file, hcaptures⟩ := h.told.captured _ _ hmem
  have hcontent : E.content conn = content :=
    ReadReplica.content_of_hydrates hS.toContentAddressed (hm ▸ hcaptures)
      hfollows.pageSize_eq h.told.logged.pageSize_pos hholds hconn
  have hmem' : (r.visible, content) ∈ told := hm ▸ hmem
  exact hcontent.symm ▸ hmem'

/-- What the primary's log is read as is what it holds. -/
theorem Agrees.log_commits (hL : L.Laws) (h : Agrees L root n copy st sent told)
    {src : WalSource S} (hsrc : st.source L.files n = some src) (log : PrimaryLog src) :
    log.start = World.startHead L root st.primary n ∧
      log.commits = st.primary.commits L root n := by
  obtain rfl := h.source_eq hsrc
  have hmarker := Except.ok.inj
    (log.readCheckpoint_eq.symm.trans (hL.readCheckpoint_eq _ _ _ _))
  have hrecords := Except.ok.inj (log.records_eq.symm.trans (hL.records_eq _ _ _ _))
  have hstart : log.start = (st.primary.pool.logView L n).startHead root :=
    Except.ok.inj (log.startHead_eq.symm.trans (hL.startHead_eq h.told.logged.root_eq n _))
  refine ⟨hstart, ?_⟩
  rw [PrimaryLog.commits, hmarker, hrecords, hstart]
  rfl

/-- The primary has a log to follow while it has a handle on the database, with every page of it. -/
theorem Agrees.walSource (hL : L.Laws) (h : Agrees L root n copy st sent told) {db : Db S E}
    (hdb : st.primary.handles n = some db) :
    ∃ src, db.walSource L.files st.primary.pool = .ok src ∧ st.source L.files n = some src ∧
      ∀ log : PrimaryLog src, log.PagesPresent := by
  obtain ⟨rfl, -⟩ := h.told.logged.filed n db hdb
  have hstore := h.told.logged.heads _ db hdb
  have hwalSource : db.walSource L.files st.primary.pool =
      .ok ⟨L.files (st.primary.pool.wal db.name), st.primary.pool.dbDir db.name ++ "/wal",
        st.primary.pool.cas, st.primary.pool.pageSize⟩ := by
    rw [Db.walSource, hstore]
  have hsrc : st.source L.files db.name = some
      ⟨L.files (st.primary.pool.wal db.name), st.primary.pool.dbDir db.name ++ "/wal",
        st.primary.pool.cas, st.primary.pool.pageSize⟩ := by
    rw [source, hdb, Option.bind_some, hwalSource]
    rfl
  refine ⟨_, hwalSource, hsrc, fun log c hc => ?_⟩
  rw [(h.log_commits hL hsrc log).2] at hc
  exact (h.told.logged.logs db.name).pages c hc

/-- A call that catches up brings a follower to the head of the primary, and a refresh then to the
content that the primary would open with. -/
def BroughtUp (pool : Pool S) (n : String) (db : Db S E) (src : WalSource S)
    (r : ReadReplica S E) : Prop :=
  ∃ advanced r', r.catchUp (fun _ => .none) src = (.ok advanced, r') ∧ r'.appliedHead = db.head ∧
    ∀ content, pool.Stands (E := E) n content →
      (r'.refresh .none).1 = .ok () ∧
        ∀ faults r'', r'.refresh faults = (.ok (), r'') → E.content r''.kernel.conn = content

/-- A follower at a head of the log is brought up. -/
theorem Agrees.broughtUp (hL : L.Laws) (hS : S.Laws) (h : Agrees L root n copy st sent told)
    {r : ReadReplica S E} (hr : st.replica = some r) {db : Db S E}
    (hdb : st.primary.handles n = some db) {src : WalSource S}
    (hsrc : st.source L.files n = some src) (log : PrimaryLog src) (hpages : log.PagesPresent)
    (hon : r.appliedHead ∈ log.heads) : BroughtUp st.primary.pool n db src r := by
  obtain ⟨rfl, -⟩ := h.told.logged.filed n db hdb
  have hstore := h.told.logged.heads _ db hdb
  have hrecorded := h.told.logged.logs db.name
  obtain ⟨hstart, hcommits⟩ := h.log_commits hL hsrc log
  obtain ⟨-, hopts, hfollows, -⟩ := h.running r hr
  let p : Primary S := ⟨src, log, hpages⟩
  obtain ⟨k, hk⟩ := List.mem_iff_getElem?.mp hon
  have hat : r.replica.AtHead p.log.ledger k := hk
  obtain ⟨shipments, replica, -, hcaught, -, hend⟩ := hat.catchUpPlain_eq hS
  rw [Replica.catchUpPlain] at hcaught
  -- It ends at the last commit, where the primary's own log leads.
  have hhead : replica.head = st.primary.pool.recoveredHead db.name := by
    have hlast := hend.symm.trans p.log.ledger.getElem?_heads_length
    refine (Option.some.inj hlast).trans (Eq.trans ?_ hrecorded.leads.head_eq)
    exact congrArg₂ headAfter hstart hcommits
  have hfollows' : Follows root sent st.primary.pool.pageSize replica := by
    have hkept := Replica.catchUp_invariant
      (fun _ _ faults hs hfollows => Follows.apply hS h.told.derived faults hs hfollows)
      (fun _ => .none) (h.ships hL hS hsrc) hfollows
    rwa [hcaught] at hkept
  refine ⟨p.log.commits.length - k, { r with replica }, ?_, ?_, ?_⟩
  · rw [ReadReplica.catchUp, hcaught]
  · rw [ReadReplica.appliedHead, hhead, Db.head, hstore]
    rfl
  rintro content ⟨conn, hopens, hcontent⟩
  have hopens' :
      HeadOpens st.primary.pool.cas replica.store.pager.pageSize replica.head conn := by
    rw [hfollows'.pageSize_eq, hhead]
    exact hopens
  have hhydrates : DuckDbKernel.Hydrates ReadReplica.pageStore replica.store ⟨none, none⟩
      replica.head conn :=
    ReadReplica.hydrates_of_headOpens hS.toContentAddressed hopens' hfollows'.complete
  obtain ⟨hok, hcontents⟩ :=
    ReadReplica.refresh_of_hydrates (r := { r with replica }) hopts hhydrates
  exact ⟨hok, fun faults r'' hrefreshed => (hcontents faults r'' hrefreshed).trans hcontent⟩

/-- **A follower shows what its primary had.** A primary runs on an empty pool, rewinds nothing and
forks nothing into the name of the followed database. The follower is new, with pages of the
primary's size. Shipments arrive late, twice, out of order or never; the follower reads the log at
any time, dies at any call and is opened again. At any time what its kernel was hydrated from is
the empty database or a snapshot of the primary's that was taken, with what that held. And whenever
the log is in order, a call that catches up and a refresh bring the follower to the head of the
primary, and to the content that the primary would open with. -/
theorem follows_of_run (hL : L.Laws) (hS : S.Laws) (hE : E.Laws) {primary follower : Pool S}
    (hempty : ∀ n, primary.dbs n = none) (hroot : S.emptyRoot primary.pageSize = .ok root)
    (hpos : 0 < primary.pageSize) (hfresh : follower.dbs copy = none)
    (hpageSize : follower.pageSize = primary.pageSize) {ops : List (ReplicationOp S E)}
    (hallows : Along (tell L.files n copy) (fun st op => Allows n st.1 op)
      (start primary follower, []) ops) :
    let (st, told) := (run (tell L.files n copy)
      ((start primary follower, []) : Replication S E × List (S.ManifestId × E.Content)) ops).2
    ∀ r, st.replica = some r →
      (∀ conn, r.Hydrated conn →
        r.visibleHead = root ∨ (r.visibleHead, E.content conn) ∈ told) ∧
      ∀ db, st.primary.handles n = some db →
        ∃ src, db.walSource L.files st.primary.pool = .ok src ∧
          ∀ _ : PrimaryLog src, BroughtUp st.primary.pool n db src r := by
  have hstart : Onward (E := E) L root n copy (start primary follower) [] :=
    onward_start hL hS hempty hroot hpos hfresh hpageSize
  have honward := @run_invariant_along _ _ _ (tell L.files n copy)
    (fun st => Onward L root n copy st.1 st.2) _
    (fun st op hallows h => h.step hL hS hE hallows) _ _ hallows hstart
  generalize (run (tell L.files n copy) (start primary follower, []) ops).2 = reached
    at honward ⊢
  obtain ⟨st, told⟩ := reached
  obtain ⟨sent, hagrees, hstarts, hsent⟩ := honward
  refine fun r hr => ⟨fun conn hconn => hagrees.shows hS hr hconn, fun db hdb => ?_⟩
  obtain ⟨src, hwalSource, hsrc, hpages⟩ := hagrees.walSource hL hdb
  refine ⟨src, hwalSource, fun log => hagrees.broughtUp hL hS hr hdb hsrc log (hpages log) ?_⟩
  -- A log that never started anew has every head that a follower can be at.
  obtain ⟨hstart, hcommits⟩ := hagrees.log_commits hL hsrc log
  obtain ⟨-, -, hfollows, -⟩ := hagrees.running r hr
  rcases hfollows.shipped with hhead | ⟨c, hc, hm⟩
  · refine List.mem_of_getElem? (i := 0) ?_
    rw [log.ledger.getElem?_heads_zero]
    exact congrArg some (hstart.trans (hstarts.trans hhead.symm))
  · obtain ⟨i, hi⟩ := List.mem_iff_getElem?.mp (hcommits ▸ hsent c hc)
    refine List.mem_of_getElem? (i := i + 1) ?_
    rw [log.getElem?_heads_succ, hi, Option.map_some, hm]
    rfl

/-- A follower at no head of the log is refused, and nothing of it changes. -/
theorem catchUp_of_strayed (hS : S.ContentAddressed) {src : WalSource S} (log : PrimaryLog src)
    (hpages : log.PagesPresent) {r : ReadReplica S E} (hoff : r.appliedHead ∉ log.heads) :
    r.catchUp (fun _ => .none) src =
      (.error (.sync "catch up to the primary" (.followerUnknown (S.manifestHex r.appliedHead))),
        r) := by
  have hunknown : src.resumeAfter r.replica.store.head =
      .error (.followerUnknown (S.manifestHex r.appliedHead)) :=
    log.resumeAfter_of_foreign hS hpages hoff
  simp only [ReadReplica.catchUp, Replica.catchUp, hunknown]

/-- **A follower of a primary that rewinds.** The primary does anything now: it restores earlier
snapshots, sleeps, and forks into the name of the followed database, each of which starts a log
anew; only its restores get the head recorded that they moved. The follower is new, with pages of
the primary's size, and whatever was shipped before arrives at any time. What the follower's kernel
was hydrated from is still the empty database or a snapshot of the followed database that was
taken, with what that held. And whenever the log is in order, a call that catches up brings a
follower that stands at a head of the log to the primary's head and content, and refuses any other
one and leaves it as it was. -/
theorem catches_up_or_strays (hL : L.Laws) (hS : S.Laws) (hE : E.Laws) {primary follower : Pool S}
    (hempty : ∀ n, primary.dbs n = none) (hroot : S.emptyRoot primary.pageSize = .ok root)
    (hpos : 0 < primary.pageSize) (hfresh : follower.dbs copy = none)
    (hpageSize : follower.pageSize = primary.pageSize) {ops : List (ReplicationOp S E)}
    (hrecords : ∀ op ∈ ops, op.Recording) :
    let (st, told) := (run (tell L.files n copy)
      ((start primary follower, []) : Replication S E × List (S.ManifestId × E.Content)) ops).2
    ∀ r, st.replica = some r →
      (∀ conn, r.Hydrated conn →
        r.visibleHead = root ∨ (r.visibleHead, E.content conn) ∈ told) ∧
      ∀ db, st.primary.handles n = some db →
        ∃ src, db.walSource L.files st.primary.pool = .ok src ∧ ∀ log : PrimaryLog src,
          (r.appliedHead ∈ log.heads → BroughtUp st.primary.pool n db src r) ∧
          (r.appliedHead ∉ log.heads → r.catchUp (fun _ => .none) src =
            (.error (.sync "catch up to the primary"
              (.followerUnknown (S.manifestHex r.appliedHead))), r)) := by
  have hstart : ∃ sent, Agrees (E := E) L root n copy (start primary follower) sent [] :=
    ⟨[], agrees_start hL hS hempty hroot hpos hfresh hpageSize⟩
  have hstep (st : Replication S E × List (S.ManifestId × E.Content)) (op : ReplicationOp S E)
      (hop : op.Recording) : (∃ sent, Agrees L root n copy st.1 sent st.2) →
        ∃ sent, Agrees L root n copy (tell L.files n copy st op).2.1 sent
          (tell L.files n copy st op).2.2 := by
    rintro ⟨sent, h⟩
    obtain ⟨sent', -, h'⟩ := h.step hL hS hE hop
    exact ⟨sent', h'⟩
  have hagrees := @run_invariant _ _ _ (tell L.files n copy)
    (fun st => ∃ sent, Agrees L root n copy st.1 sent st.2) _ hstep (start primary follower, []) _
    hrecords hstart
  generalize (run (tell L.files n copy) (start primary follower, []) ops).2 = reached
    at hagrees ⊢
  obtain ⟨st, told⟩ := reached
  obtain ⟨sent, hagrees⟩ := hagrees
  refine fun r hr => ⟨fun conn hconn => hagrees.shows hS hr hconn, fun db hdb => ?_⟩
  obtain ⟨src, hwalSource, hsrc, hpages⟩ := hagrees.walSource hL hdb
  exact ⟨src, hwalSource, fun log =>
    ⟨hagrees.broughtUp hL hS hr hdb hsrc log (hpages log),
      catchUp_of_strayed hS.toContentAddressed log (hpages log)⟩⟩

/-- A primary that opens a database, writes to it and takes a snapshot, and a follower that is
opened. -/
def salesFollowed : List (ReplicationOp journaled memoryEngine) :=
  ReadReplica.salesSnapshot.map .primary ++ [.open .none]

/-- The two after that. -/
def salesReached : Replication journaled memoryEngine :=
  (run (tell Memory.journals.files "sales" "copy")
    (start ReadReplica.primaryPool ReadReplica.freshPool, []) salesFollowed).2.1

/-- The snapshot. -/
def salesHead : Memory.ManifestId := [⟨[(0, some [0, 6])], 0⟩]

/-- The primary's log. -/
def salesSource : WalSource journaled :=
  ⟨Memory.journals.files (salesReached.primary.pool.wal "sales"), "/pool/dbs/sales/wal",
    salesReached.primary.pool.cas, 4⟩

/-- The log is in order. -/
def salesLog : PrimaryLog salesSource where
  marker := none
  records := [⟨0, .write 0 (some [0, 6])⟩, ⟨1, .commit salesHead 0⟩]
  start := []
  readCheckpoint_eq := Memory.journals_laws.readCheckpoint_eq _ _ _ _
  records_eq := Memory.journals_laws.records_eq _ _ _ _
  startHead_eq := rfl
  lsn_lt := by
    have hlsns : [0, 1].Pairwise (· < ·) := by decide
    exact List.pairwise_map.mp hlsns
  lsn_bound := by simp
  marksHead := trivial
  derived := by
    intro c hc
    obtain rfl := List.mem_singleton.mp hc
    decide
  nodup := by decide

/-- The follower catches up and is refreshed to what the primary wrote. -/
theorem follows_of_run_sales : ∃ r db src advanced r', salesReached.replica = some r ∧
    salesReached.primary.handles "sales" = some db ∧
      db.walSource Memory.journals.files salesReached.primary.pool = .ok src ∧
        r.catchUp (fun _ => .none) src = (.ok advanced, r') ∧ r'.appliedHead = db.head ∧
          ∃ r'', r'.refresh .none = (.ok (), r'') ∧
            memoryEngine.content r''.kernel.conn = ([6] : Bytes) := by
  obtain ⟨r, hr⟩ : ∃ r, salesReached.replica = some r := ⟨_, rfl⟩
  obtain ⟨db, hdb⟩ : ∃ db, salesReached.primary.handles "sales" = some db := ⟨_, rfl⟩
  have hallows : Along (tell Memory.journals.files "sales" "copy")
      (fun st op => Allows "sales" st.1 op)
      ((start ReadReplica.primaryPool ReadReplica.freshPool, []) :
        Replication journaled memoryEngine × List (Memory.ManifestId × Bytes)) salesFollowed := by
    refine ⟨⟨trivial, ?_⟩, ⟨trivial, ?_⟩, ⟨trivial, ?_⟩, trivial, trivial⟩ <;>
      rintro ⟨_, _, _, _, _, _, _, hop, -⟩ <;> cases hop
  have hstands : salesReached.primary.pool.Stands (E := memoryEngine) "sales" ([6] : Bytes) :=
    ⟨([6] : Bytes), ⟨_, _, "", _, rfl, rfl, rfl, rfl⟩, rfl⟩
  have hfollows := follows_of_run Memory.journals_laws Memory.journaled_laws memoryEngine_laws
    (fun _ => rfl) rfl (by decide : 0 < ReadReplica.primaryPool.pageSize)
    (rfl : ReadReplica.freshPool.dbs "copy" = none) rfl hallows
  obtain ⟨-, hcatchUp⟩ := hfollows r hr
  obtain ⟨src, hsrc, hcaught⟩ := hcatchUp db hdb
  have hsales : db.walSource Memory.journals.files salesReached.primary.pool = .ok salesSource := by
    obtain rfl := Option.some.inj hdb
    rfl
  obtain rfl : src = salesSource := Except.ok.inj (hsrc.symm.trans hsales)
  obtain ⟨advanced, r', hadvanced, hhead, hshows⟩ := hcaught salesLog
  obtain ⟨hok, hcontent⟩ := hshows ([6] : Bytes) hstands
  rcases hrefreshed : r'.refresh .none with ⟨e | ⟨⟩, r''⟩
  · rw [hrefreshed] at hok
    cases hok
  · exact ⟨r, db, salesSource, advanced, r', hr, hdb, hsrc, hadvanced, hhead, r'', hrefreshed,
      hcontent .none r'' hrefreshed⟩

/-- After that the primary goes back to its snapshot, so that its log starts there. -/
def salesRewinds : List (ReplicationOp journaled memoryEngine) :=
  salesFollowed ++ [.primary (.restore .none "sales" salesHead)]

/-- The two after that. -/
def salesRewound : Replication journaled memoryEngine :=
  (run (tell Memory.journals.files "sales" "copy")
    (start ReadReplica.primaryPool ReadReplica.freshPool, []) salesRewinds).2.1

/-- The log that starts at the snapshot. -/
def rewoundSource : WalSource journaled :=
  ⟨Memory.journals.files (salesRewound.primary.pool.wal "sales"), "/pool/dbs/sales/wal",
    salesRewound.primary.pool.cas, 4⟩

/-- It is in order. -/
def rewoundLog : PrimaryLog rewoundSource where
  marker := some (salesHead, 2)
  records := []
  start := salesHead
  readCheckpoint_eq := Memory.journals_laws.readCheckpoint_eq _ _ _ _
  records_eq := Memory.journals_laws.records_eq _ _ _ _
  startHead_eq := Memory.journals_laws.startHead_eq
    (rfl : journaled.emptyRoot salesRewound.primary.pool.pageSize = .ok []) "sales" _
  lsn_lt := .nil
  lsn_bound := by simp
  marksHead := trivial
  derived := by
    intro c hc
    cases hc
  nodup := by decide

/-- A follower that is still at the empty database cannot follow the log from there. -/
theorem catches_up_or_strays_sales : ∃ r db src, salesRewound.replica = some r ∧
    salesRewound.primary.handles "sales" = some db ∧ db.head = salesHead ∧
      db.walSource Memory.journals.files salesRewound.primary.pool = .ok src ∧
        r.catchUp (fun _ => .none) src = (.error (.sync "catch up to the primary"
          (.followerUnknown (Memory.manifestHex []))), r) := by
  obtain ⟨r, hr⟩ : ∃ r, salesRewound.replica = some r := ⟨_, rfl⟩
  obtain ⟨db, hdb⟩ : ∃ db, salesRewound.primary.handles "sales" = some db := ⟨_, rfl⟩
  have hrecords : ∀ op ∈ salesRewinds, op.Recording := by
    simp [salesRewinds, salesFollowed, ReadReplica.salesSnapshot, ReplicationOp.Recording,
      Op.Recording, Env.none, Faults.none]
  have hstrays := catches_up_or_strays (n := "sales") Memory.journals_laws Memory.journaled_laws
    memoryEngine_laws (fun _ => rfl) rfl (by decide : 0 < ReadReplica.primaryPool.pageSize)
    (rfl : ReadReplica.freshPool.dbs "copy" = none) rfl hrecords
  obtain ⟨-, hcatchUp⟩ := hstrays r hr
  obtain ⟨src, hsrc, hcaught⟩ := hcatchUp db hdb
  have hsales : db.walSource Memory.journals.files salesRewound.primary.pool =
      .ok rewoundSource := by
    obtain rfl := Option.some.inj hdb
    rfl
  obtain rfl : src = rewoundSource := Except.ok.inj (hsrc.symm.trans hsales)
  have hhead : r.appliedHead = [] := by
    obtain rfl := Option.some.inj hr
    rfl
  have hdbHead : db.head = salesHead := by
    obtain rfl := Option.some.inj hdb
    rfl
  obtain ⟨-, hrefused⟩ := hcaught rewoundLog
  rw [hhead] at hrefused
  -- The log has no head but the snapshot.
  have hoff : ([] : Memory.ManifestId) ∉ [salesHead] := by decide
  exact ⟨r, db, rewoundSource, hr, hdb, hdbHead, hsrc, hrefused hoff⟩

end Replication

end FlockDb
