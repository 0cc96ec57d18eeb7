import FlockDb.Core.FromNothing

/-!
# What the log of a database ships

A log ships its commits to whoever follows it. A snapshot appends one commit, a restore starts the
log anew at the snapshot it goes back to, and a fork starts the child's there. Whatever an operation
adds to what a log ships is told: it is a snapshot that was taken, with what the database held.
-/

namespace FlockDb

open Runs

variable {S : Substrate} {E : Engine} {L : Logs S} {root : S.ManifestId}

/-- A source on a log of a pool starts where the log's marker is, or at the root. -/
theorem Logs.Laws.startHead_eq (hL : L.Laws) {pool : Pool S}
    (hroot : S.emptyRoot pool.pageSize = .ok root) (name walDir : String) :
    (WalSource.mk (L.files (pool.wal name)) walDir pool.cas pool.pageSize :
      WalSource S).startHead = .ok ((pool.logView L name).startHead root) := by
  rw [WalSource.startHead, hL.readCheckpoint_eq, LogView.startHead, Pool.logView]
  cases (L.view (pool.wal name)).marker with
  | none =>
    simp only [bind, Except.bind, hroot]
    rfl
  | some marker => rfl

/-- A history ends at the head after its commits. -/
theorem Ledger.getElem?_heads_length (ledger : Ledger S) :
    ledger.heads[ledger.commits.length]? = some (headAfter ledger.start ledger.commits) := by
  cases hlength : ledger.commits.length with
  | zero =>
    rw [List.length_eq_zero_iff.mp hlength]
    rfl
  | succ k =>
    rw [ledger.getElem?_heads_succ, headAfter, List.getLast?_eq_getElem?, hlength,
      Nat.add_sub_cancel]
    have hlt : k < ledger.commits.length := by omega
    rw [List.getElem?_eq_getElem hlt]
    rfl

namespace Db

/-- What a snapshot does to a log: nothing, or it is taken and appends one transaction. -/
theorem snapshot_logView (hL : L.Laws) (hS : S.Laws) (hE : E.Laws) (env : Env S E) {db : Db S E}
    {pool : Pool S} (hexists : (pool.dbs db.name).isSome)
    (hstore : db.store = .local (pool.recoveredHead db.name)) :
    (db.snapshot env pool).2.2.logView L db.name = pool.logView L db.name ∨
      ∃ m changes, (db.snapshot env pool).1 = .ok m ∧
        (pool.logView L db.name).Appended ((db.snapshot env pool).2.2.logView L db.name) changes m
          env.nowMs := by
  obtain ⟨hleft, hok, herror⟩ := snapshot_recoveredHead hS hE env hexists hstore
  obtain ⟨hstore', hwal⟩ := snapshot_store env hexists hstore
  have hlogged := checkpoint_logged hL hS.toCommits env db.kernel
    (pool.durable db.name (pool.recoveredHead db.name))
  generalize (db.kernel.checkpoint (durableHandle env.store env.nowMs) env.kernel
    (pool.durable db.name (pool.recoveredHead db.name))).2.2 = store' at hstore' hwal hlogged
  have hhead : (db.snapshot env pool).2.2.recoveredHead db.name = store'.head := by
    have hsame := hleft.symm.trans hstore'
    injection hsame
  rw [Pool.logView, hwal]
  rcases hlogged with ⟨-, hsameWal⟩ | ⟨changes, hmoved, -, happended⟩
  · left
    rw [hsameWal]
    rfl
  · right
    cases hresult : (db.snapshot env pool).1 with
    | error e => exact absurd (hhead.symm.trans (herror e hresult)) hmoved
    | ok m =>
      obtain rfl : store'.head = m := hhead.symm.trans (hok m hresult)
      exact ⟨_, changes, rfl, happended⟩

/-- Opening a database changes nothing of what any log reads back as. -/
theorem openWith_logView (hL : L.Laws) (hS : S.Recovers) (env : Env S E) (pool : Pool S)
    (name : String) (opts : KernelOpts) (n : String) :
    (Flock.openWith env pool name opts).2.logView L n = pool.logView L n := by
  by_cases hn : n = name
  · subst hn
    have hview : (openStore env pool n "open the durable store" "replay the log").2.logView L n =
        pool.logView L n := openStore_keeps (hL.view_recover pool.pageSize) env n _ _
    rw [Flock.openWith]
    cases validateName (S := S) (E := E) n with
    | error e => rfl
    | ok _ =>
      simp only
      rcases hopened : openStore env pool n "open the durable store" "replay the log" with
        ⟨e | head, pool₁⟩
      all_goals rw [hopened] at hview
      · exact hview
      · simp only
        cases Store.openKernel env pool₁ n opts (.local head) <;> exact hview
  · exact (beside_openWith hS env pool name opts).1.logView_eq hn

/-- A restore whose head is recorded: it is refused and changes nothing, or the head is moved and
the log starts there anew, even if no kernel opens on it. -/
theorem restore_logView (hL : L.Laws) (hS : S.Recovers) {env : Env S E}
    (hrecords : env.store .checkpoint = none) {db : Db S E} {pool : Pool S}
    (hexists : (pool.dbs db.name).isSome) {head : S.ManifestId} (hstore : db.store = .local head)
    (m : S.ManifestId) :
    (db.restore env pool m).2 = (db, pool) ∨
      (db.restore env pool m).2.1.name = db.name ∧
        (db.restore env pool m).2.1.store = .local m ∧
          (db.restore env pool m).2.2.recoveredHead db.name = m ∧
            ((db.restore env pool m).2.2.logView L db.name).startHead root = m ∧
              ((db.restore env pool m).2.2.logView L db.name).past = [] := by
  set store : DurableStore S :=
    ⟨⟨pool.cas, m, pool.pageSize⟩, S.checkpoint pool.cas (pool.wal db.name) m⟩
  have hrewind : (∃ e, db.rewindTo env pool m = (.error e, db, pool)) ∨
      db.rewindTo env pool m =
        (.ok (), { db with store := .local m }, pool.keep db.name store) := by
    have hcas : (pool.durable db.name head).pager.cas = pool.cas := rfl
    simp only [rewindTo, hstore, Pager.rewind, hcas]
    cases S.manifest pool.cas m with
    | error e => exact .inl ⟨_, rfl⟩
    | ok edges =>
      simp only
      cases env.store.guard .rewind (S.rewind pool.cas m) with
      | error e => exact .inl ⟨_, rfl⟩
      | ok _ =>
        right
        simp only [DurableStore.checkpoint, hrecords]
        rfl
  rw [restore]
  rcases hrewind with ⟨e, hrefused⟩ | hmoved
  · left
    rw [hrefused]
  · right
    obtain ⟨lsn, hmarker, hcovered⟩ := hL.view_checkpoint pool.cas (pool.wal db.name) m
    have hwal : (pool.keep db.name store).wal db.name =
        S.checkpoint pool.cas (pool.wal db.name) m := Pool.wal_keep hexists store
    have hhead : (pool.keep db.name store).recoveredHead db.name = m := by
      rw [Pool.recoveredHead, hwal]
      exact hS.recovered_checkpoint _ _ _ _
    have hstart : ((pool.keep db.name store).logView L db.name).startHead root = m := by
      rw [Pool.logView, hwal, LogView.startHead, hmarker]
      rfl
    have hpast : ((pool.keep db.name store).logView L db.name).past = [] := by
      rw [Pool.logView, hwal]
      refine List.filter_eq_nil_iff.mpr fun r hr => ?_
      rw [hmarker]
      simpa using (hcovered r hr).2
    simp only [hmoved]
    cases Store.openKernel env (pool.keep db.name store) db.name db.opts (.local m) <;>
      exact ⟨rfl, rfl, hhead, hstart, hpast⟩

end Db

/-- An operation that records the head it moves a database to. A restore that does not leaves a
handle at a head that its log knows nothing of. -/
def Op.Recording : Op S E → Prop
  | .restore env _ _ => env.store .checkpoint = none
  | _ => True

/-- A plain operation restores nothing. -/
theorem Op.Plain.recording {op : Op S E} (h : op.Plain) : op.Recording := by
  cases op with
  | restore env name m => exact h.elim
  | _ => trivial

namespace World

/-- The commits that the log of a database ships. -/
def commits (L : Logs S) (root : S.ManifestId) (w : World S E) (n : String) : List (Commit S) :=
  (w.pool.logView L n).commits root

/-- What a snapshot adds to the commits that the log of any database ships: nothing, or it is of
that database, and is taken, and adds itself. -/
theorem Logged.commits_snapshot (hL : L.Laws) (hS : S.Laws) (hE : E.Laws) {w : World S E}
    (h : Logged L root w) {name : String} {db : Db S E} (hdb : w.handles name = some db)
    (env : Env S E) (n : String) :
    ((db.snapshot env w.pool).2.2.logView L n).commits root = w.commits L root n ∨
      name = n ∧ ∃ c content,
        ((db.snapshot env w.pool).2.2.logView L n).commits root = w.commits L root n ++ [c] ∧
          w.snapshotOf env name = some (c.manifest, content) := by
  obtain ⟨rfl, -, hexists⟩ := h.filed name db hdb
  obtain ⟨hbeside, -⟩ := Db.beside_snapshot hS env db w.pool
  by_cases hn : n = db.name
  · subst hn
    rcases Db.snapshot_logView hL hS hE env hexists (h.heads _ db hdb) with
      hsame | ⟨m, changes, hok, happended⟩
    · left
      rw [hsame]
      rfl
    · obtain ⟨-, -, lsn, hcommits⟩ := (h.logs db.name).leads.commits_append happended
      refine .inr ⟨rfl, _, E.content db.kernel.conn, hcommits, ?_⟩
      rw [snapshotOf_eq hdb, hok]
      rfl
  · left
    rw [hbeside.logView_eq hn]
    rfl

/-- A restore that records its head, of a database in order: nothing happens, or the log starts
anew. -/
theorem Logged.restore (hL : L.Laws) (hS : S.Laws) {w : World S E} (h : Logged L root w)
    {env : Env S E} (hrecords : env.store .checkpoint = none) (name : String)
    (m : S.ManifestId) :
    Logged L root (w.step (.restore env name m)).2 ∧ ∀ n,
      (w.step (.restore env name m)).2.commits L root n = w.commits L root n ∨
        name = n ∧ (w.step (.restore env name m)).2.commits L root n = [] := by
  rw [step, onHandle]
  cases hdb : w.handles name with
  | none => exact ⟨h, fun n => .inl rfl⟩
  | some db =>
    obtain ⟨rfl, -, hexists⟩ := h.filed name db hdb
    obtain ⟨hbeside, -, -⟩ := Db.beside_restore env db w.pool m
    have hlog := @Db.restore_logView S E L root hL hS.toRecovers env hrecords db w.pool hexists _
      (h.heads _ db hdb) m
    rcases hresult : db.restore env w.pool m with ⟨result, db', pool⟩
    rw [hresult] at hbeside hlog
    simp only [hresult]
    rcases hlog with hsame | ⟨hname, hstore, hhead, hstart, hpast⟩
    · obtain ⟨rfl, rfl⟩ := Prod.mk.inj hsame
      refine ⟨h.moved (.refl _ _) (h.logs _) (fun n hn => setHandle_of_ne _ hn _)
        fun db'' hdb'' => ?_, fun n => .inl rfl⟩
      rw [Function.update_self] at hdb''
      obtain rfl := Option.some.inj hdb''
      exact ⟨rfl, h.heads _ _ hdb, hexists⟩
    · have hcommits : (pool.logView L db.name).commits root = [] := by
        rw [LogView.commits, hpast]
        rfl
      have hrecorded : pool.Recorded L root db.name := by
        refine ⟨?_, by simp [hcommits], by simp [hcommits]⟩
        rw [hhead, ← hstart]
        exact LogView.leads_of_nil hpast
      refine ⟨h.moved hbeside hrecorded (fun n hn => setHandle_of_ne _ hn _)
        fun db'' hdb'' => ?_, fun n => ?_⟩
      · rw [Function.update_self] at hdb''
        obtain rfl := Option.some.inj hdb''
        exact ⟨hname, hstore.trans (congrArg Store.local hhead.symm), hbeside.isSome hexists⟩
      · by_cases hn : n = db.name
        · subst hn
          exact .inr ⟨rfl, hcommits⟩
        · left
          exact congrArg (LogView.commits root) (hbeside.logView_eq hn)

/-- An operation that records its heads keeps the logs leading to them. -/
theorem Logged.step (hL : L.Laws) (hS : S.Laws) (hE : E.Laws) {w : World S E}
    (h : Logged L root w) {op : Op S E} (hrecords : op.Recording) :
    Logged L root (w.step op).2 := by
  have hkeeps (hplain : op.Plain) : Logged L root (w.step op).2 :=
    (keeps_step hL hS hE h op hplain).logged
  cases op with
  | restore env name m => exact (h.restore hL hS hrecords name m).1
  | sleep env faults fuel name remotePool =>
    rw [World.step, onHandle]
    cases hdb : w.handles name with
    | none => exact h
    | some db =>
      obtain ⟨hcontinues, -⟩ := h.snapshot hL hS hE hdb env
      simp only [sleep_pool]
      refine h.moved hcontinues.beside (hcontinues.recorded (h.logs name))
        (fun n hn => Function.update_of_ne hn _ _) fun db' hdb' => ?_
      rw [Function.update_self] at hdb'
      cases hdb'
  | _ => exact hkeeps trivial

/-- The commits that the log of a fork ships, which has a free name: none, as before. -/
theorem Logged.commits_forkFrom (hL : L.Laws) (hS : S.Laws) {w : World S E} (h : Logged L root w)
    {snapshotEnv env : Env S E} {parent name : String} {db db' : Db S E} {m : S.ManifestId}
    {pool' : Pool S} (hdb : w.handles parent = some db)
    (hvalid : validateName (S := S) (E := E) name = .ok ()) (hfree : w.pool.dbs name = none)
    (hsnapshot : db.snapshot snapshotEnv w.pool = (.ok m, db', pool')) :
    let commits' := ((Db.forkFrom env db' pool' name m).2.logView L name).commits root
    commits' = w.commits L root name ∨
      commits' = [] ∧ ForksInto w (.fork snapshotEnv env parent name) name := by
  have hdbs := snapshot_dbs_isSome snapshotEnv db w.pool name
  rw [hsnapshot, hfree] at hdbs
  have hfree' : pool'.dbs name = none := Option.not_isSome_iff_eq_none.mp (by simp [hdbs])
  have hroot' : S.emptyRoot pool'.pageSize = .ok root := by
    have hpageSize := (Db.beside_snapshot hS snapshotEnv db w.pool).1.pageSize_eq
    rw [hsnapshot] at hpageSize
    exact hpageSize.symm ▸ h.root_eq
  have hnew := (Pool.recorded_of_free hL hS.toRecovers hroot' hfree').1
  have hbefore := (Pool.recorded_of_free hL hS.toRecovers h.root_eq hfree).1
  -- The fork gets as far as its marker, or leaves a new log.
  rcases Db.forkFrom_logView hL hS.toRecovers env db' hnew m with
    ⟨hmarks, -, lsn, hmarked⟩ | ⟨-, -, hunmarked⟩
  · refine .inr ⟨?_, _, _, _, db, m, db', pool', rfl, hdb, hvalid, hfree, hsnapshot, hmarks⟩
    rw [hmarked]
    rfl
  · left
    rw [hunmarked, commits, hbefore]

/-- What a fork does to the commits that the log of a database ships: nothing, or it adds the
parent's snapshot to the parent's, or the log is that of the new database. -/
theorem Logged.commits_fork (hL : L.Laws) (hS : S.Laws) (hE : E.Laws) {w : World S E}
    (h : Logged L root w) (snapshotEnv env : Env S E) (parent name n : String) :
    let op : Op S E := .fork snapshotEnv env parent name
    (w.step op).2.commits L root n = w.commits L root n ∨
      (parent = n ∧ ∃ c content, (w.step op).2.commits L root n = w.commits L root n ++ [c] ∧
        w.takes op = some (c.manifest, content)) ∨
        (w.step op).2.commits L root n = [] ∧ ForksInto w op n := by
  intro op
  cases hdb : w.handles parent with
  | none =>
    left
    rw [World.step, hdb]
  | some db =>
    have hcommits := h.commits_snapshot hL hS hE hdb snapshotEnv n
    rw [commits, fork_pool hdb]
    rcases Db.fork_cases snapshotEnv env db w.pool name with
      ⟨-, e, hfork⟩ |
      ⟨hvalid, hfree, ⟨e, db', pool', hsnapshot, hfork⟩ | ⟨m, db', pool', hsnapshot, hfork⟩⟩
    · left
      rw [hfork]
      rfl
    · rw [hsnapshot] at hcommits
      rw [hfork]
      rcases hcommits with hsame | ⟨-, c, content, -, htaken⟩
      · exact .inl hsame
      · rw [snapshotOf_eq hdb, hsnapshot] at htaken
        cases htaken
    · rw [hsnapshot] at hcommits
      rw [hfork]
      by_cases hn : n = name
      · subst hn
        exact (h.commits_forkFrom hL hS hdb hvalid hfree hsnapshot).imp_right .inr
      · obtain ⟨hbeside, -⟩ := Db.beside_forkFrom hS.toRecovers env db' pool' name m
        rw [hbeside.logView_eq hn]
        have htakes : w.takes op = w.snapshotOf snapshotEnv parent := by
          rw [takes, if_pos]
          rw [hvalid, hfree]
          exact ⟨rfl, rfl⟩
        rw [htakes]
        exact hcommits.imp_right .inl

/-- What an operation does to the commits that the log of a database ships: nothing, or it adds the
snapshot of that database that it takes, or the log starts anew. -/
theorem Logged.commits_step (hL : L.Laws) (hS : S.Laws) (hE : E.Laws) {w : World S E}
    (h : Logged L root w) {op : Op S E} (hrecords : op.Recording) (n : String) :
    (w.step op).2.commits L root n = w.commits L root n ∨
      (op.subject = n ∧ ∃ c content,
        (w.step op).2.commits L root n = w.commits L root n ++ [c] ∧
          w.takes op = some (c.manifest, content)) ∨
        (w.step op).2.commits L root n = [] ∧ (ForksInto w op n ∨ ¬op.Plain) := by
  have hunmoved {name : String} {f : Db S E → Answer S E × Option (Db S E) × Pool S}
      (hpool : ∀ db, (f db).2.2 = w.pool) :
      (w.onHandle name f).2.commits L root n = w.commits L root n := by
    rw [onHandle]
    cases w.handles name with
    | none => rfl
    | some db => exact congrArg (fun pool => (pool.logView L n).commits root) (hpool db)
  cases op with
  | «open» env name opts =>
    left
    rw [World.step]
    cases w.handles name with
    | some db => rfl
    | none =>
      have hview := Db.openWith_logView hL hS.toRecovers env w.pool name opts n
      simp only
      rcases hopened : Flock.openWith env w.pool name opts with ⟨e | db, pool⟩
      all_goals
        rw [hopened] at hview
        exact congrArg (LogView.commits root) hview
  | close name => exact .inl (hunmoved fun _ => rfl)
  | execute name sql => exact .inl (hunmoved fun _ => rfl)
  | executeBatch name sql => exact .inl (hunmoved fun _ => rfl)
  | query name sql => exact .inl (hunmoved fun _ => rfl)
  | snapshot env name =>
    cases hdb : w.handles name with
    | none =>
      left
      rw [World.step, onHandle, hdb]
    | some db =>
      have hcommits := h.commits_snapshot hL hS hE hdb env n
      rw [World.step, onHandle, hdb]
      exact hcommits.imp_right .inl
  | fork snapshotEnv env parent name =>
    exact (h.commits_fork hL hS hE snapshotEnv env parent name n).imp_right
      (Or.imp_right (And.imp_right .inl))
  | restore env name m =>
    refine ((h.restore hL hS hrecords name m).2 n).imp_right fun hanew => .inr ⟨hanew.2, .inr id⟩
  | sleep env faults fuel name remotePool =>
    cases hdb : w.handles name with
    | none =>
      left
      rw [World.step, onHandle, hdb]
    | some db =>
      have hcommits := h.commits_snapshot hL hS hE hdb env n
      rw [World.step, onHandle, hdb]
      simp only [sleep_pool]
      exact hcommits.imp_right .inl

/-- The log of a database that is not rewound, and that no fork is made into, goes on. -/
theorem Logged.continues_step (hL : L.Laws) (hS : S.Laws) (hE : E.Laws) {w : World S E}
    (h : Logged L root w) {op : Op S E} (hplain : op.Plain) {n : String}
    (hnot : ¬ForksInto w op n) :
    startHead L root (w.step op).2 n = startHead L root w n ∧
      ∀ c ∈ w.commits L root n, c ∈ (w.step op).2.commits L root n := by
  refine ⟨?_, fun c hc => ?_⟩
  · rcases (keeps_step hL hS hE h op hplain).startHead_cases n with ⟨hforks, -⟩ | ⟨-, hsame⟩
    · exact absurd hforks hnot
    · exact hsame
  · rcases h.commits_step hL hS hE hplain.recording n with
      hsame | ⟨-, c', content, hadded, -⟩ | ⟨-, hforks | hrewinds⟩
    · exact hsame.symm ▸ hc
    · rw [hadded]
      exact List.mem_append_left _ hc
    · exact absurd hforks hnot
    · exact absurd hplain hrewinds

/-- What is told of a database: the snapshots of it that were taken, with what they held. The pool
has all of them, and the commits that its log ships, or shipped earlier, are of them. -/
structure Told (L : Logs S) (root : S.ManifestId) (n : String) (w : World S E)
    (sent : List (Commit S)) (told : List (S.ManifestId × E.Content)) : Prop where
  logged : Logged L root w
  ships : ∀ c ∈ w.commits L root n, c ∈ sent
  derived : ∀ c ∈ sent, c.Derived
  contents : ∀ c ∈ sent, ∃ content, (c.manifest, content) ∈ told
  captured : ∀ m content, (m, content) ∈ told → ∃ file, Captures w.pool m file content

/-- What an operation tells of a database. -/
def tells (n : String) (w : World S E) (op : Op S E) : List (S.ManifestId × E.Content) :=
  if op.subject = n then (w.takes op).toList else []

/-- An operation adds to what a log ships at most what it adds to what is told. -/
theorem Told.step (hL : L.Laws) (hS : S.Laws) (hE : E.Laws) {n : String} {w : World S E}
    {sent : List (Commit S)} {told : List (S.ManifestId × E.Content)}
    (h : Told L root n w sent told) {op : Op S E} (hrecords : op.Recording) :
    Told L root n (w.step op).2 ((w.step op).2.commits L root n ++ sent)
      (w.tells n op ++ told) := by
  have hlogged := h.logged.step hL hS hE hrecords
  have hold : ∀ c ∈ sent, ∃ content, (c.manifest, content) ∈ w.tells n op ++ told := by
    intro c hc
    obtain ⟨content, hmem⟩ := h.contents c hc
    exact ⟨content, List.mem_append_right _ hmem⟩
  refine ⟨hlogged, fun c hc => List.mem_append_left _ hc, fun c hc => ?_, fun c hc => ?_,
    fun m content hm => ?_⟩
  · rcases List.mem_append.mp hc with hc | hc
    · exact (hlogged.logs n).leads.derived c hc
    · exact h.derived c hc
  · rcases List.mem_append.mp hc with hc | hc
    · rcases h.logged.commits_step hL hS hE hrecords n with
        hsame | ⟨hsubject, c', content, hadded, htakes⟩ | ⟨hanew, -⟩
      · exact hold c (h.ships c (hsame ▸ hc))
      · rw [hadded] at hc
        rcases List.mem_append.mp hc with hc | hc
        · exact hold c (h.ships c hc)
        · obtain rfl := List.mem_singleton.mp hc
          refine ⟨content, List.mem_append_left _ ?_⟩
          rw [tells, if_pos hsubject, htakes]
          exact List.mem_cons_self
      · rw [hanew] at hc
        cases hc
    · exact hold c hc
  · have hsettled : Settled w ⟨w.pool.recoveredHead, told⟩ :=
      ⟨h.logged.filed, h.logged.heads, fun _ => rfl, h.captured⟩
    refine captures_enter hS hE hsettled op ?_
    rcases List.mem_append.mp hm with hnew | hold
    · refine List.mem_append_left _ ?_
      rw [tells] at hnew
      split at hnew
      · exact hnew
      · cases hnew
    · exact List.mem_append_right _ hold

end World

end FlockDb
