import FlockDb.Core.Journal
import FlockDb.Core.ReadReplica
import FlockDb.Sync.Live

/-!
# Following a database from nothing

A read replica that has just been set up stands at the empty root. It can follow a database whose
log starts there. A fork's log does not: it starts at a marker for the parent's snapshot, which is
in no commit record, so a replica at the root is nowhere in it.
-/

namespace FlockDb

open Runs

variable {S : Substrate} {E : Engine}

/-- `Db::wal_source`: a view of the log of a local database. -/
def Db.walSource (files : S.Wal → WalFiles) (db : Db S E) (pool : Pool S) :
    Except (FlockError S E) (WalSource S) :=
  match db.store with
  | .local _ =>
    .ok ⟨files (pool.wal db.name), pool.dbDir db.name ++ "/wal", pool.cas, pool.pageSize⟩
  | .tiered _ => .error (.unsupported "WAL shipping from a woken (object-storage-backed) database"
      ("a tiered database has no local write-ahead log — its durability is the bucket, not a " ++
        "shippable commit record. Ship from the local primary this database was slept from, or " ++
        "replicate at the object-storage layer."))

/-- An operation that neither moves a head back nor puts a database to sleep. -/
def Op.Plain : Op S E → Prop
  | .restore _ _ _ | .sleep _ _ _ _ _ => False
  | _ => True

namespace World

/-- The operation is a fork into this name that gets past its first checkpoint. -/
def ForksInto (w : World S E) (op : Op S E) (n : String) : Prop :=
  ∃ snapshotEnv env parent db m db' pool', op = .fork snapshotEnv env parent n ∧
    w.handles parent = some db ∧ validateName (S := S) (E := E) n = .ok () ∧
    w.pool.dbs n = none ∧ db.snapshot snapshotEnv w.pool = (.ok m, db', pool') ∧
    Db.Marks env pool' n m

/-- Where a follower of a database with nothing applied would stand. -/
def startHead (L : Logs S) (root : S.ManifestId) (w : World S E) (n : String) : S.ManifestId :=
  (w.pool.logView L n).startHead root

/-- Every handle stands at the head that its log records, and every log leads there. -/
structure Logged (L : Logs S) (root : S.ManifestId) (w : World S E) : Prop where
  filed : Filed w
  heads : ∀ n db, w.handles n = some db → db.store = .local (w.pool.recoveredHead n)
  logs : ∀ n, w.pool.Recorded L root n
  root_eq : S.emptyRoot w.pool.pageSize = .ok root
  pageSize_pos : 0 < w.pool.pageSize

/-- What an operation leaves: the logs still lead to the heads, and only the log of a fork that
is made starts elsewhere than before. -/
structure Keeps (L : Logs S) (root : S.ManifestId) (w : World S E) (op : Op S E) (w' : World S E) :
    Prop where
  logged : Logged L root w'
  startHead_cases : ∀ n, (ForksInto w op n ∧ startHead L root w' n ≠ root) ∨
    (¬ForksInto w op n ∧ startHead L root w' n = startHead L root w n)

variable {L : Logs S} {root : S.ManifestId}

/-- A pool in the hands of one database, whose log leads to its head, keeps all logs leading. -/
theorem Logged.moved {w : World S E} (h : Logged L root w) {pool : Pool S} {name : String}
    (hbeside : w.pool.Beside name pool) (hrecorded : pool.Recorded L root name)
    {handles : String → Option (Db S E)} (hother : ∀ n, n ≠ name → handles n = w.handles n)
    (hself : ∀ db, handles name = some db → db.name = name ∧
      db.store = .local (pool.recoveredHead name) ∧ (pool.dbs name).isSome) :
    Logged L root ⟨pool, handles⟩ where
  filed := by
    intro n db hn
    by_cases heq : n = name
    · subst heq
      obtain ⟨hname, hstore, hexists⟩ := hself db hn
      exact ⟨hname, ⟨_, hstore⟩, hexists⟩
    · have hn' : w.handles n = some db := (hother n heq).symm.trans hn
      obtain ⟨hname, hlocal, hexists⟩ := h.filed n db hn'
      exact ⟨hname, hlocal, hbeside.isSome_of hexists⟩
  heads := by
    intro n db hn
    by_cases heq : n = name
    · subst heq
      exact (hself db hn).2.1
    · have hn' : w.handles n = some db := (hother n heq).symm.trans hn
      have hhead : pool.recoveredHead n = w.pool.recoveredHead n := hbeside.recoveredHead_eq heq
      exact hhead.symm ▸ h.heads n db hn'
  logs := by
    intro n
    by_cases heq : n = name
    · subst heq
      exact hrecorded
    · exact (h.logs n).of_eq hbeside.grows (hbeside.logView_eq heq) (hbeside.recoveredHead_eq heq)
  root_eq := hbeside.pageSize_eq.symm ▸ h.root_eq
  pageSize_pos := hbeside.pageSize_eq.symm ▸ h.pageSize_pos

/-- An operation other than a fork, after which the log of its database continues. -/
theorem Logged.keeps {w : World S E} (h : Logged L root w) {op : Op S E}
    (hop : ∀ n, ¬ForksInto w op n) {pool : Pool S} {name : String}
    (hcontinues : w.pool.Continues L root name pool) {handles : String → Option (Db S E)}
    (hother : ∀ n, n ≠ name → handles n = w.handles n)
    (hself : ∀ db, handles name = some db → db.name = name ∧
      db.store = .local (pool.recoveredHead name) ∧ (pool.dbs name).isSome) :
    Keeps L root w op ⟨pool, handles⟩ := by
  refine ⟨h.moved hcontinues.beside (hcontinues.recorded (h.logs name)) hother hself,
    fun n => .inr ⟨hop n, ?_⟩⟩
  by_cases heq : n = name
  · subst heq
    exact hcontinues.startHead_eq
  · rw [startHead, startHead, hcontinues.beside.logView_eq heq]

/-- An operation that changes nothing. -/
theorem Logged.keeps_self {w : World S E} (h : Logged L root w) {op : Op S E}
    (hop : ∀ n, ¬ForksInto w op n) : Keeps L root w op w := ⟨h, fun n => .inr ⟨hop n, rfl⟩⟩

/-- An operation on a handle that leaves the pool and the store alone, or drops the handle. -/
theorem Logged.onHandle_kept {w : World S E} (h : Logged L root w) {op : Op S E}
    (hop : ∀ n, ¬ForksInto w op n) {name : String}
    {f : Db S E → Answer S E × Option (Db S E) × Pool S} (hpool : ∀ db, (f db).2.2 = w.pool)
    (hkept : ∀ db db', (f db).2.1 = some db' → db'.name = db.name ∧ db'.store = db.store) :
    Keeps L root w op (w.onHandle name f).2 := by
  rw [onHandle]
  cases hdb : w.handles name with
  | none => exact h.keeps_self hop
  | some db =>
    obtain ⟨hname, -, hexists⟩ := h.filed name db hdb
    have hcontinues : w.pool.Continues L root name (f db).2.2 := by
      rw [hpool]
      exact .refl L root name w.pool
    refine h.keeps hop hcontinues (fun n hn => setHandle_of_ne _ hn _) fun db' hdb' => ?_
    rw [Function.update_self] at hdb'
    obtain ⟨hname', hstore'⟩ := hkept db db' hdb'
    rw [hpool]
    exact ⟨hname'.trans hname, hstore'.trans (h.heads name db hdb), hexists⟩

/-- Opening a database continues its log. -/
theorem Logged.openWith (hL : L.Laws) (hS : S.Laws) {w : World S E} (h : Logged L root w)
    (env : Env S E) (name : String) (opts : KernelOpts) :
    Keeps L root w (.open env name opts) (w.step (.open env name opts)).2 := by
  have hop : ∀ n, ¬ForksInto w (.open env name opts) n := by
    rintro n ⟨_, _, _, _, _, _, _, hfork, -⟩
    cases hfork
  rw [step]
  cases hdb : w.handles name with
  | some db => exact h.keeps_self hop
  | none =>
    obtain ⟨hbeside, hfiled⟩ := Db.beside_openWith hS.toRecovers env w.pool name opts
    have hhead := openWith_leaves_recoveredHead hS.toRecovers env w.pool name opts
    have hview : (Flock.openWith env w.pool name opts).2.logView L name =
        w.pool.logView L name := by
      have hopenView : (openStore env w.pool name "open the durable store"
          "replay the log").2.logView L name = w.pool.logView L name :=
        openStore_keeps (hL.view_recover w.pool.pageSize) env name _ _
      rw [Flock.openWith]
      cases validateName (S := S) (E := E) name with
      | error e => rfl
      | ok _ =>
        simp only
        rcases hopened : openStore env w.pool name "open the durable store" "replay the log" with
          ⟨e | head, pool₁⟩
        all_goals rw [hopened] at hopenView
        · exact hopenView
        · simp only
          cases Store.openKernel env pool₁ name opts (.local head) <;> exact hopenView
    have hcontinues : w.pool.Continues L root name (Flock.openWith env w.pool name opts).2 :=
      Pool.continues_of_eq hbeside hview hhead
    simp only
    rcases hopened : Flock.openWith env w.pool name opts with ⟨e | db, pool⟩
    · rw [hopened] at hcontinues
      refine h.keeps hop hcontinues (fun _ _ => rfl) fun db hdb' => ?_
      rw [hdb] at hdb'
      cases hdb'
    · obtain ⟨hstore, -, hrecovered, -⟩ := openWith_recoveredHead hS.toRecovers hopened
      rw [hopened] at hcontinues hfiled
      obtain ⟨hname, -, hexists⟩ := hfiled db rfl
      refine h.keeps hop hcontinues (fun n hn => setHandle_of_ne _ hn _) fun db' hdb' => ?_
      rw [Function.update_self] at hdb'
      obtain rfl := Option.some.inj hdb'
      exact ⟨hname, by rw [hstore, hrecovered], hexists⟩

/-- What a snapshot leaves: the log continues, and the handle is left at the head it records. -/
theorem Logged.snapshot (hL : L.Laws) (hS : S.Laws) (hE : E.Laws) {w : World S E}
    (h : Logged L root w) {name : String} {db : Db S E} (hdb : w.handles name = some db)
    (env : Env S E) :
    w.pool.Continues L root name (db.snapshot env w.pool).2.2 ∧
      (db.snapshot env w.pool).2.1.name = name ∧
      (db.snapshot env w.pool).2.1.store =
        .local ((db.snapshot env w.pool).2.2.recoveredHead name) ∧
      ((db.snapshot env w.pool).2.2.dbs name).isSome := by
  obtain ⟨rfl, -, hexists⟩ := h.filed name db hdb
  have hstore := h.heads _ db hdb
  obtain ⟨hbeside, hname, -⟩ := Db.beside_snapshot hS env db w.pool
  obtain ⟨hleft, -, -⟩ := Db.snapshot_recoveredHead hS hE env hexists hstore
  exact ⟨Db.continues_snapshot hL hS hE h.root_eq h.pageSize_pos env hexists hstore, hname, hleft,
    hbeside.isSome hexists⟩

/-- A fork that takes its parent's snapshot: the new database's log is still a new one, or it is
a marker at the snapshot. -/
theorem Logged.forkFrom (hL : L.Laws) (hS : S.Laws) (hE : E.Laws) {w : World S E}
    (h : Logged L root w) {snapshotEnv env : Env S E} {parent name : String} {db db' : Db S E}
    {m : S.ManifestId} {pool' : Pool S} (hdb : w.handles parent = some db)
    (hvalid : validateName (S := S) (E := E) name = .ok ()) (hfree : w.pool.dbs name = none)
    (hsnapshot : db.snapshot snapshotEnv w.pool = (.ok m, db', pool')) :
    Keeps L root w (.fork snapshotEnv env parent name)
      (w.step (.fork snapshotEnv env parent name)).2 := by
  have hfork : db.fork snapshotEnv env w.pool name =
      ((Db.forkFrom env db' pool' name m).1, db', (Db.forkFrom env db' pool' name m).2) := by
    rw [Db.fork, hvalid]
    simp only [hfree, hsnapshot]
  have hinto : ∀ n, ForksInto w (.fork snapshotEnv env parent name) n ↔
      n = name ∧ Db.Marks env pool' name m := by
    intro n
    constructor
    · rintro ⟨_, _, _, db₁, m₁, db₁', pool₁', hop, hdb₁, -, -, hsnapshot₁, hmarks⟩
      cases hop
      obtain rfl := Option.some.inj (hdb.symm.trans hdb₁)
      cases hsnapshot.symm.trans hsnapshot₁
      exact ⟨rfl, hmarks⟩
    · rintro ⟨rfl, hmarks⟩
      exact ⟨_, _, _, db, m, db', pool', rfl, hdb, hvalid, hfree, hsnapshot, hmarks⟩
  obtain ⟨hcontinues, hname', hstore', hexists'⟩ := h.snapshot hL hS hE hdb snapshotEnv
  have hdbs := snapshot_dbs_isSome snapshotEnv db w.pool name
  have htaken := snapshotted_of_ok hS hE ⟨_, h.heads parent db hdb⟩ hsnapshot
  rw [hsnapshot] at hcontinues hname' hstore' hexists' hdbs
  have hfree' : pool'.dbs name = none := by
    rw [hfree] at hdbs
    exact Option.not_isSome_iff_eq_none.mp (by simp [hdbs])
  have hne : parent ≠ name := by
    rintro rfl
    rw [hfree'] at hexists'
    cases hexists'
  have hparent : Logged L root ⟨pool', Function.update w.handles parent (some db')⟩ := by
    refine h.moved hcontinues.beside (hcontinues.recorded (h.logs parent))
      (fun n hn => Function.update_of_ne hn _ _) fun db'' hdb'' => ?_
    rw [Function.update_self] at hdb''
    obtain rfl := Option.some.inj hdb''
    exact ⟨hname', hstore', hexists'⟩
  have hroot' : S.emptyRoot pool'.pageSize = .ok root := hparent.root_eq
  obtain ⟨hnew, hrecorded⟩ := Pool.recorded_of_free hL hS.toRecovers hroot' hfree'
  obtain ⟨hbeside, hchild⟩ := Db.beside_forkFrom hS.toRecovers env db' pool' name m
  have hview := Db.forkFrom_logView hL hS.toRecovers env db' hnew m
  -- the snapshot is of a file that is not empty, so it is not the root
  have hm : m ≠ root := by
    rintro rfl
    obtain ⟨file, -, hcaptures⟩ := htaken.captures
    exact pageMap_ne_empty hS.toContentAddressed hparent.pageSize_pos hcaptures.ne_nil
      hcaptures.stores (hS.pageMap_emptyRoot hroot')
  set pool'' := (Db.forkFrom env db' pool' name m).2 with hpool''
  have hrecorded'' : pool''.Recorded L root name := by
    rcases hview with ⟨-, hhead, lsn, hmarked⟩ | ⟨-, hhead, hunmarked⟩
    · have hcommits : (pool''.logView L name).commits root = [] := by
        rw [hmarked]
        rfl
      refine ⟨?_, by simp [hcommits], by simp [hcommits]⟩
      rw [hmarked, hhead]
      exact @LogView.leads_of_nil S root ⟨some (m, lsn), []⟩ rfl
    · exact hrecorded.of_eq hbeside.grows (hunmarked.trans hnew.symm) hhead
  have hkeeps : ∀ handles : String → Option (Db S E),
      (∀ n, n ≠ name → handles n = Function.update w.handles parent (some db') n) →
      (∀ child, handles name = some child → child.name = name ∧
        child.store = .local (pool''.recoveredHead name) ∧ (pool''.dbs name).isSome) →
      Keeps L root w (.fork snapshotEnv env parent name) ⟨pool'', handles⟩ := by
    intro handles hother hself
    refine ⟨hparent.moved hbeside hrecorded'' hother hself, fun n => ?_⟩
    rw [hinto]
    by_cases hn : n = name
    · subst hn
      have hbefore : startHead L root w n = root := by
        rw [startHead, (Pool.recorded_of_free hL hS.toRecovers h.root_eq hfree).1]
        rfl
      rcases hview with ⟨hmarks, -, lsn, hmarked⟩ | ⟨hnot, -, hunmarked⟩
      · refine .inl ⟨⟨rfl, hmarks⟩, ?_⟩
        rw [startHead, hmarked]
        exact hm
      · refine .inr ⟨fun hforks => hnot hforks.2, ?_⟩
        rw [hbefore, startHead, hunmarked]
        rfl
    · refine .inr ⟨fun hforks => hn hforks.1, ?_⟩
      rw [startHead, startHead, hbeside.logView_eq hn]
      by_cases hparentName : n = parent
      · subst hparentName
        exact hcontinues.startHead_eq
      · rw [hcontinues.beside.logView_eq hparentName]
  simp only [step, hdb, hfork]
  cases hresult : (Db.forkFrom env db' pool' name m).1 with
  | error e =>
    refine hkeeps _ (fun _ _ => rfl) fun child hchild' => ?_
    have hnone : w.handles name = some child :=
      (Function.update_of_ne hne.symm _ _).symm.trans hchild'
    obtain ⟨-, -, hexists⟩ := h.filed name child hnone
    rw [hfree] at hexists
    cases hexists
  | ok child =>
    obtain ⟨hchildName, hchildStore, hchildExists⟩ := hchild child hresult
    refine hkeeps _ (fun n hn => setHandle_of_ne _ hn _) fun child' hchild' => ?_
    rw [Function.update_self] at hchild'
    obtain rfl := Option.some.inj hchild'
    refine ⟨hchildName, ?_, hchildExists⟩
    -- a fork that returned got past its checkpoint
    rcases hview with ⟨-, hhead, -⟩ | ⟨hnot, -, -⟩
    · rw [hchildStore, hhead]
    · refine absurd ?_ hnot
      exact Db.marks_of_forkFrom hresult

/-- Every plain operation keeps the logs leading to the heads. -/
theorem keeps_step (hL : L.Laws) (hS : S.Laws) (hE : E.Laws) {w : World S E}
    (h : Logged L root w) (op : Op S E) (hplain : op.Plain) : Keeps L root w op (w.step op).2 := by
  have hnotFork {op : Op S E} (hop : ∀ snapshotEnv env parent name,
      op ≠ .fork snapshotEnv env parent name) : ∀ n, ¬ForksInto w op n := by
    rintro n ⟨_, _, _, _, _, _, _, hfork, -⟩
    exact hop _ _ _ _ hfork
  cases op with
  | «open» env name opts => exact h.openWith hL hS env name opts
  | close name =>
    exact h.onHandle_kept (hnotFork (by simp)) (fun _ => rfl) fun _ _ hdb' => by cases hdb'
  | execute name sql =>
    refine h.onHandle_kept (hnotFork (by simp)) (fun _ => rfl) fun db _ hdb' => ?_
    obtain rfl := Option.some.inj hdb'
    exact execute_kept db sql
  | executeBatch name sql =>
    refine h.onHandle_kept (hnotFork (by simp)) (fun _ => rfl) fun db _ hdb' => ?_
    obtain rfl := Option.some.inj hdb'
    exact executeBatch_kept db sql
  | query name sql =>
    refine h.onHandle_kept (hnotFork (by simp)) (fun _ => rfl) fun db _ hdb' => ?_
    obtain rfl := Option.some.inj hdb'
    exact query_kept db sql
  | snapshot env name =>
    rw [step, onHandle]
    cases hdb : w.handles name with
    | none => exact h.keeps_self (hnotFork (by simp))
    | some db =>
      obtain ⟨hcontinues, hname, hstore, hexists⟩ := h.snapshot hL hS hE hdb env
      refine h.keeps (hnotFork (by simp)) hcontinues (fun n hn => setHandle_of_ne _ hn _)
        fun db' hdb' => ?_
      rw [Function.update_self] at hdb'
      obtain rfl := Option.some.inj hdb'
      exact ⟨hname, hstore, hexists⟩
  | fork snapshotEnv env parent name =>
    cases hdb : w.handles parent with
    | none =>
      have hno : ∀ n, ¬ForksInto w (.fork snapshotEnv env parent name) n := by
        rintro n ⟨_, _, _, db, _, _, _, hop, hdb', -⟩
        cases hop
        rw [hdb] at hdb'
        cases hdb'
      rw [step, hdb]
      exact h.keeps_self hno
    | some db =>
      rcases Db.fork_cases snapshotEnv env db w.pool name with
        ⟨hrefused, e, hfork⟩ |
        ⟨hvalid, hfree, ⟨e, db', pool', hsnapshot, -⟩ | ⟨m, db', pool', hsnapshot, -⟩⟩
      · have hno : ∀ n, ¬ForksInto w (.fork snapshotEnv env parent name) n := by
          rintro n ⟨_, _, _, _, _, _, _, hop, -, hvalid, hfree, -⟩
          cases hop
          rcases hrefused with ⟨e, hinvalid⟩ | hexists
          · rw [hvalid] at hinvalid
            cases hinvalid
          · rw [hfree] at hexists
            cases hexists
        obtain ⟨hname, -, hexists⟩ := h.filed parent db hdb
        simp only [step, hdb, hfork]
        refine h.keeps hno (.refl L root parent w.pool) (fun n hn => setHandle_of_ne _ hn _)
          fun db' hdb' => ?_
        rw [Function.update_self] at hdb'
        obtain rfl := Option.some.inj hdb'
        exact ⟨hname, h.heads parent db hdb, hexists⟩
      · have hno : ∀ n, ¬ForksInto w (.fork snapshotEnv env parent name) n := by
          rintro n ⟨_, _, _, db₁, _, _, _, hop, hdb₁, -, -, hsnapshot₁, -⟩
          cases hop
          obtain rfl := Option.some.inj (hdb.symm.trans hdb₁)
          cases hsnapshot.symm.trans hsnapshot₁
        have hfork : db.fork snapshotEnv env w.pool name = (.error e, db', pool') := by
          rw [Db.fork, hvalid]
          simp only [hfree, hsnapshot]
        obtain ⟨hcontinues, hname, hstore, hexists⟩ := h.snapshot hL hS hE hdb snapshotEnv
        rw [hsnapshot] at hcontinues hname hstore hexists
        simp only [step, hdb, hfork]
        refine h.keeps hno hcontinues (fun n hn => setHandle_of_ne _ hn _) fun db'' hdb'' => ?_
        rw [Function.update_self] at hdb''
        obtain rfl := Option.some.inj hdb''
        exact ⟨hname, hstore, hexists⟩
      · exact h.forkFrom hL hS hE hdb hvalid hfree hsnapshot
  | restore env name m => exact hplain.elim
  | sleep env faults fuel name remotePool => exact hplain.elim

/-- In an empty pool every log leads to its head. -/
theorem logged_start (hL : L.Laws) (hS : S.Recovers) {pool : Pool S}
    (hempty : ∀ n, pool.dbs n = none) (hroot : S.emptyRoot pool.pageSize = .ok root)
    (hsize : 0 < pool.pageSize) : Logged (E := E) L root (start pool) where
  filed := filed_start pool
  heads := fun _ _ hdb => by cases hdb
  logs := fun n => (Pool.recorded_of_free hL hS hroot (hempty n)).2
  root_eq := hroot
  pageSize_pos := hsize

/-- A run of plain operations keeps the logs leading to the heads. A log that started at the root
still does if no fork into its name was made, and one that did not never will. -/
theorem logged_run (hL : L.Laws) (hS : S.Laws) (hE : E.Laws) {w : World S E}
    (h : Logged L root w) {ops : List (Op S E)} (hplain : ∀ op ∈ ops, op.Plain) (n : String) :
    Logged L root (run step w ops).2 ∧
      (startHead L root (run step w ops).2 n = root ↔
        startHead L root w n = root ∧ Along step (fun w op => ¬ForksInto w op n) w ops) := by
  induction ops generalizing w with
  | nil => exact ⟨h, (and_iff_left trivial).symm⟩
  | cons op ops ih =>
    rw [List.forall_mem_cons] at hplain
    obtain ⟨hstep, hcases⟩ := keeps_step hL hS hE h op hplain.1
    obtain ⟨hlast, hiff⟩ := ih hstep hplain.2
    refine ⟨hlast, hiff.trans ?_⟩
    rw [Along, ← and_assoc]
    refine and_congr_left fun _ => ?_
    rcases hcases n with ⟨hforks, hmarked⟩ | ⟨hnot, hsame⟩
    · exact iff_of_false hmarked fun hboth => hboth.2 hforks
    · rw [hsame]
      exact (and_iff_left hnot).symm

end World

namespace Replica

/-- Shipments of linked, derived commits from the replica's head on are all applied. -/
theorem applyAll_of_linked (hS : S.Laws) {r : Replica S} {commits : List (Commit S)}
    (hlinked : Chain.Linked r.head (commits.map Commit.link)) (hderived : ∀ c ∈ commits, c.Derived)
    {shipments : List (Shipment S)}
    (hcarries : List.Forall₂ (fun c s => Carries s c) commits shipments) (advanced : ℕ) :
    ∃ n r', applyAll (fun _ => .none) r advanced shipments = (.ok n, r') := by
  induction hcarries generalizing r advanced with
  | nil => exact ⟨advanced, r, rfl⟩
  | @cons c s commits shipments hs hrest ih =>
    rw [List.forall_mem_cons] at hderived
    obtain ⟨hbase, hlinked⟩ := hlinked
    have hsource : s.base = r.head := hs.base.trans hbase
    have hthrough : stopError .none s = none := stopError_none.mpr hs.intact
    have hfollow := apply_follow hS r (hs.derived hderived.1) hthrough
    have hnext : (verdict (r.apply .none s).1 ≠ .refused) ∧
        (r.apply .none s).2.head = c.manifest := by
      rw [← hs.manifest]
      by_cases htarget : r.head = s.manifest
      · have hpresent : Chain.follow r.head s.link = (.present, r.head) :=
          Chain.follow_target htarget
        rw [hpresent, Prod.mk.injEq] at hfollow
        exact ⟨by rw [hfollow.1]; decide, hfollow.2.trans htarget⟩
      · have hadvanced : Chain.follow r.head s.link = (.advanced, s.manifest) :=
          Chain.follow_source htarget hsource.symm
        rw [hadvanced, Prod.mk.injEq] at hfollow
        exact ⟨by rw [hfollow.1]; decide, hfollow.2⟩
    rw [applyAll]
    rcases hresult : r.apply .none s with ⟨e | applied, r₁⟩
    · rw [hresult] at hnext
      exact absurd rfl hnext.1
    · rw [hresult] at hnext
      have hlinked₁ : Chain.Linked r₁.head (commits.map Commit.link) := by
        rw [hnext.2]
        exact hlinked
      exact ih hlinked₁ hderived.2 _

/-- A replica at the empty root catches up with a log that starts there, up to the head that the
log leads to. A log that starts elsewhere does not know it. -/
theorem catchUp_of_recorded {L : Logs S} (hL : L.Laws) (hS : S.Laws) {root : S.ManifestId}
    {pool : Pool S} (hroot : S.emptyRoot pool.pageSize = .ok root) {name : String}
    (h : pool.Recorded L root name) {r : Replica S} (hhead : r.head = root) (walDir : String) :
    let src : WalSource S := ⟨L.files (pool.wal name), walDir, pool.cas, pool.pageSize⟩
    ((pool.logView L name).startHead root = root → ∃ n r',
        r.catchUp (fun _ => .none) src = (.ok n, r') ∧ r'.head = pool.recoveredHead name) ∧
      ((pool.logView L name).startHead root ≠ root →
        r.catchUp (fun _ => .none) src = (.error (.followerUnknown (S.manifestHex root)), r)) := by
  intro src
  set v := pool.logView L name with hv
  have hcheckpoint : src.readCheckpoint = .ok v.marker := hL.readCheckpoint_eq _ _ _ _
  have hrecords : src.records = .ok v.records := hL.records_eq _ _ _ _
  have hstart : src.startHead = .ok (v.startHead root) := by
    rw [WalSource.startHead, hcheckpoint, LogView.startHead]
    cases v.marker with
    | none =>
      have hsrc : S.emptyRoot src.pageSize = .ok root := hroot
      simp only [bind, Except.bind, hsrc]
      rfl
    | some marker => rfl
  have hfold : src.shipmentsFrom 0 = (v.commits root).mapM src.ship := by
    have hall : (v.commits root).filter (fun c => 0 ≤ c.lsn) = v.commits root :=
      List.filter_eq_self.mpr fun c _ => decide_eq_true (Nat.zero_le c.lsn)
    rw [← hall]
    simp only [WalSource.shipmentsFrom, hcheckpoint, hstart, hrecords, bind, Except.bind]
    exact src.foldRecords_eq _ _ _ _ _
  obtain ⟨shipments, hshipments⟩ : ∃ shipments, src.shipmentsFrom 0 = .ok shipments := by
    rw [hfold, Fallible.mapM_isOk_iff]
    exact fun c hc => WalSource.ship_isOk (h.pages c hc)
  have hcarries : List.Forall₂ (fun c s => Carries s c) (v.commits root) shipments := by
    refine (Fallible.mapM_eq_ok_iff.mp (hfold.symm.trans hshipments)).imp fun c s hship => ?_
    exact (WalSource.carries_of_ship hS.toContentAddressed hship).1
  have hstore : r.store.head = root := hhead
  refine ⟨fun hsame => ?_, fun hne => ?_⟩
  · have hresume : src.resumeAfter r.store.head = .ok 0 := by
      simp only [WalSource.resumeAfter, hstart, hsame, hstore, bind, Except.bind]
      rw [if_pos trivial]
      rfl
    have hlinked : Chain.Linked r.head ((v.commits root).map Commit.link) := by
      have hleads := h.leads.linked
      rw [← hv, hsame] at hleads
      rw [hhead]
      exact hleads
    obtain ⟨n, r', hall⟩ := applyAll_of_linked hS hlinked h.leads.derived hcarries 0
    refine ⟨n, r', ?_, ?_⟩
    · simp only [catchUp, hresume, hshipments, hall]
    · have hend := h.leads.head_eq
      rw [← hv, hsame, headAfter] at hend
      rw [applyAll_head hS _ hall, hhead, ← hend]
      have hlast : shipments.getLast?.map Shipment.manifest =
          (v.commits root).getLast?.map Commit.manifest := by
        rw [← List.getLast?_map, ← List.getLast?_map]
        congr 1
        rw [← List.forall₂_eq_eq_eq, List.forall₂_map_left_iff, List.forall₂_map_right_iff]
        exact hcarries.flip.imp fun _ _ hs => hs.manifest
      rw [hlast]
  · have hunknown : src.resumeAfter r.store.head =
        .error (.followerUnknown (S.manifestHex root)) := by
      have hnone : shipments.find? (fun shipment => shipment.manifest = root) = none := by
        refine List.find?_eq_none.mpr fun s hs => ?_
        obtain ⟨j, hj⟩ := List.mem_iff_getElem?.mp hs
        obtain ⟨c, hc, hsc⟩ := Positions.exists_of_forall₂_right hcarries hj
        have hnot := h.ne_root c (List.mem_of_getElem? hc)
        rw [← hsc.manifest] at hnot
        simpa using hnot
      simp only [WalSource.resumeAfter, hstart, hstore, hshipments, bind, Except.bind]
      rw [if_neg hne.symm]
      simp only [hnone]
      rfl
    simp only [catchUp, hunknown]

end Replica

namespace ReadReplica

/-- A read replica that has been opened on a pool without its database stands at the root. -/
theorem head_of_openWith (hS : S.Recovers) {env : Env S E} {pool pool' : Pool S} {dbName : String}
    (hfree : pool.dbs dbName = none) {opts : KernelOpts} {r : ReadReplica S E}
    (h : openWith env pool dbName opts = (.ok r, pool')) :
    S.emptyRoot pool.pageSize = .ok r.replica.head := by
  rw [openWith] at h
  cases hname : (validateName dbName : Except (FlockError S E) Unit) with
  | error e =>
    rw [hname] at h
    cases h
  | ok _ =>
    simp only [hname] at h
    obtain ⟨-, hstands⟩ := openStore_recoveredHead (E := E) hS env pool dbName
      "open the replica's durable store" "replay the replica's log"
    have hopens := openStore_ok_iff (E := E) env pool dbName "open the replica's durable store"
      "replay the replica's log"
    rcases hstore : (openStore env pool dbName "open the replica's durable store"
        "replay the replica's log" : Except (FlockError S E) S.ManifestId × Pool S) with
      ⟨e | head, pool''⟩
    · simp only [hstore] at h
      cases h
    · rw [hstore] at hstands hopens
      obtain ⟨-, -, ⟨root, hroot⟩, -⟩ := hopens.mp ⟨head, rfl⟩
      have hwal : pool.wal dbName = S.freshWal := by
        rw [Pool.wal, hfree]
        rfl
      have hhead : head = root := by
        rw [hstands head rfl, Pool.recoveredHead, hwal, hS.recovered_freshWal hroot]
      simp only [hstore] at h
      cases hopen : (DuckDbKernel.open pageStore (pool''.durable dbName head) opts env.kernel :
          Except (KernelError S E.Error) (DuckDbKernel E)) with
      | error source =>
        simp only [hopen] at h
        cases h
      | ok kernel =>
        simp only [hopen] at h
        cases h
        exact hroot.trans (congrArg Except.ok hhead.symm)

/-- **Following from nothing.** After any run of operations on an empty pool, a read replica that
was just set up catches up with a database, and ends at its head, exactly if the run made no fork
into that database's name. -/
theorem follows_from_nothing_iff {L : Logs S} (hL : L.Laws) (hS : S.Laws) (hE : E.Laws)
    {pool : Pool S} (hempty : ∀ n, pool.dbs n = none) (hsize : 0 < pool.pageSize)
    {ops : List (Op S E)} (hplain : ∀ op ∈ ops, op.Plain) {n : String} {db : Db S E}
    (hdb : (run World.step (World.start pool) ops).2.handles n = some db)
    {env : Env S E} {replicaPool replicaPool' : Pool S} {name : String} {opts : KernelOpts}
    {r : ReadReplica S E} (hfresh : replicaPool.dbs name = none)
    (hpageSize : replicaPool.pageSize = pool.pageSize)
    (hopen : openWith env replicaPool name opts = (.ok r, replicaPool')) :
    (∃ src advanced r',
        db.walSource L.files (run World.step (World.start pool) ops).2.pool = .ok src ∧
        r.catchUp (fun _ => .none) src = (.ok advanced, r') ∧ r'.appliedHead = db.head) ↔
      Along World.step (fun w op => ¬w.ForksInto op n) (World.start pool) ops := by
  have hroot := head_of_openWith hS.toRecovers hfresh hopen
  rw [hpageSize] at hroot
  have hstart := World.logged_start (E := E) hL hS.toRecovers hempty hroot hsize
  obtain ⟨hlogged, hiff⟩ := World.logged_run hL hS hE hstart hplain n
  have hnew : World.startHead (E := E) L r.replica.head (World.start pool) n = r.replica.head := by
    have hview := (Pool.recorded_of_free hL hS.toRecovers hroot (hempty n)).1
    rw [World.startHead, World.start, hview]
    rfl
  set w := (run World.step (World.start pool) ops).2
  rw [and_iff_right hnew] at hiff
  rw [← hiff]
  obtain ⟨rfl, -, -⟩ := hlogged.filed n db hdb
  have hstore := hlogged.heads _ db hdb
  have hsource : db.walSource L.files w.pool = .ok ⟨L.files (w.pool.wal db.name),
      w.pool.dbDir db.name ++ "/wal", w.pool.cas, w.pool.pageSize⟩ := by
    rw [Db.walSource, hstore]
  have hhead : db.head = w.pool.recoveredHead db.name := by
    rw [Db.head, hstore]
    rfl
  obtain ⟨hfollows, hunknown⟩ := Replica.catchUp_of_recorded hL hS hlogged.root_eq
    (hlogged.logs db.name) (rfl : r.replica.head = r.replica.head)
    (w.pool.dbDir db.name ++ "/wal")
  rw [hsource, hhead]
  constructor
  · rintro ⟨src, advanced, r', hsrc, hcaught, -⟩
    by_contra hne
    obtain rfl := Except.ok.inj hsrc
    rw [catchUp, hunknown hne] at hcaught
    cases hcaught
  · intro hsame
    obtain ⟨advanced, replica, hcaught, hend⟩ := hfollows hsame
    refine ⟨_, advanced, { r with replica }, rfl, ?_, hend⟩
    rw [catchUp, hcaught]

/-- A pool without databases. -/
def primaryPool : Pool journaled := ⟨"/pool", 4, ⟨[], []⟩, fun _ => none⟩

/-- The pool of a follower, still empty. -/
def freshPool : Pool journaled := ⟨"/follower", 4, ⟨[], []⟩, fun _ => none⟩

/-- A run that opens a database, writes to it and takes a snapshot. -/
def salesSnapshot : List (Op journaled memoryEngine) :=
  [.open .none "sales" World.noOpts, .execute "sales" "INSERT", .snapshot .none "sales"]

/-- A database that was opened and written to is followed from nothing. -/
theorem follows_from_nothing_sales : ∃ (db : Db journaled memoryEngine)
    (r : ReadReplica journaled memoryEngine) (pool' : Pool journaled),
    (run World.step (World.start primaryPool) salesSnapshot).2.handles "sales" = some db ∧
      openWith .none freshPool "sales" World.noOpts = (.ok r, pool') ∧
      ∃ src advanced r', db.walSource Memory.journals.files
          (run World.step (World.start primaryPool) salesSnapshot).2.pool = .ok src ∧
        r.catchUp (fun _ => .none) src = (.ok advanced, r') ∧ r'.appliedHead = db.head := by
  obtain ⟨db, hdb⟩ : ∃ db,
      (run World.step (World.start primaryPool) salesSnapshot).2.handles "sales" = some db :=
    ⟨_, rfl⟩
  obtain ⟨r, pool', hopen⟩ : ∃ r pool', openWith (E := memoryEngine) .none freshPool "sales"
      World.noOpts = (.ok r, pool') := ⟨_, _, rfl⟩
  have hplain : ∀ op ∈ salesSnapshot, op.Plain := by simp [salesSnapshot, Op.Plain]
  have hnoFork : Along World.step (fun w op => ¬w.ForksInto op "sales")
      (World.start primaryPool) salesSnapshot := by
    refine ⟨?_, ?_, ?_, trivial⟩ <;> rintro ⟨_, _, _, _, _, _, _, hop, -⟩ <;> cases hop
  have hfree : freshPool.dbs "sales" = none := rfl
  have hpageSize : freshPool.pageSize = primaryPool.pageSize := rfl
  exact ⟨db, r, pool', hdb, hopen, (follows_from_nothing_iff Memory.journals_laws
    Memory.journaled_laws memoryEngine_laws (fun _ => rfl) (by decide) hplain hdb hfree hpageSize
    hopen).mpr hnoFork⟩

/-- A run that opens a database, writes to it and forks it. -/
def salesFork : List (Op journaled memoryEngine) :=
  [.open .none "sales" World.noOpts, .execute "sales" "INSERT",
    .fork .none .none "sales" "experiment"]

/-- A replica that was just set up cannot follow a fork: its source does not know the root. -/
theorem fork_refuses_fresh_replica : ∃ (db : Db journaled memoryEngine)
    (r : ReadReplica journaled memoryEngine) (pool' : Pool journaled) (src : WalSource journaled),
    (run World.step (World.start primaryPool) salesFork).2.handles "experiment" = some db ∧
      openWith .none freshPool "experiment" World.noOpts = (.ok r, pool') ∧
      db.walSource Memory.journals.files
        (run World.step (World.start primaryPool) salesFork).2.pool = .ok src ∧
      r.catchUp (fun _ => .none) src =
        (.error (.sync "catch up to the primary" (.followerUnknown "root")), r) := by
  obtain ⟨db, hdb⟩ : ∃ db,
      (run World.step (World.start primaryPool) salesFork).2.handles "experiment" = some db :=
    ⟨_, rfl⟩
  obtain ⟨r, pool', hopen⟩ : ∃ r pool', openWith (E := memoryEngine) .none freshPool "experiment"
      World.noOpts = (.ok r, pool') := ⟨_, _, rfl⟩
  have hhead : r.replica.head = [] :=
    (Except.ok.inj (head_of_openWith Memory.journaled_laws.toRecovers rfl hopen)).symm
  have hplain : ∀ op ∈ salesFork, op.Plain := by simp [salesFork, Op.Plain]
  have hstart : World.Logged (E := memoryEngine) Memory.journals [] (World.start primaryPool) :=
    World.logged_start Memory.journals_laws Memory.journaled_laws.toRecovers (fun _ => rfl) rfl
      (by decide)
  have hlogged := (World.logged_run Memory.journals_laws Memory.journaled_laws memoryEngine_laws
    hstart hplain "experiment").1
  have hview : (run World.step (World.start primaryPool) salesFork).2.pool.logView Memory.journals
      "experiment" = ⟨some ([⟨[(0, some [0, 6])], 0⟩], 0), []⟩ := rfl
  have hmarked : ((run World.step (World.start primaryPool) salesFork).2.pool.logView
      Memory.journals "experiment").startHead [] ≠ [] := by
    rw [hview]
    exact List.cons_ne_nil _ _
  have hstore := hlogged.heads "experiment" db hdb
  obtain ⟨hname, -, -⟩ := hlogged.filed "experiment" db hdb
  have hunknown := (Replica.catchUp_of_recorded Memory.journals_laws Memory.journaled_laws
    hlogged.root_eq (hlogged.logs "experiment") hhead "/pool/dbs/experiment/wal").2 hmarked
  refine ⟨db, r, pool', ⟨Memory.journals.files
    ((run World.step (World.start primaryPool) salesFork).2.pool.wal "experiment"),
    "/pool/dbs/experiment/wal", (run World.step (World.start primaryPool) salesFork).2.pool.cas,
    (run World.step (World.start primaryPool) salesFork).2.pool.pageSize⟩, hdb, hopen, ?_, ?_⟩
  · rw [Db.walSource, hstore, hname]
    rfl
  · rw [catchUp, hunknown]
    rfl

end ReadReplica

end FlockDb
