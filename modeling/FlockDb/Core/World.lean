import FlockDb.Core.Frame
import FlockDb.Kernel.MemoryEngine
import FlockDb.Library.Runs

/-!
# Runs of a pool

A world is a pool with its live handles; an operation is on one of them. All databases of
a pool share one store of pages and manifests, and every operation of every handle may add
to it. Two facts hold of every step: it leaves the directory and the handle of every other
database alone, and every handle stays filed under its own name.
-/

namespace FlockDb

open Runs

variable {S : Substrate} {E : Engine}

/-- A pool and its live handles, at most one for each database. -/
structure World (S : Substrate) (E : Engine) where
  pool : Pool S
  handles : String → Option (Db S E)

/-- One operation on a database of the pool, with the environment it runs in. -/
inductive Op (S : Substrate) (E : Engine) where
  | open (env : Env S E) (name : String) (opts : KernelOpts)
  | close (name : String)
  | execute (name sql : String)
  | executeBatch (name sql : String)
  | query (name sql : String)
  | snapshot (env : Env S E) (name : String)
  | fork (snapshotEnv env : Env S E) (parent name : String)
  | restore (env : Env S E) (name : String) (m : S.ManifestId)
  | sleep (env : Env S E) (faults : SleepFaults S) (fuel : ℕ) (name remotePool : String)

/-- The database that an operation is on; of a fork, the parent. -/
def Op.subject : Op S E → String
  | .open _ name _ | .close name | .execute name _ | .executeBatch name _ | .query name _
  | .snapshot _ name | .fork _ _ name _ | .restore _ name _ | .sleep _ _ _ name _ => name

/-- What an operation answers. -/
inductive Answer (S : Substrate) (E : Engine) where
  | ignored
  | failed (e : FlockError S E)
  | done
  | changed (rows : ℕ)
  | batches (batches : E.Batches)
  | manifest (m : S.ManifestId)
  | slept (uploaded : Option (Uploaded S))

/-- The answer of an operation that returns a result. -/
def Answer.of {α : Type} (f : α → Answer S E) : Except (FlockError S E) α → Answer S E
  | .error e => .failed e
  | .ok a => f a

namespace World

/-- Set or drop the handle of a database. -/
def setHandle (w : World S E) (name : String) (db : Option (Db S E)) : World S E :=
  { w with handles := Function.update w.handles name db }

@[simp] theorem setHandle_self (w : World S E) (name : String) (db : Option (Db S E)) :
    (w.setHandle name db).handles name = db := Function.update_self _ _ _

theorem setHandle_of_ne (w : World S E) {name n : String} (hn : n ≠ name)
    (db : Option (Db S E)) : (w.setHandle name db).handles n = w.handles n :=
  Function.update_of_ne hn _ _

/-- Run an operation on the live handle of a database. -/
def onHandle (w : World S E) (name : String)
    (f : Db S E → Answer S E × Option (Db S E) × Pool S) : Answer S E × World S E :=
  match w.handles name with
  | none => (.ignored, w)
  | some db =>
    let (answer, db, pool) := f db
    (answer, { w with pool }.setHandle name db)

/-- One operation. An operation on a database without a live handle does nothing, and a
database is not opened twice. -/
def step (w : World S E) : Op S E → Answer S E × World S E
  | .open env name opts =>
    match w.handles name with
    | some _ => (.ignored, w)
    | none =>
      match Flock.openWith env w.pool name opts with
      | (.error e, pool) => (.failed e, { w with pool })
      | (.ok db, pool) => (.done, { w with pool }.setHandle name (some db))
  | .close name => w.onHandle name fun _ => (.done, none, w.pool)
  | .execute name sql => w.onHandle name fun db =>
    let (result, db) := db.execute sql
    (.of .changed result, some db, w.pool)
  | .executeBatch name sql => w.onHandle name fun db =>
    let (result, db) := db.executeBatch sql
    (.of (fun _ => .done) result, some db, w.pool)
  | .query name sql => w.onHandle name fun db =>
    let (result, db) := db.query sql
    (.of .batches result, some db, w.pool)
  | .snapshot env name => w.onHandle name fun db =>
    let (result, db, pool) := db.snapshot env w.pool
    (.of .manifest result, some db, pool)
  | .fork snapshotEnv env parent name =>
    match w.handles parent with
    | none => (.ignored, w)
    | some db =>
      match db.fork snapshotEnv env w.pool name with
      | (.error e, db, pool) => (.failed e, { w with pool }.setHandle parent (some db))
      | (.ok child, db, pool) =>
        (.done, ({ w with pool }.setHandle parent (some db)).setHandle name (some child))
  | .restore env name m => w.onHandle name fun db =>
    let (result, db, pool) := db.restore env w.pool m
    (.of (fun _ => .done) result, some db, pool)
  | .sleep env faults fuel name remotePool => w.onHandle name fun db =>
    let (result, pool) := db.sleep env faults fuel w.pool remotePool
    (.of .slept result, none, pool)

/-- A pool as it lies on disk, with no live handle. -/
def start (pool : Pool S) : World S E := ⟨pool, fun _ => none⟩

/-- Every handle is filed under its own name, is local to the pool, and its database exists. -/
def Filed (w : World S E) : Prop :=
  ∀ n db, w.handles n = some db → db.name = n ∧ db.Local ∧ (w.pool.dbs n).isSome

/-- What another database's operation leaves alone: the directory and the handle of a
database, and whatever the shared store had. -/
structure Aside (n : String) (w w' : World S E) : Prop where
  pageSize_eq : w'.pool.pageSize = w.pool.pageSize
  grows : S.Grows w.pool.cas w'.pool.cas
  dir_eq : w'.pool.dbs n = w.pool.dbs n
  handle_eq : w'.handles n = w.handles n

/-- Nothing happened. -/
theorem Aside.refl (n : String) (w : World S E) : Aside n w w := ⟨rfl, .refl _, rfl, rfl⟩

/-- Leaving a database alone composes. -/
theorem Aside.trans {n : String} {w w' w'' : World S E} (h : Aside n w w')
    (h' : Aside n w' w'') : Aside n w w'' :=
  ⟨h'.pageSize_eq.trans h.pageSize_eq, h.grows.trans h'.grows, h'.dir_eq.trans h.dir_eq,
    h'.handle_eq.trans h.handle_eq⟩

/-- Moving the pool in the hands of one database and setting its handle leaves every other
database alone. -/
theorem aside_setHandle {w : World S E} {pool : Pool S} {name n : String}
    (h : w.pool.Beside name pool) (hn : n ≠ name) (db : Option (Db S E)) :
    Aside n w ({ w with pool }.setHandle name db) :=
  ⟨h.pageSize_eq, h.grows, h.dbs_eq n hn, setHandle_of_ne _ hn _⟩

/-- An operation on a handle leaves every other database alone. -/
theorem aside_onHandle {w : World S E} {name n : String} (hn : n ≠ name)
    {f : Db S E → Answer S E × Option (Db S E) × Pool S}
    (hf : ∀ db, w.handles name = some db → w.pool.Beside name (f db).2.2) :
    Aside n w (w.onHandle name f).2 := by
  rw [onHandle]
  cases hhandle : w.handles name with
  | none => exact .refl n w
  | some db => exact aside_setHandle (hf db hhandle) hn _

/-- Executing SQL keeps the name and the store of a handle. -/
theorem execute_kept (db : Db S E) (sql : String) :
    (db.execute sql).2.name = db.name ∧ (db.execute sql).2.store = db.store := by
  rw [Db.execute]
  rcases (db.kernel.execute sql : Except (KernelError S E.Error) ℕ × DuckDbKernel E) with
    ⟨e | rows, kernel⟩ <;> exact ⟨rfl, rfl⟩

/-- Executing a script keeps the name and the store of a handle. -/
theorem executeBatch_kept (db : Db S E) (sql : String) :
    (db.executeBatch sql).2.name = db.name ∧ (db.executeBatch sql).2.store = db.store := by
  rw [Db.executeBatch]
  rcases (db.kernel.executeBatch sql : Except (KernelError S E.Error) Unit × DuckDbKernel E) with
    ⟨e | rows, kernel⟩ <;> exact ⟨rfl, rfl⟩

/-- A query keeps the name and the store of a handle. -/
theorem query_kept (db : Db S E) (sql : String) :
    (db.query sql).2.name = db.name ∧ (db.query sql).2.store = db.store := by
  rw [Db.query]
  rcases (db.kernel.query sql : Except (KernelError S E.Error) E.Batches × DuckDbKernel E) with
    ⟨e | rows, kernel⟩ <;> exact ⟨rfl, rfl⟩

/-- A fork leaves every existing database but the parent alone. -/
theorem aside_fork (hS : S.Laws) {w : World S E} {parent name n : String} {db : Db S E}
    (hparent : db.name = parent) (hn : n ≠ parent) (hexists : (w.pool.dbs n).isSome)
    (snapshotEnv env : Env S E) (hhandle : w.handles parent = some db) :
    Aside n w (w.step (.fork snapshotEnv env parent name)).2 := by
  have hstep : (w.step (.fork snapshotEnv env parent name)).2 =
      (match db.fork snapshotEnv env w.pool name with
      | (.error _, db, pool) => { w with pool }.setHandle parent (some db)
      | (.ok child, db, pool) =>
        ({ w with pool }.setHandle parent (some db)).setHandle name (some child)) := by
    simp only [step, hhandle]
    rcases db.fork snapshotEnv env w.pool name with ⟨e | child, db', pool'⟩ <;> rfl
  rw [hstep]
  rcases Db.fork_cases snapshotEnv env db w.pool name with
    ⟨-, e, hfork⟩ |
      ⟨-, hfree, ⟨e, db', pool', hsnapshot, hfork⟩ | ⟨m, db', pool', hsnapshot, hfork⟩⟩
  · rw [hfork]
    exact aside_setHandle (.refl parent w.pool) hn _
  · obtain ⟨hbeside, -, -⟩ := Db.beside_snapshot hS snapshotEnv db w.pool
    rw [hsnapshot, hparent] at hbeside
    rw [hfork]
    exact aside_setHandle hbeside hn _
  · -- the new name is free, so it is not the name of an existing database
    have hne : n ≠ name := by
      rintro rfl
      rw [hfree] at hexists
      cases hexists
    obtain ⟨hbeside, -, -⟩ := Db.beside_snapshot hS snapshotEnv db w.pool
    rw [hsnapshot, hparent] at hbeside
    obtain ⟨hfrom, -⟩ := Db.beside_forkFrom hS.toRecovers env db' pool' name m
    rw [hfork]
    have hpool : Aside n w { w with pool := (Db.forkFrom env db' pool' name m).2 } :=
      ⟨hfrom.pageSize_eq.trans hbeside.pageSize_eq, hbeside.grows.trans hfrom.grows,
        (hfrom.dbs_eq n hne).trans (hbeside.dbs_eq n hn), rfl⟩
    cases (Db.forkFrom env db' pool' name m).1 with
    | error e => exact ⟨hpool.pageSize_eq, hpool.grows, hpool.dir_eq, setHandle_of_ne _ hn _⟩
    | ok child =>
      refine ⟨hpool.pageSize_eq, hpool.grows, hpool.dir_eq, ?_⟩
      exact (setHandle_of_ne _ hne _).trans (setHandle_of_ne _ hn _)

/-- One operation leaves every existing database alone that it is not on. -/
theorem aside_step (hS : S.Laws) {w : World S E} (hfiled : Filed w) (op : Op S E) {n : String}
    (hn : n ≠ op.subject) (hexists : (w.pool.dbs n).isSome) : Aside n w (w.step op).2 := by
  cases op with
  | «open» env name opts =>
    rw [step]
    cases w.handles name with
    | some db => exact .refl n w
    | none =>
      obtain ⟨hbeside, -⟩ := Db.beside_openWith hS.toRecovers env w.pool name opts
      simp only
      rcases hopened : Flock.openWith env w.pool name opts with ⟨e | db, pool⟩
      · rw [hopened] at hbeside
        exact ⟨hbeside.pageSize_eq, hbeside.grows, hbeside.dbs_eq n hn, rfl⟩
      · rw [hopened] at hbeside
        exact aside_setHandle hbeside hn _
  | close name => exact aside_onHandle hn fun db _ => .refl name w.pool
  | execute name sql => exact aside_onHandle hn fun db _ => .refl name w.pool
  | executeBatch name sql => exact aside_onHandle hn fun db _ => .refl name w.pool
  | query name sql => exact aside_onHandle hn fun db _ => .refl name w.pool
  | snapshot env name =>
    refine aside_onHandle hn fun db hdb => ?_
    obtain ⟨hbeside, -, -⟩ := Db.beside_snapshot hS env db w.pool
    rwa [(hfiled name db hdb).1] at hbeside
  | fork snapshotEnv env parent name =>
    cases hdb : w.handles parent with
    | none =>
      rw [step, hdb]
      exact .refl n w
    | some db => exact aside_fork hS (hfiled parent db hdb).1 hn hexists snapshotEnv env hdb
  | restore env name m =>
    refine aside_onHandle hn fun db hdb => ?_
    obtain ⟨hbeside, -, -⟩ := Db.beside_restore env db w.pool m
    rwa [(hfiled name db hdb).1] at hbeside
  | sleep env faults fuel name remotePool =>
    refine aside_onHandle hn fun db hdb => ?_
    have hbeside := Db.beside_sleep hS env faults fuel db w.pool remotePool
    rwa [(hfiled name db hdb).1] at hbeside

/-- Moving the pool in the hands of one database, and filing its handle, keeps every handle
filed. -/
theorem Filed.setHandle {w : World S E} (h : Filed w) {pool : Pool S} {name : String}
    (hbeside : w.pool.Beside name pool) {db : Option (Db S E)}
    (hdb : ∀ db', db = some db' → db'.name = name ∧ db'.Local ∧ (pool.dbs name).isSome) :
    Filed ({ w with pool }.setHandle name db) := by
  intro n db' hn
  by_cases heq : n = name
  · subst heq
    rw [setHandle_self] at hn
    exact hdb db' hn
  · rw [setHandle_of_ne _ heq] at hn
    obtain ⟨hname, hlocal, hexists⟩ := h n db' hn
    exact ⟨hname, hlocal, hbeside.isSome_of hexists⟩

/-- An operation on a handle keeps every handle filed if it keeps that one. -/
theorem Filed.onHandle {w : World S E} (h : Filed w) {name : String}
    {f : Db S E → Answer S E × Option (Db S E) × Pool S}
    (hf : ∀ db, db.name = name → db.Local → w.pool.Beside name (f db).2.2 ∧
      ∀ db', (f db).2.1 = some db' → db'.name = name ∧ db'.Local) :
    Filed (w.onHandle name f).2 := by
  rw [World.onHandle]
  cases hhandle : w.handles name with
  | none => exact h
  | some db =>
    obtain ⟨hname, hlocal, hexists⟩ := h name db hhandle
    obtain ⟨hbeside, hkept⟩ := hf db hname hlocal
    refine h.setHandle hbeside fun db' hdb' => ?_
    obtain ⟨hname', hlocal'⟩ := hkept db' hdb'
    exact ⟨hname', hlocal', hbeside.isSome hexists⟩

/-- A handle that keeps its name and its store stays filed. -/
theorem filed_of_kept {db db' : Db S E} {name : String} (hname : db.name = name)
    (hlocal : db.Local) (hkept : db'.name = db.name ∧ db'.store = db.store) :
    db'.name = name ∧ db'.Local := by
  obtain ⟨head, hstore⟩ := hlocal
  exact ⟨hkept.1.trans hname, head, hkept.2.trans hstore⟩

/-- A fork keeps every handle filed. -/
theorem filed_fork (hS : S.Laws) {w : World S E} (h : Filed w) (snapshotEnv env : Env S E)
    (parent name : String) : Filed (w.step (.fork snapshotEnv env parent name)).2 := by
  cases hdb : w.handles parent with
  | none =>
    rw [step, hdb]
    exact h
  | some db =>
    obtain ⟨hname, hlocal, hexists⟩ := h parent db hdb
    obtain ⟨hbeside, hname', hlocal'⟩ := Db.beside_snapshot hS snapshotEnv db w.pool
    rw [hname] at hbeside
    simp only [step, hdb]
    rcases Db.fork_cases snapshotEnv env db w.pool name with
      ⟨-, e, hfork⟩ |
      ⟨-, -, ⟨e, db', pool', hsnapshot, hfork⟩ | ⟨m, db', pool', hsnapshot, hfork⟩⟩
    · rw [hfork]
      refine h.setHandle (.refl parent w.pool) fun db' hdb' => ?_
      obtain rfl := Option.some.inj hdb'
      exact ⟨hname, hlocal, hexists⟩
    · rw [hsnapshot] at hbeside hname' hlocal'
      rw [hfork]
      refine h.setHandle hbeside fun db'' hdb'' => ?_
      obtain rfl := Option.some.inj hdb''
      exact ⟨hname'.trans hname, hlocal' hlocal, hbeside.isSome hexists⟩
    · rw [hsnapshot] at hbeside hname' hlocal'
      rw [hfork]
      have hparent : Filed ({ w with pool := pool' }.setHandle parent (some db')) := by
        refine h.setHandle hbeside fun db'' hdb'' => ?_
        obtain rfl := Option.some.inj hdb''
        exact ⟨hname'.trans hname, hlocal' hlocal, hbeside.isSome hexists⟩
      obtain ⟨hfrom, hchild⟩ := Db.beside_forkFrom hS.toRecovers env db' pool' name m
      cases hresult : (Db.forkFrom env db' pool' name m).1 with
      | error e =>
        intro n db'' hn
        obtain ⟨hn', hlocal'', hexists''⟩ := hparent n db'' hn
        exact ⟨hn', hlocal'', hfrom.isSome_of hexists''⟩
      | ok child =>
        refine hparent.setHandle hfrom fun child' hchild' => ?_
        obtain rfl := Option.some.inj hchild'
        obtain ⟨hchildName, hchildStore, hchildExists⟩ := hchild child hresult
        exact ⟨hchildName, ⟨m, hchildStore⟩, hchildExists⟩

/-- Every operation keeps every handle filed. -/
theorem filed_step (hS : S.Laws) {w : World S E} (h : Filed w) (op : Op S E) :
    Filed (w.step op).2 := by
  cases op with
  | «open» env name opts =>
    rw [step]
    cases w.handles name with
    | some db => exact h
    | none =>
      obtain ⟨hbeside, hfiled⟩ := Db.beside_openWith hS.toRecovers env w.pool name opts
      simp only
      rcases hopened : Flock.openWith env w.pool name opts with ⟨e | db, pool⟩
      · rw [hopened] at hbeside
        intro n db hn
        obtain ⟨hname, hlocal, hexists⟩ := h n db hn
        exact ⟨hname, hlocal, hbeside.isSome_of hexists⟩
      · rw [hopened] at hbeside hfiled
        refine h.setHandle hbeside fun db' hdb' => ?_
        obtain rfl := Option.some.inj hdb'
        exact hfiled db rfl
  | close name =>
    exact h.onHandle fun db _ _ => ⟨.refl name w.pool, fun db' hdb' => by cases hdb'⟩
  | execute name sql =>
    refine h.onHandle fun db hname hlocal => ⟨.refl name w.pool, fun db' hdb' => ?_⟩
    obtain rfl := Option.some.inj hdb'
    exact filed_of_kept hname hlocal (execute_kept db sql)
  | executeBatch name sql =>
    refine h.onHandle fun db hname hlocal => ⟨.refl name w.pool, fun db' hdb' => ?_⟩
    obtain rfl := Option.some.inj hdb'
    exact filed_of_kept hname hlocal (executeBatch_kept db sql)
  | query name sql =>
    refine h.onHandle fun db hname hlocal => ⟨.refl name w.pool, fun db' hdb' => ?_⟩
    obtain rfl := Option.some.inj hdb'
    exact filed_of_kept hname hlocal (query_kept db sql)
  | snapshot env name =>
    refine h.onHandle fun db hname hlocal => ?_
    obtain ⟨hbeside, hname', hlocal'⟩ := Db.beside_snapshot hS env db w.pool
    refine ⟨hname ▸ hbeside, fun db' hdb' => ?_⟩
    obtain rfl := Option.some.inj hdb'
    exact ⟨hname'.trans hname, hlocal' hlocal⟩
  | fork snapshotEnv env parent name => exact filed_fork hS h snapshotEnv env parent name
  | restore env name m =>
    refine h.onHandle fun db hname hlocal => ?_
    obtain ⟨hbeside, hname', hlocal'⟩ := Db.beside_restore env db w.pool m
    refine ⟨hname ▸ hbeside, fun db' hdb' => ?_⟩
    obtain rfl := Option.some.inj hdb'
    exact ⟨hname'.trans hname, hlocal' hlocal⟩
  | sleep env faults fuel name remotePool =>
    refine h.onHandle fun db hname hlocal => ?_
    have hbeside := Db.beside_sleep hS env faults fuel db w.pool remotePool
    exact ⟨hname ▸ hbeside, fun db' hdb' => by cases hdb'⟩

/-- A pool whose shared store grew, under the same page size. -/
structure Onward (w w' : World S E) : Prop where
  pageSize_eq : w'.pool.pageSize = w.pool.pageSize
  grows : S.Grows w.pool.cas w'.pool.cas

/-- An operation on a handle goes on if it moves the pool in the hands of one database. -/
theorem onward_onHandle {w : World S E} {name : String}
    {f : Db S E → Answer S E × Option (Db S E) × Pool S}
    (hf : ∀ db, ∃ n, w.pool.Beside n (f db).2.2) : Onward w (w.onHandle name f).2 := by
  rw [onHandle]
  cases w.handles name with
  | none => exact ⟨rfl, .refl _⟩
  | some db =>
    obtain ⟨n, hbeside⟩ := hf db
    exact ⟨hbeside.pageSize_eq, hbeside.grows⟩

/-- Every operation goes on. -/
theorem onward_step (hS : S.Laws) (w : World S E) (op : Op S E) : Onward w (w.step op).2 := by
  cases op with
  | «open» env name opts =>
    rw [step]
    cases w.handles name with
    | some db => exact ⟨rfl, .refl _⟩
    | none =>
      obtain ⟨hbeside, -⟩ := Db.beside_openWith hS.toRecovers env w.pool name opts
      simp only
      rcases hopened : Flock.openWith env w.pool name opts with ⟨e | db, pool⟩
      · rw [hopened] at hbeside
        exact ⟨hbeside.pageSize_eq, hbeside.grows⟩
      · rw [hopened] at hbeside
        exact ⟨hbeside.pageSize_eq, hbeside.grows⟩
  | close name => exact onward_onHandle fun db => ⟨name, .refl name w.pool⟩
  | execute name sql => exact onward_onHandle fun db => ⟨name, .refl name w.pool⟩
  | executeBatch name sql => exact onward_onHandle fun db => ⟨name, .refl name w.pool⟩
  | query name sql => exact onward_onHandle fun db => ⟨name, .refl name w.pool⟩
  | snapshot env name =>
    exact onward_onHandle fun db => ⟨_, (Db.beside_snapshot hS env db w.pool).1⟩
  | fork snapshotEnv env parent name =>
    cases hdb : w.handles parent with
    | none =>
      rw [step, hdb]
      exact ⟨rfl, .refl _⟩
    | some db =>
      simp only [step, hdb]
      obtain ⟨hbeside, -, -⟩ := Db.beside_snapshot hS snapshotEnv db w.pool
      rcases Db.fork_cases snapshotEnv env db w.pool name with
        ⟨-, e, hfork⟩ |
        ⟨-, -, ⟨e, db', pool', hsnapshot, hfork⟩ | ⟨m, db', pool', hsnapshot, hfork⟩⟩
      · rw [hfork]
        exact ⟨rfl, .refl _⟩
      · rw [hsnapshot] at hbeside
        rw [hfork]
        exact ⟨hbeside.pageSize_eq, hbeside.grows⟩
      · rw [hsnapshot] at hbeside
        obtain ⟨hfrom, -⟩ := Db.beside_forkFrom hS.toRecovers env db' pool' name m
        have honward : w.pool.pageSize = (Db.forkFrom env db' pool' name m).2.pageSize ∧
            S.Grows w.pool.cas (Db.forkFrom env db' pool' name m).2.cas :=
          ⟨(hfrom.pageSize_eq.trans hbeside.pageSize_eq).symm, hbeside.grows.trans hfrom.grows⟩
        rw [hfork]
        cases (Db.forkFrom env db' pool' name m).1 with
        | error e => exact ⟨honward.1.symm, honward.2⟩
        | ok child => exact ⟨honward.1.symm, honward.2⟩
  | restore env name m => exact onward_onHandle fun db => ⟨_, (Db.beside_restore env db w.pool m).1⟩
  | sleep env faults fuel name remotePool =>
    exact onward_onHandle fun db => ⟨_, Db.beside_sleep hS env faults fuel db w.pool remotePool⟩

/-- Every run goes on. -/
theorem onward_run (hS : S.Laws) (w : World S E) (ops : List (Op S E)) :
    Onward w (run step w ops).2 := by
  have hstep : ∀ (w' : World S E) (op : Op S E), True → Onward w w' → Onward w (w'.step op).2 := by
    intro w' op _ h
    have hnext := onward_step hS w' op
    exact ⟨hnext.pageSize_eq.trans h.pageSize_eq, h.grows.trans hnext.grows⟩
  exact run_invariant hstep (fun _ _ => trivial) ⟨rfl, .refl _⟩

/-- A pool without handles has every handle filed. -/
theorem filed_start (pool : Pool S) : Filed (E := E) (start pool) := fun n db hn => by cases hn

/-- A run keeps every handle filed. -/
theorem filed_run (hS : S.Laws) {w : World S E} (h : Filed w) (ops : List (Op S E)) :
    Filed (run step w ops).2 := by
  have hstep : ∀ (w' : World S E) (op : Op S E), True → Filed w' → Filed (w'.step op).2 :=
    fun _ op _ h' => filed_step hS h' op
  exact run_invariant hstep (fun _ _ => trivial) h

/-- A run none of whose operations is on a database leaves that database alone. -/
theorem aside_run (hS : S.Laws) {w : World S E} (hfiled : Filed w) {n : String}
    (hexists : (w.pool.dbs n).isSome) {ops : List (Op S E)} (hops : ∀ op ∈ ops, op.subject ≠ n) :
    Aside n w (run step w ops).2 := by
  have hstep : ∀ (w' : World S E) (op : Op S E), op.subject ≠ n → Filed w' ∧ Aside n w w' →
      Filed (w'.step op).2 ∧ Aside n w (w'.step op).2 := by
    rintro w' op hop ⟨hfiled', haside⟩
    have hexists' : (w'.pool.dbs n).isSome := haside.dir_eq.symm ▸ hexists
    exact ⟨filed_step hS hfiled' op, haside.trans (aside_step hS hfiled' op hop.symm hexists')⟩
  exact (run_invariant hstep hops ⟨hfiled, .refl n w⟩).2

/-- An in-memory pool without databases. -/
def emptyPool : Pool (memory []) := ⟨"/pool", 4, ⟨[], []⟩, fun _ => none⟩

/-- Options that leave DuckDB's defaults alone. -/
def noOpts : KernelOpts := ⟨none, none⟩

/-- A run that opens a database, writes to it and forks it. -/
def salesAndFork : List (Op (memory []) memoryEngine) :=
  [.open .none "sales" noOpts, .execute "sales" "INSERT", .fork .none .none "sales" "experiment"]

end World

end FlockDb
