import FlockDb.Core.Pool

/-!
# Databases

`Db` is a handle: a store, at a head, and a kernel over a scratch file that was hydrated
from some head. Its operations move three things one after the other, the head in memory,
the head that the log records and the scratch file, and any of their calls may fail.
-/

namespace FlockDb

/-- `Store`: a local database stands at a head, over its pool's store and its own log; a
woken one has a pager of its own. -/
inductive Store (S : Substrate) where
  | local (head : S.ManifestId)
  | tiered (pager : Pager S)

/-- `Db`. -/
structure Db (S : Substrate) (E : Engine) where
  name : String
  store : Store S
  kernel : DuckDbKernel E
  opts : KernelOpts

/-- Which calls of an operation fail, and the time at which it commits. -/
structure Env (S : Substrate) (E : Engine) where
  pool : PoolFaults
  store : Faults S
  kernel : KernelFaults E
  nowMs : ℕ

/-- The environment in which every call goes through. -/
def Env.none {S : Substrate} {E : Engine} : Env S E := ⟨.none, .none, .none, 0⟩

variable {S : Substrate} {E : Engine}

namespace Store

/-- `Store::head`. -/
def head : Store S → S.ManifestId
  | .local head => head
  | .tiered pager => pager.head

/-- The head that a reopen of a local database recovers. A tiered store has no log. -/
def recovered (pool : Pool S) (name : String) : Store S → Option S.ManifestId
  | .local _ => some (S.recovered pool.pageSize (pool.wal name))
  | .tiered _ => none

/-- `DuckDbKernel::open` on the page store of a store. -/
def openKernel (env : Env S E) (pool : Pool S) (name : String) (opts : KernelOpts) :
    Store S → Except (KernelError S E.Error) (DuckDbKernel E)
  | .local head =>
    DuckDbKernel.open (durableHandle env.store env.nowMs) (pool.durable name head) opts env.kernel
  | .tiered pager =>
    DuckDbKernel.open (tieredHandle env.store env.nowMs) pager opts env.kernel

end Store

/-- The store of a database after its directory is linked: open it and replay its log. -/
def openStore (env : Env S E) (pool : Pool S) (name openOp replayOp : String) :
    Except (FlockError S E) S.ManifestId × Pool S :=
  match pool.linkDbToSharedCas (E := E) env.pool name with
  | (.error e, pool) => (.error e, pool)
  | (.ok (), pool) =>
    match pool.openDurable env.store name with
    | (.error source, pool) => (.error (.wal openOp source), pool)
    | (.ok head, pool) =>
      match pool.recover env.store name head with
      | (.error source, pool) => (.error (.wal replayOp source), pool)
      | (.ok head, pool) => (.ok head, pool)

/-- `Flock::open_with`: open or create a database. -/
def Flock.openWith (env : Env S E) (pool : Pool S) (name : String) (opts : KernelOpts) :
    Except (FlockError S E) (Db S E) × Pool S :=
  match validateName name with
  | .error e => (.error e, pool)
  | .ok () =>
    match openStore env pool name "open the durable store" "replay the log" with
    | (.error e, pool) => (.error e, pool)
    | (.ok head, pool) =>
      match Store.openKernel env pool name opts (.local head) with
      | .error source => (.error (.kernel source), pool)
      | .ok kernel => (.ok ⟨name, .local head, kernel, opts⟩, pool)

namespace Db

/-- `Db::head`. -/
def head (db : Db S E) : S.ManifestId := db.store.head

/-- `Db::execute`. -/
def execute (db : Db S E) (sql : String) : Except (FlockError S E) ℕ × Db S E :=
  match (db.kernel.execute sql : Except (KernelError S E.Error) ℕ × DuckDbKernel E) with
  | (.error source, kernel) => (.error (.kernel source), { db with kernel })
  | (.ok n, kernel) => (.ok n, { db with kernel })

/-- `Db::execute_batch`. -/
def executeBatch (db : Db S E) (sql : String) : Except (FlockError S E) Unit × Db S E :=
  match (db.kernel.executeBatch sql : Except (KernelError S E.Error) Unit × DuckDbKernel E) with
  | (.error source, kernel) => (.error (.kernel source), { db with kernel })
  | (.ok (), kernel) => (.ok (), { db with kernel })

/-- `Db::query`. -/
def query (db : Db S E) (sql : String) : Except (FlockError S E) E.Batches × Db S E :=
  match (db.kernel.query sql : Except (KernelError S E.Error) E.Batches × DuckDbKernel E) with
  | (.error source, kernel) => (.error (.kernel source), { db with kernel })
  | (.ok batches, kernel) => (.ok batches, { db with kernel })

/-- `Db::snapshot`: the kernel's checkpoint, which commits through the store. -/
def snapshot (env : Env S E) (db : Db S E) (pool : Pool S) :
    Except (FlockError S E) S.ManifestId × Db S E × Pool S :=
  match db.store with
  | .local head =>
    match db.kernel.checkpoint (durableHandle env.store env.nowMs) env.kernel
        (pool.durable db.name head) with
    | (.error source, kernel, store) =>
      (.error (.kernel source), { db with kernel, store := .local store.head },
        pool.keep db.name store)
    | (.ok m, kernel, store) =>
      (.ok m, { db with kernel, store := .local store.head }, pool.keep db.name store)
  | .tiered pager =>
    match db.kernel.checkpoint (tieredHandle env.store env.nowMs) env.kernel pager with
    | (.error source, kernel, pager) =>
      (.error (.kernel source), { db with kernel, store := .tiered pager }, pool)
    | (.ok m, kernel, pager) => (.ok m, { db with kernel, store := .tiered pager }, pool)

/-- Position the store of a fork at its parent's snapshot, and record that. -/
def positionFork (env : Env S E) (pool : Pool S) (name : String) (root head : S.ManifestId) :
    Except (FlockError S E) Unit × Pool S :=
  let store := pool.durable name root
  match store.pager.setHeadTo env.store head with
  | (.error source, _) => (.error (.pager "position the fork at its parent" source), pool)
  | (.ok (), pager) =>
    match { store with pager }.checkpoint env.store with
    | (.error source, store) =>
      (.error (.wal "record the fork's head" source), pool.keep name store)
    | (.ok (), store) => (.ok (), pool.keep name store)

/-- The rest of `Db::fork`, once the parent's snapshot is taken. -/
def forkFrom (env : Env S E) (db : Db S E) (pool : Pool S) (name : String)
    (head : S.ManifestId) : Except (FlockError S E) (Db S E) × Pool S :=
  match openStore env pool name "open the fork's durable store" "replay the fork's log" with
  | (.error e, pool) => (.error e, pool)
  | (.ok root, pool) =>
    match positionFork env pool name root head with
    | (.error e, pool) => (.error e, pool)
    | (.ok (), pool) =>
      match Store.openKernel env pool name db.opts (.local head) with
      | .error source => (.error (.kernel source), pool)
      | .ok kernel => (.ok ⟨name, .local head, kernel, db.opts⟩, pool)

/-- `Db::fork`. Its snapshot of the parent and the rest of it are two environments. -/
def fork (snapshotEnv env : Env S E) (db : Db S E) (pool : Pool S) (name : String) :
    Except (FlockError S E) (Db S E) × Db S E × Pool S :=
  match validateName name with
  | .error e => (.error e, db, pool)
  | .ok () =>
    match pool.dbs name with
    | some _ => (.error (.nameTaken name (pool.dbDir name)), db, pool)
    | none =>
      match db.snapshot snapshotEnv pool with
      | (.error e, db, pool) => (.error e, db, pool)
      | (.ok head, db, pool) =>
        let (result, pool) := forkFrom env db pool name head
        (result, db, pool)

/-- `Db::rewind_to`: move the head to a manifest, and record it if the store is local. -/
def rewindTo (env : Env S E) (db : Db S E) (pool : Pool S) (m : S.ManifestId) :
    Except (FlockError S E) Unit × Db S E × Pool S :=
  match db.store with
  | .local head =>
    let store := pool.durable db.name head
    match S.manifest store.pager.cas m with
    | .error _ => (.error (.unknownSnapshot m), db, pool)
    | .ok _ =>
      match store.pager.rewind env.store m with
      | (.error source, _) => (.error (.pager "restore" source), db, pool)
      | (.ok (), pager) =>
        match { store with pager }.checkpoint env.store with
        | (.error source, store) =>
          (.error (.wal "record the restored head" source), { db with store := .local store.head },
            pool.keep db.name store)
        | (.ok (), store) =>
          (.ok (), { db with store := .local store.head }, pool.keep db.name store)
  | .tiered pager =>
    match S.manifest pager.cas m with
    | .error _ => (.error (.unknownSnapshot m), db, pool)
    | .ok _ =>
      match pager.rewind env.store m with
      | (.error source, _) => (.error (.pager "restore" source), db, pool)
      | (.ok (), pager) => (.ok (), { db with store := .tiered pager }, pool)

/-- `Db::restore`: rewind, then rebuild the kernel from the restored head. -/
def restore (env : Env S E) (db : Db S E) (pool : Pool S) (m : S.ManifestId) :
    Except (FlockError S E) Unit × Db S E × Pool S :=
  match db.rewindTo env pool m with
  | (.error e, db, pool) => (.error e, db, pool)
  | (.ok (), db, pool) =>
    match db.store.openKernel env pool db.name db.opts with
    | .error source => (.error (.kernel source), db, pool)
    | .ok kernel => (.ok (), { db with kernel }, pool)

end Db

end FlockDb
