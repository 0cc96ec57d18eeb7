import FlockDb.Kernel.Duck
import FlockDb.Sync.Shipment

/-!
# The pool

A pool is a directory: one content-addressed store that all its databases share, and a
directory for each database with links to the store and a log of its own. That a
database exists means that its directory does.
-/

namespace FlockDb

/-- `FlockError`, as far as pools and databases return it. -/
inductive FlockError (S : Substrate) (E : Engine) where
  | kernel (source : KernelError S E.Error)
  | pager (op : String) (source : S.Error)
  | wal (op : String) (source : S.Error)
  | badName (name reason : String)
  | nameTaken (name path : String)
  | unknownSnapshot (manifest : S.ManifestId)
  | pool (op path : String) (source : IoError)
  | tier (op : String) (source : S.Error)
  | sync (op : String) (source : SyncError S)
  | unsupported (what why : String)

/-- The two directories of a content-addressed store. -/
inductive CasSub where
  | pages
  | manifests
  deriving DecidableEq

/-- The name of a directory of the store. -/
def CasSub.dirName : CasSub → String
  | pages => "pages"
  | manifests => "manifests"

/-- A database's directory: which links it has, and its log once there is one. -/
structure DbDir (S : Substrate) where
  linked : CasSub → Bool
  wal : Option S.Wal

/-- A pool on disk: the shared store and the directories of the databases. -/
structure Pool (S : Substrate) where
  root : String
  /-- `StoreConfig::default().page_size`. -/
  pageSize : ℕ
  cas : S.Cas
  dbs : String → Option (DbDir S)

/-- The file-system calls on a pool that may fail. -/
inductive PoolCall where
  | createShared (sub : CasSub)
  | createDb
  | inspect (sub : CasSub)
  | link (sub : CasSub)
  deriving DecidableEq

/-- Which file-system calls on a pool fail, and how. -/
abbrev PoolFaults := PoolCall → Option IoError

/-- The plan under which every file-system call on a pool goes through. -/
def PoolFaults.none : PoolFaults := fun _ => Option.none

/-- `validate_name`: a name that can safely be one directory. -/
def validateName {S : Substrate} {E : Engine} (name : String) : Except (FlockError S E) Unit :=
  if name = "" then .error (.badName name "it is empty")
  else if name = "." ∨ name = ".." then
    .error (.badName name "'.' and '..' are directories that already mean something else")
  else if name.toList.any fun c => c = '/' || c = '\\' then
    .error (.badName name
      "it contains a path separator, which would place the database outside its pool")
  else if name.toList.any fun c => c = '\x00' then
    .error (.badName name "it contains a NUL byte")
  else if name.toList.all fun c => c.isAlphanum || c = '-' || c = '_' || c = '.' then .ok ()
  else .error (.badName name "it contains characters outside [A-Za-z0-9._-]")

namespace Pool

variable {S : Substrate} {E : Engine}

/-- `cas_dir`. -/
def casDir (pool : Pool S) : String := pool.root ++ "/cas"

/-- `db_dir`. -/
def dbDir (pool : Pool S) (name : String) : String := pool.root ++ "/dbs/" ++ name

/-- The log of a database; one that has none yet has a new one. -/
def wal (pool : Pool S) (name : String) : S.Wal :=
  ((pool.dbs name).bind DbDir.wal).getD S.freshWal

/-- Change the directory of one database, if there is one. -/
def updateDir (pool : Pool S) (name : String) (f : DbDir S → DbDir S) : Pool S :=
  { pool with dbs := Function.update pool.dbs name ((pool.dbs name).map f) }

/-- The durable store of a database whose handle is at a head. -/
def durable (pool : Pool S) (name : String) (head : S.ManifestId) : DurableStore S :=
  ⟨⟨pool.cas, head, pool.pageSize⟩, pool.wal name⟩

/-- What a durable store of a database leaves in the pool: the store's pages and
manifests, and the database's log. -/
def keep (pool : Pool S) (name : String) (store : DurableStore S) : Pool S :=
  { pool with cas := store.pager.cas }.updateDir name fun dir =>
    { dir with wal := some store.wal }

/-- `create_dir_all` on the directories of the shared store. -/
def createShared (faults : PoolFaults) (pool : Pool S) : List CasSub → Except (FlockError S E) Unit
  | [] => .ok ()
  | sub :: subs =>
    match faults (.createShared sub) with
    | some source => .error (.pool "create shared CAS" (pool.casDir ++ "/" ++ sub.dirName) source)
    | none => createShared faults pool subs

/-- Link a database's directory to the shared store, where it is not linked already. -/
def linkSubs (faults : PoolFaults) (name : String) :
    List CasSub → Pool S → Except (FlockError S E) Unit × Pool S
  | [], pool => (.ok (), pool)
  | sub :: subs, pool =>
    let link := pool.dbDir name ++ "/" ++ sub.dirName
    match faults (.inspect sub) with
    | some source => (.error (.pool "inspect database directory" link source), pool)
    | none =>
      if ((pool.dbs name).map fun dir => dir.linked sub) = some true then
        linkSubs faults name subs pool
      else
        match faults (.link sub) with
        | some source => (.error (.pool "link database to the shared CAS" link source), pool)
        | none =>
          linkSubs faults name subs (pool.updateDir name fun dir =>
            { dir with linked := Function.update dir.linked sub true })

/-- `create_dir_all` on a database's directory. -/
def createDb (pool : Pool S) (name : String) : Pool S :=
  { pool with
    dbs := Function.update pool.dbs name (some ((pool.dbs name).getD ⟨fun _ => false, none⟩)) }

/-- `link_db_to_shared_cas`: a database's directory, with its links to the shared store.
Running it again changes nothing. -/
def linkDbToSharedCas (faults : PoolFaults) (pool : Pool S) (name : String) :
    Except (FlockError S E) Unit × Pool S :=
  match createShared faults pool [.pages, .manifests] with
  | .error e => (.error e, pool)
  | .ok () =>
    match faults .createDb with
    | some source => (.error (.pool "create database directory" (pool.dbDir name) source), pool)
    | none => linkSubs faults name [.pages, .manifests] (pool.createDb name)

/-- `DurableStore::open` on a database's directory: the log is created if there is none.
The head is the empty root until the log is replayed. -/
def openDurable (faults : Faults S) (pool : Pool S) (name : String) :
    Except S.Error S.ManifestId × Pool S :=
  match faults .open with
  | some e => (.error e, pool)
  | none =>
    match S.emptyRoot pool.pageSize with
    | .error e => (.error e, pool)
    | .ok root =>
      (.ok root, pool.updateDir name fun dir => { dir with wal := some (dir.wal.getD S.freshWal) })

/-- `DurableStore::recover` on a database's store: the head its log records. -/
def recover (faults : Faults S) (pool : Pool S) (name : String) (head : S.ManifestId) :
    Except S.Error S.ManifestId × Pool S :=
  match faults .recover with
  | some e => (.error e, pool)
  | none =>
    let store := (pool.durable name head).recover
    (.ok store.head, pool.keep name store)

end Pool

end FlockDb
