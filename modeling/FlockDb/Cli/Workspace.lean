import FlockDb.Core.Sleep

/-!
# The pool as the command line sees it

The command line adds two things to a pool: `HEAD`, which says which branch is checked
out, and `asleep/`, which has a record for each branch that went into a tier. A branch is
awake when it has a directory in `dbs/` and asleep when it has a record. The names of both
kinds are read off two directory listings.
-/

namespace FlockDb

/-- `SleepRecord`: all that `flock wake` needs. Its token is kept as the text that substrate
makes of it. -/
structure SleepRecord (S : Substrate) where
  tier : String
  pool : String
  token : WakeToken S

/-- What a file in `asleep/` holds: the text of a record, or a proper prefix of it, which
is not the text of anything. -/
inductive RecordFile (S : Substrate) where
  | whole (record : SleepRecord S)
  | cut

/-- The objects that a tier directory holds under one pool name. -/
structure Bucket (S : Substrate) where
  manifests : List (S.ManifestId × Manifest S.ManifestId)
  pages : List Bytes

/-- A place in the file system that a command creates, changes or deletes something at. The
parents of a directory are those above it that were missing, which `create_dir_all` makes. -/
inductive Place where
  | rootParents
  | root
  | head
  | cas
  | dbsDir
  | db (name : String)
  | asleepDir
  | record (file : String)
  | tierParents (dir : String)
  | tier (dir : String)
  | temp

/-- Every tier directory by its path, and in it the objects under each pool name. -/
abbrev Tiers (S : Substrate) := String → String → Bucket S

/-- Put what a sleep uploads into a tier directory under a pool name. -/
def Tiers.store {S : Substrate} (tiers : Tiers S) (dir pool : String) (uploaded : Bucket S) :
    Tiers S :=
  Function.update tiers dir (Function.update (tiers dir) pool
    ⟨(tiers dir pool).manifests ++ uploaded.manifests, (tiers dir pool).pages ++ uploaded.pages⟩)

/-- A workspace: the pool, `HEAD` without its newline, the two listings and the tiers. It
also tells what was touched so far. -/
structure Workspace (S : Substrate) where
  pool : Pool S
  head : Option String
  /-- The entries of `dbs/`, as a listing returns them. -/
  dbs : List String
  /-- The files in `asleep/`. -/
  asleep : AList fun _ : String => RecordFile S
  tiers : Tiers S
  touched : List Place

/-- `CliError`. A command whose walk over the ancestry is still at work is unfinished. -/
inductive CliError (S : Substrate) (E : Engine) where
  | flock (source : FlockError S E)
  | noPool (pool : String)
  | unknownBranch (name : String) (known : List String)
  | branchAsleep (name : String)
  | branchAwake (name : String)
  | unknownFormat (path ext : String)
  | noSuchFile (path : String)
  | badTableName (name : String)
  | tableExists (table branch : String)
  | tierNotSupported (uri : String)
  | io (op path hint : String) (source : IoError)
  | badSleepRecord (name path : String)
  | tier (path : String) (source : IoError)
  | store (op : String) (source : IoError)
  | render (source : IoError)
  | unfinished

/-- The calls of the command line itself that may fail. -/
inductive CliCall where
  | createPool
  | writeHead
  | readHead
  | listDbs
  | listAsleep
  | createTier
  | resolveTier
  | openTier
  | runtime
  | createAsleep
  | createRecord
  | writeRecord
  | readRecord
  | removeBranchDir
  | removeRecord
  | createCache
  | adopt
  deriving DecidableEq

/-- Which calls of the command line fail, and how. -/
abbrev CliFaults := CliCall → Option IoError

/-- The plan under which every call of the command line goes through. -/
def CliFaults.none : CliFaults := fun _ => Option.none

/-- `strip_suffix(".json")`, or else the name itself. -/
def stripJson (name : String) : String :=
  if ['.', 'j', 's', 'o', 'n'].isSuffixOf name.toList then
    String.ofList (name.toList.take (name.toList.length - 5))
  else name

/-- The names that `branches` reads off the two listings, sorted and each once. -/
def branchNames (dbs asleep : List String) : List String :=
  ((dbs ++ asleep).foldl (fun names entry =>
    let name := stripJson entry
    if names.contains name then names else names ++ [name]) []).insertionSort (· ≤ ·)

namespace Workspace

variable {S : Substrate} {E : Engine}

/-- Tell that places were touched. -/
def touch (ws : Workspace S) (places : List Place) : Workspace S :=
  { ws with touched := ws.touched ++ places }

/-- `exists`: `HEAD` is what makes a directory a pool. -/
def «exists» (ws : Workspace S) : Bool := ws.head.isSome

/-- `sleep_record_path`, below `asleep/`. -/
def sleepRecordFile (branch : String) : String := branch ++ ".json"

/-- `sleep_record_path`. -/
def sleepRecordPath (ws : Workspace S) (branch : String) : String :=
  ws.pool.root ++ "/asleep/" ++ sleepRecordFile branch

/-- `head`: the branch that commands act on when none is named. -/
def headBranch (ws : Workspace S) (io : CliFaults) : Except (CliError S E) String :=
  match ws.head with
  | none => .error (.noPool ws.pool.root)
  | some name =>
    match io .readHead with
    | some source =>
      .error (.io "read HEAD" (ws.pool.root ++ "/HEAD")
        ("The pool's HEAD file says which branch is checked out. Recreate it with " ++
          "`flock checkout <branch>`.") source)
    | none => .ok name

/-- `set_head`. The pool's directory is made first if it is missing. -/
def setHead (ws : Workspace S) (io : CliFaults) (branch : String) :
    Except (CliError S E) Unit × Workspace S :=
  match io .createPool with
  | some source =>
    (.error (.io "create the pool" ws.pool.root
      "Check that the parent directory exists and is writable." source), ws.touch [.rootParents])
  | none =>
    match io .writeHead with
    | some source =>
      (.error (.io "write HEAD" (ws.pool.root ++ "/HEAD")
        "Check that the pool directory is writable." source), ws.touch [.rootParents, .root])
    | none => (.ok (), { ws with head := some branch }.touch [.rootParents, .root, .head])

/-- `branches`: every branch in the pool, awake or asleep. -/
def branches (ws : Workspace S) (io : CliFaults) : Except (CliError S E) (List String) :=
  let unreadable := fun dir source => .error (.io "list branches" (ws.pool.root ++ dir)
    "Check that the pool directory is readable." source)
  match io .listDbs, io .listAsleep with
  | some source, _ => unreadable "/dbs" source
  | none, some source => unreadable "/asleep" source
  | none, none => .ok (branchNames ws.dbs ws.asleep.keys)

/-- `is_asleep`. -/
def isAsleep (ws : Workspace S) (branch : String) : Bool :=
  (ws.asleep.lookup (sleepRecordFile branch)).isSome

/-- `resolve`: the branch that a command acts on, refused unless it is there and awake. -/
def resolve (ws : Workspace S) (io : CliFaults) (explicit : Option String) :
    Except (CliError S E) String := do
  let name ← match explicit with
    | some name => .ok name
    | none => ws.headBranch io
  if ws.exists then
    let known ← ws.branches io
    if known.contains name then
      if ws.isAsleep name then .error (.branchAsleep name) else .ok name
    else .error (.unknownBranch name known)
  else .error (.noPool ws.pool.root)

/-- `read_sleep_record`. -/
def readSleepRecord (ws : Workspace S) (io : CliFaults) (branch : String) :
    Except (CliError S E) (SleepRecord S) :=
  let unreadable := fun source => .error (.io "read the sleep record" (ws.sleepRecordPath branch)
    ("`flock sleep` writes it; `flock wake` reads it. If it is missing, the branch is not " ++
      "asleep.") source)
  match io .readRecord, ws.asleep.lookup (sleepRecordFile branch) with
  | some source, _ => unreadable source
  | none, none => unreadable .notFound
  | none, some .cut => .error (.badSleepRecord branch (ws.sleepRecordPath branch))
  | none, some (.whole record) => .ok record

/-- `write_sleep_record`. -/
def writeSleepRecord (ws : Workspace S) (io : CliFaults) (branch : String)
    (record : SleepRecord S) : Except (CliError S E) Unit × Workspace S :=
  match io .createAsleep with
  | some source =>
    (.error (.io "create the sleep-record directory" (ws.pool.root ++ "/asleep")
      "Check that the pool directory is writable." source), ws)
  | none =>
    let file := sleepRecordFile branch
    let written := fun content =>
      { ws with asleep := ws.asleep.insert file content }.touch [.asleepDir, .record file]
    let failed := fun source => .error (.io "write the sleep record" (ws.sleepRecordPath branch)
      ("Check that the pool directory is writable. Nothing was dropped: the database is still " ++
        "in the tier, and still local.") source)
    match io .createRecord, io .writeRecord with
    | some source, _ => (failed source, ws.touch [.asleepDir])
    | none, some source => (failed source, written .cut)
    | none, none => (.ok (), written (.whole record))

/-- `remove_sleep_record`. -/
def removeSleepRecord (ws : Workspace S) (io : CliFaults) (branch : String) :
    Except (CliError S E) Unit × Workspace S :=
  match io .removeRecord with
  | some source =>
    (.error (.io "remove the sleep record" (ws.sleepRecordPath branch)
      "The branch is awake; this file is what marks it asleep. Delete it by hand." source), ws)
  | none =>
    let file := sleepRecordFile branch
    (.ok (), { ws with asleep := ws.asleep.erase file }.touch [.record file])

/-- `remove_branch_dir`: the directory goes away, and no page with it. A removal that fails
may have taken some of it. -/
def removeBranchDir (ws : Workspace S) (io : CliFaults) (leftover : DbDir S → DbDir S)
    (branch : String) : Except (CliError S E) Unit × Workspace S :=
  match io .removeBranchDir with
  | some source =>
    (.error (.io "remove the branch directory" (ws.pool.dbDir branch)
      ("Check permissions on the pool. The database is safe: this directory holds a write-ahead " ++
        "log and two symlinks, and the pages are in the pool's shared CAS.") source),
      { ws with pool := ws.pool.updateDir branch leftover }.touch [.db branch])
  | none =>
    (.ok (), { ws with
      pool := { ws.pool with dbs := Function.update ws.pool.dbs branch none }
      dbs := ws.dbs.erase branch }.touch [.db branch])

end Workspace

end FlockDb
