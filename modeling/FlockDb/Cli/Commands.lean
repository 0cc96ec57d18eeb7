import FlockDb.Cli.PoolName
import FlockDb.Core.Wake

/-!
# The commands

Each command is a process of its own: it looks the branch up, opens the database, does one
thing and exits. A command that fails undoes nothing of what it did before, and so does one
that dies: what it leaves is the workspace at the call where it stopped.
-/

namespace FlockDb

variable {S : Substrate} {E : Engine}

/-- A file to import: its path, the last component of that, and whether it is a file. -/
structure ImportFile where
  path : String
  fileName : String
  isFile : Bool

/-- A file name ends with a suffix. -/
def endsWith (name : String) (suffix : List Char) : Bool := suffix.isSuffixOf name.toList

/-- `reader_for`: which reader of DuckDB takes a file. -/
def readerFor (file : ImportFile) : Except (CliError S E) String :=
  let name := String.ofList (file.fileName.toList.map Char.toLower)
  if endsWith name ['.', 'c', 's', 'v'] || endsWith name ['.', 't', 's', 'v'] ||
      endsWith name ['.', 'c', 's', 'v', '.', 'g', 'z'] ||
      endsWith name ['.', 't', 's', 'v', '.', 'g', 'z'] then .ok "read_csv_auto"
  else if endsWith name ['.', 'p', 'a', 'r', 'q', 'u', 'e', 't'] then .ok "read_parquet"
  else
    let ext :=
      if '.' ∈ name.toList then
        "." ++ String.ofList (name.toList.reverse.takeWhile (· ≠ '.')).reverse
      else "(none)"
    .error (.unknownFormat file.path ext)

/-- `check_identifier`: a table name that may stand in SQL. -/
def checkIdentifier (name : String) : Except (CliError S E) Unit :=
  let ok := !name.toList.isEmpty && (name.toList.head?.any fun c => c.isAlpha || c = '_') &&
    name.toList.all fun c => c.isAlphanum || c = '_'
  if ok then .ok () else .error (.badTableName name)

/-- `table_name_from`: a table name made of a file's name. -/
def tableNameFrom (file : ImportFile) : Except (CliError S E) String :=
  let stem := file.fileName.toList.takeWhile (· ≠ '.')
  let cleaned := stem.map fun c => if c.isAlphanum then c else '_'
  let name := if cleaned.head?.any Char.isDigit then 't' :: '_' :: cleaned else cleaned
  match (checkIdentifier (String.ofList name) : Except (CliError S E) Unit) with
  | .error e => .error e
  | .ok () => .ok (String.ofList name)

/-- A text as it stands in a literal: each single quote is doubled. -/
def quoted (text : String) : String :=
  String.ofList (text.toList.flatMap fun c => if c = '\'' then ['\'', '\''] else [c])

/-- The statement of `import` that creates the table. -/
def createTable (reader path table : String) : String :=
  "CREATE TABLE \"" ++ table ++ "\" AS SELECT * FROM " ++ reader ++ "('" ++ quoted path ++ "')"

/-- The code outside of the repository that commands call. `canonicalRoot` is the canonical
path of the pool's directory; `wakeCas` and `cached` are the store of a woken database and
what its cache directory holds once the head is hydrated; `copyTree` adds one store to
another and counts the files. -/
structure Outside (S : Substrate) (E : Engine) where
  canonicalRoot : Option (List OsName)
  canonicalTier : String → String
  wakeCas : Uploaded S → S.Cas
  cached : Uploaded S → S.Cas
  copyTree : S.Cas → S.Cas → ℕ × S.Cas
  firstI64 : E.Batches → Option ℤ
  table : E.Batches → Except IoError String

/-- What a command meets: which of its calls fail, and what those leave that fail halfway.
Opening a database, its snapshot, the rest of a fork, the hydration of a woken database and
its restore are environments of their own. -/
structure CliEnv (S : Substrate) (E : Engine) where
  io : CliFaults
  opening : Env S E
  working : Env S E
  forking : Env S E
  sleeping : SleepFaults S
  /-- How long the walk over the ancestry may be. -/
  fuel : ℕ
  /-- What an upload that fails has stored. -/
  strayed : Bucket S
  /-- What a removal of a branch's directory that fails leaves of it. -/
  leftover : DbDir S → DbDir S
  /-- What a copy into the pool's store that fails has added. -/
  copiedSome : S.Cas → S.Cas → S.Cas
  copiedSome_grows : ∀ cas cached, S.Grows cas (copiedSome cas cached)
  cacheRoot : String
  hydrating : Env S E
  waking : WakeFaults S
  restoring : Env S E

namespace Workspace

/-- A command's database may have a directory now. -/
def opened (ws : Workspace S) (name : String) (pool : Pool S) : Workspace S :=
  { ws with
    pool
    dbs := if (pool.dbs name).isSome && !ws.dbs.contains name then ws.dbs ++ [name] else ws.dbs
    touched := ws.touched ++
      if (validateName (S := S) (E := E) name).toBool then
        [.rootParents, .root, .cas, .dbsDir, .db name, .temp]
      else [] }

/-- `Flock::open` on the pool's directory. -/
def openBranch (env : CliEnv S E) (ws : Workspace S) (name : String) :
    Except (CliError S E) (Db S E) × Workspace S :=
  match Flock.openWith env.opening ws.pool name ⟨none, none⟩ with
  | (.error source, pool) => (.error (.flock source), ws.opened (E := E) name pool)
  | (.ok db, pool) => (.ok db, ws.opened (E := E) name pool)

/-- `db.snapshot()?`, the commit that a command ends with. -/
def commit (env : CliEnv S E) (ws : Workspace S) (db : Db S E) :
    Except (CliError S E) Unit × Workspace S :=
  match db.snapshot env.working ws.pool with
  | (.error source, _, pool) => (.error (.flock source), { ws with pool })
  | (.ok _, _, pool) => (.ok (), { ws with pool })

/-- `table_exists`. -/
def tableExists (out : Outside S E) (db : Db S E) (table : String) :
    Except (FlockError S E) Bool × Db S E :=
  match db.query ("SELECT count(*) FROM duckdb_tables() WHERE table_name = '" ++ quoted table ++
      "'") with
  | (.error e, db) => (.error e, db)
  | (.ok rows, db) => (.ok (decide (0 < (out.firstI64 rows).getD 0)), db)

/-- The SQL of an import: create the table unless it exists, and count its rows. -/
def importRows (out : Outside S E) (db : Db S E) (branch reader path table : String) :
    Except (CliError S E) ℤ × Db S E :=
  match tableExists out db table with
  | (.error e, db) => (.error (.flock e), db)
  | (.ok true, db) => (.error (.tableExists table branch), db)
  | (.ok false, db) =>
    match db.execute (createTable reader path table) with
    | (.error e, db) => (.error (.flock e), db)
    | (.ok _, db) =>
      match db.query ("SELECT count(*) FROM \"" ++ table ++ "\"") with
      | (.error e, db) => (.error (.flock e), db)
      | (.ok rows, db) => (.ok ((out.firstI64 rows).getD 0), db)

/-- The branch that an import goes to. A fresh pool starts on `DEFAULT_BRANCH`. -/
def importBranch (env : CliEnv S E) (ws : Workspace S) (branch : Option String) :
    Except (CliError S E) String :=
  match branch with
  | some branch => .ok branch
  | none => if ws.exists then ws.headBranch env.io else .ok "main"

/-- The reader and the table of an import. -/
def importTable (file : ImportFile) (table : Option String) :
    Except (CliError S E) (String × String) := do
  let reader ← readerFor file
  let table ← match table with
    | some table => .ok table
    | none => tableNameFrom file
  checkIdentifier table
  .ok (reader, table)

/-- What `import` checks before it opens the database: the branch, the reader and the table. -/
def importPlan (env : CliEnv S E) (ws : Workspace S) (branch : Option String) (file : ImportFile)
    (table : Option String) : Except (CliError S E) (String × String × String) :=
  match ws.importBranch env branch with
  | .error e => .error e
  | .ok branch =>
    if ws.isAsleep branch then .error (.branchAsleep branch)
    else if file.isFile then
      match importTable file table with
      | .error e => .error e
      | .ok (reader, table) => .ok (branch, reader, table)
    else .error (.noSuchFile file.path)

/-- `import::run`. The pool is fresh if it had no `HEAD` at the start. -/
def «import» (out : Outside S E) (env : CliEnv S E) (ws : Workspace S) (branch : Option String)
    (file : ImportFile) (table : Option String) :
    Except (CliError S E) (List String) × Workspace S :=
  match ws.importPlan env branch file table with
  | .error e => (.error e, ws)
  | .ok (branch, reader, table) =>
    match ws.openBranch env branch with
    | (.error e, ws') => (.error e, ws')
    | (.ok db, ws') =>
      match importRows out db branch reader file.path table with
      | (.error e, _) => (.error e, ws')
      | (.ok n, db) =>
        match ws'.commit env db with
        | (.error e, ws') => (.error e, ws')
        | (.ok (), ws') =>
          let done := ["imported " ++ toString n ++ " rows into table \"" ++ table ++
            "\" on branch \"" ++ branch ++ "\""]
          if ws.exists then (.ok done, ws')
          else
            match ws'.setHead env.io branch with
            | (.error e, ws') => (.error e, ws')
            | (.ok (), ws') => (.ok done, ws')

/-- `sql::run`. The commit comes before the result is printed. -/
def sql (out : Outside S E) (env : CliEnv S E) (ws : Workspace S) (branch : Option String)
    (query : String) : Except (CliError S E) (List String) × Workspace S :=
  match ws.resolve env.io branch with
  | .error e => (.error e, ws)
  | .ok branch =>
    match ws.openBranch env branch with
    | (.error e, ws) => (.error e, ws)
    | (.ok db, ws) =>
      match db.query query with
      | (.error e, _) => (.error (.flock e), ws)
      | (.ok rows, db) =>
        match ws.commit env db with
        | (.error e, ws) => (.error e, ws)
        | (.ok (), ws) =>
          match out.table rows with
          | .error source => (.error (.render source), ws)
          | .ok text => (.ok [text], ws)

/-- `branch::fork`. -/
def fork (env : CliEnv S E) (ws : Workspace S) (source : Option String) (name : String)
    (noCheckout : Bool) : Except (CliError S E) (List String) × Workspace S :=
  match ws.resolve env.io source with
  | .error e => (.error e, ws)
  | .ok parent =>
    match ws.openBranch env parent with
    | (.error e, ws) => (.error e, ws)
    | (.ok db, ws) =>
      match db.fork env.working env.forking ws.pool name with
      | (.error e, _, pool) => (.error (.flock e), ws.opened (E := E) name pool)
      | (.ok _, _, pool) =>
        let ws := ws.opened (E := E) name pool
        let forked := "forked \"" ++ parent ++ "\" → \"" ++ name ++ "\" (no pages copied)"
        if noCheckout then
          (.ok [forked, "still on \"" ++ parent ++ "\" — switch with: flock checkout " ++ name], ws)
        else
          match ws.setHead env.io name with
          | (.error e, ws) => (.error e, ws)
          | (.ok (), ws) => (.ok [forked, "switched to branch \"" ++ name ++ "\""], ws)

/-- `branch::list`. -/
def list (env : CliEnv S E) (ws : Workspace S) : Except (CliError S E) (List String) := do
  if ws.exists then
    let head ← ws.headBranch env.io
    let names ← ws.branches env.io
    .ok (names.map fun name =>
      (if name = head then "*" else " ") ++ " " ++ name ++
        if ws.isAsleep name then "  (asleep — flock wake it)" else "")
  else .error (.noPool ws.pool.root)

/-- The name of a branch that a command was given, if there is such a branch. -/
def known (env : CliEnv S E) (ws : Workspace S) (name : String) : Except (CliError S E) Unit := do
  if ws.exists then
    let known ← ws.branches env.io
    if known.contains name then .ok () else .error (.unknownBranch name known)
  else .error (.noPool ws.pool.root)

/-- `branch::checkout`. -/
def checkout (env : CliEnv S E) (ws : Workspace S) (name : String) :
    Except (CliError S E) (List String) × Workspace S :=
  match ws.known env name with
  | .error e => (.error e, ws)
  | .ok () =>
    match ws.setHead env.io name with
    | (.error e, ws) => (.error e, ws)
    | (.ok (), ws) =>
      let note := "\"" ++ name ++
        "\" is asleep in object storage. Bring it back with: flock wake " ++ name
      (.ok (("switched to branch \"" ++ name ++ "\"") ::
        if ws.isAsleep name then [note] else []), ws)

/-- `prepare_tier_dir`. -/
def prepareTierDir (out : Outside S E) (io : CliFaults) (ws : Workspace S) (dir : String) :
    Except (CliError S E) String × Workspace S :=
  if [':', '/', '/'] <:+: dir.toList then (.error (.tierNotSupported dir), ws)
  else
    match io .createTier, io .resolveTier with
    | some source, _ =>
      (.error (.io "create the tier directory" dir
        "`--tier` is a directory on this machine. Check the path is writable." source),
        ws.touch [.tierParents dir])
    | none, some source =>
      (.error (.io "resolve the tier directory" dir
        ("The tier path is stored absolutely, so that waking works from any working " ++
          "directory.") source), ws.touch [.tierParents dir, .tier dir])
    | none, none => (.ok (out.canonicalTier dir), ws.touch [.tierParents dir, .tier dir])

/-- `remote_tier`, which only opens the directory. -/
def remoteTier (io : CliFaults) (dir : String) : Except (CliError S E) Unit :=
  match io .openTier with
  | some source => .error (.tier dir source)
  | none => .ok ()

/-- `runtime`. -/
def runtime (io : CliFaults) : Except (CliError S E) Unit :=
  match io .runtime with
  | some source =>
    .error (.io "start the async runtime" "."
      ("Object storage is async and substrate's read path is not, so sleep and wake need a " ++
        "multi-threaded runtime. This failure is the OS refusing to make threads.") source)
  | none => .ok ()

/-- `db.sleep(remote)`: the last snapshot, and the upload into the tier. -/
def upload (env : CliEnv S E) (ws : Workspace S) (db : Db S E) (dir pool : String) :
    Except (CliError S E) (WakeToken S) × Workspace S :=
  let stored := fun after bucket =>
    { ws with pool := after, tiers := ws.tiers.store dir pool bucket }.touch [.tier dir, .temp]
  match db.sleep env.working env.sleeping env.fuel ws.pool pool with
  | (.error source, after) => (.error (.flock source), stored after env.strayed)
  | (.ok none, after) => (.error .unfinished, stored after env.strayed)
  | (.ok (some uploaded), after) =>
    (.ok uploaded.token, stored after ⟨uploaded.manifests, uploaded.pages⟩)

/-- The end of `sleep`: the record first, and only then the directory. -/
def fileAway (env : CliEnv S E) (ws : Workspace S) (branch : String) (record : SleepRecord S) :
    Except (CliError S E) (List String) × Workspace S :=
  match ws.writeSleepRecord env.io branch record with
  | (.error e, ws) => (.error e, ws)
  | (.ok (), ws) =>
    match ws.removeBranchDir env.io env.leftover branch with
    | (.error e, ws) => (.error e, ws)
    | (.ok (), ws) =>
      (.ok ["branch \"" ++ branch ++ "\" is asleep in " ++ record.tier,
        "what is left of it is a 32-byte manifest id in " ++ ws.sleepRecordPath branch,
        "the pool's pages were NOT deleted — sleeping frees compute, not disk",
        "bring it back with: flock wake " ++ branch], ws)

/-- `tier::sleep`. -/
def sleep (out : Outside S E) (env : CliEnv S E) (ws : Workspace S) (branch tier : Option String) :
    Except (CliError S E) (List String) × Workspace S :=
  match ws.resolve env.io branch with
  | .error e => (.error e, ws)
  | .ok branch =>
    match ws.prepareTierDir out env.io (tier.getD (ws.pool.root ++ "/cold")) with
    | (.error e, ws) => (.error e, ws)
    | (.ok dir, ws) =>
      let pool := poolName out.canonicalRoot
      match (remoteTier env.io dir : Except (CliError S E) Unit) with
      | .error e => (.error e, ws)
      | .ok () =>
        match ws.openBranch env branch with
        | (.error e, ws) => (.error e, ws)
        | (.ok db, ws) =>
          match (runtime env.io : Except (CliError S E) Unit) with
          | .error e => (.error e, ws)
          | .ok () =>
            match ws.upload env db dir pool with
            | (.error e, ws) => (.error e, ws)
            | (.ok token, ws) => ws.fileAway env branch ⟨dir, pool, token⟩

/-- What a sleep record says is in the tier. -/
def stored (ws : Workspace S) (record : SleepRecord S) : Uploaded S :=
  let bucket := ws.tiers record.tier record.pool
  ⟨record.token, bucket.manifests, bucket.pages⟩

/-- `copy_tree` from the cache into the pool's store. -/
def adopt (out : Outside S E) (env : CliEnv S E) (ws : Workspace S) (uploaded : Uploaded S) :
    Except (CliError S E) ℕ × Workspace S :=
  let added := fun cas => { ws with pool := { ws.pool with cas } }.touch [.cas]
  match env.io .adopt with
  | some source =>
    (.error (.io "adopt a page into the pool" ws.pool.casDir
      "Check that the pool directory is writable and has free space." source),
      added (env.copiedSome ws.pool.cas (out.cached uploaded)))
  | none =>
    let (pages, cas) := out.copyTree ws.pool.cas (out.cached uploaded)
    (.ok pages, added cas)

/-- The end of `wake`: the branch again, at the manifest that the token names. -/
def bringBack (env : CliEnv S E) (ws : Workspace S) (branch : String) (record : SleepRecord S)
    (manifest : S.ManifestId) (pages : ℕ) : Except (CliError S E) (List String) × Workspace S :=
  match ws.openBranch env branch with
  | (.error e, ws) => (.error e, ws)
  | (.ok db, ws) =>
    match db.restore env.restoring ws.pool manifest with
    | (.error e, _, pool) => (.error (.flock e), { ws with pool })
    | (.ok (), _, pool) =>
      match { ws with pool }.removeSleepRecord env.io branch with
      | (.error e, ws) => (.error e, ws)
      | (.ok (), ws) =>
        (.ok ["branch \"" ++ branch ++ "\" is awake — " ++ toString pages ++
          " pages fetched from " ++ record.tier], ws)

/-- The start of `wake`: the record of a branch that is asleep. -/
def wakeRecord (env : CliEnv S E) (ws : Workspace S) (branch : String) :
    Except (CliError S E) (SleepRecord S) := do
  ws.known env branch
  if ws.isAsleep branch then
    let record ← ws.readSleepRecord env.io branch
    remoteTier env.io record.tier
    .ok record
  else .error (.branchAwake branch)

/-- `tempfile::tempdir` for the cache of a wake. -/
def createCache (io : CliFaults) : Except (CliError S E) Unit :=
  match io .createCache with
  | some source =>
    .error (.io "create a page cache for the wake" "$TMPDIR"
      ("The wake fetches pages into a temporary directory before adopting them into the pool. " ++
        "Check $TMPDIR.") source)
  | none => .ok ()

/-- `Flock::wake` into the cache, for the head that it stands at. -/
def fetch (out : Outside S E) (env : CliEnv S E) (branch : String) (uploaded : Uploaded S) :
    Except (CliError S E) S.ManifestId := do
  createCache env.io
  runtime env.io
  match Flock.wakeWith out.wakeCas env.hydrating env.waking env.cacheRoot branch uploaded
      ⟨none, none⟩ with
  | .error source => .error (.flock source)
  | .ok db => .ok db.head

/-- `tier::wake`. -/
def wake (out : Outside S E) (env : CliEnv S E) (ws : Workspace S) (branch : String) :
    Except (CliError S E) (List String) × Workspace S :=
  match ws.wakeRecord env branch with
  | .error e => (.error e, ws)
  | .ok record =>
    match fetch out env branch (ws.stored record) with
    | .error e => (.error e, ws.touch [.temp])
    | .ok manifest =>
      match (ws.touch [.temp]).adopt out env (ws.stored record) with
      | (.error e, ws) => (.error e, ws)
      | (.ok pages, ws) => ws.bringBack env branch record manifest pages

end Workspace

/-- `Command`. -/
inductive Command where
  | «import» (file : ImportFile) (table : Option String)
  | sql (query : String)
  | branch (name : String) (noCheckout : Bool)
  | branches
  | checkout (name : String)
  | sleep (tier : Option String)
  | wake (name : String)

/-- `Cli`, without the pool: a command and the branch that it names, and what it meets. -/
structure Invocation (S : Substrate) (E : Engine) where
  command : Command
  branch : Option String
  env : CliEnv S E

/-- `Cli::run`. -/
def Workspace.run (out : Outside S E) (ws : Workspace S) (cli : Invocation S E) :
    Except (CliError S E) (List String) × Workspace S :=
  match cli.command with
  | .import file table => ws.import out cli.env cli.branch file table
  | .sql query => ws.sql out cli.env cli.branch query
  | .branch name noCheckout => ws.fork cli.env cli.branch name noCheckout
  | .branches => (ws.list cli.env, ws)
  | .checkout name => ws.checkout cli.env name
  | .sleep tier => ws.sleep out cli.env cli.branch tier
  | .wake name => ws.wake out cli.env name

/-- The workspace of an empty directory. -/
def Workspace.start (root : String) (pageSize : ℕ) (cas : S.Cas) (tiers : Tiers S) :
    Workspace S :=
  ⟨⟨root, pageSize, cas, fun _ => none⟩, none, [], ∅, tiers, []⟩

end FlockDb
