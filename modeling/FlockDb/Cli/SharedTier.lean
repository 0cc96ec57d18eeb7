import FlockDb.Cli.InMemory
import FlockDb.Library.Runs

/-!
# Several pools in one tier

Pools may sleep into the same tier directory, where each files its objects under its name. What
a command does to the tiers it does under the name of its pool, and what it sees of them it sees
there. Pools whose names differ work side by side as if each was alone; pools with one name are
one pool to the tier.
-/

namespace FlockDb

open Runs

variable {S : Substrate} {E : Engine}

/-- Two states of the tiers have the same objects under a name. -/
def SameUnder (name : String) (tiers tiers' : Tiers S) : Prop :=
  ∀ dir, tiers dir name = tiers' dir name

/-- A change of the tiers files objects under a name only, whatever else they hold. -/
structure FilesUnder (name : String) (file : Tiers S → Tiers S) : Prop where
  other : ∀ tiers dir n, n ≠ name → file tiers dir n = tiers dir n
  same : ∀ tiers tiers', SameUnder name tiers tiers' → SameUnder name (file tiers) (file tiers')

/-- To file nothing. -/
theorem filesUnder_id (name : String) : FilesUnder name (id : Tiers S → Tiers S) :=
  ⟨fun _ _ _ _ => rfl, fun _ _ h => h⟩

/-- What a sleep uploads is filed under the name that it is given. -/
theorem filesUnder_store (dir name : String) (bucket : Bucket S) :
    FilesUnder name fun tiers : Tiers S => tiers.store dir name bucket where
  other := by
    intro tiers dir' n hn
    by_cases hdir : dir' = dir
    · subst hdir
      simp [Tiers.store, hn]
    · simp [Tiers.store, hdir]
  same := by
    intro tiers tiers' h dir'
    by_cases hdir : dir' = dir
    · subst hdir
      simp [Tiers.store, h dir']
    · simp [Tiers.store, hdir, h dir']

namespace Workspace

/-- A workspace over other tiers. -/
def onTiers (ws : Workspace S) (tiers : Tiers S) : Workspace S := { ws with tiers }

@[simp] theorem onTiers_tiers (ws : Workspace S) (tiers : Tiers S) :
    (ws.onTiers tiers).tiers = tiers := rfl

@[simp] theorem onTiers_onTiers (ws : Workspace S) (tiers tiers' : Tiers S) :
    (ws.onTiers tiers).onTiers tiers' = ws.onTiers tiers' := rfl

@[simp] theorem onTiers_self (ws : Workspace S) : ws.onTiers ws.tiers = ws := rfl

/-- A command works the same over other tiers, up to them, as long as these have the same under
a name; and it files under that name only. -/
def Confined {α : Type*} (name : String) (cmd : Workspace S → α × Workspace S)
    (ws : Workspace S) : Prop :=
  ∃ file, FilesUnder name file ∧ ∀ tiers, SameUnder name ws.tiers tiers →
    cmd (ws.onTiers tiers) = ((cmd ws).1, (cmd ws).2.onTiers (file tiers))

/-- A command that neither sees nor changes the tiers. -/
theorem confined_of_aside {α : Type*} (name : String) {cmd : Workspace S → α × Workspace S}
    {ws : Workspace S}
    (h : ∀ tiers, cmd (ws.onTiers tiers) = ((cmd ws).1, (cmd ws).2.onTiers tiers)) :
    Confined name cmd ws :=
  ⟨id, filesUnder_id name, fun tiers _ => h tiers⟩

section Aside

variable (out : Outside S E) (env : CliEnv S E) (ws : Workspace S) (tiers : Tiers S)

/-- Moving `HEAD` has nothing to do with the tiers. -/
theorem setHead_onTiers (io : CliFaults) (name : String) :
    ((ws.onTiers tiers).setHead io name : Except (CliError S E) Unit × Workspace S) =
      ((ws.setHead io name : Except (CliError S E) Unit × Workspace S).1,
        (ws.setHead io name : Except (CliError S E) Unit × Workspace S).2.onTiers tiers) := by
  unfold setHead
  cases io .createPool with
  | some source => rfl
  | none =>
    cases io .writeHead with
    | some source => rfl
    | none => rfl

/-- Opening a branch has nothing to do with the tiers. -/
theorem openBranch_onTiers (name : String) : (ws.onTiers tiers).openBranch env name =
    ((ws.openBranch env name).1, (ws.openBranch env name).2.onTiers tiers) := by
  unfold openBranch
  rw [show (ws.onTiers tiers).pool = ws.pool from rfl]
  rcases Flock.openWith env.opening ws.pool name ⟨none, none⟩ with ⟨e | db, pool⟩
  · rfl
  · rfl

/-- Committing has nothing to do with the tiers. -/
theorem commit_onTiers (db : Db S E) : (ws.onTiers tiers).commit env db =
    ((ws.commit env db).1, (ws.commit env db).2.onTiers tiers) := by
  unfold commit
  rw [show (ws.onTiers tiers).pool = ws.pool from rfl]
  rcases db.snapshot env.working ws.pool with ⟨e | m, db', pool⟩
  · rfl
  · rfl

/-- An import has nothing to do with the tiers. -/
theorem import_onTiers (branch : Option String) (file : ImportFile) (table : Option String) :
    (ws.onTiers tiers).import out env branch file table =
      ((ws.import out env branch file table).1,
        (ws.import out env branch file table).2.onTiers tiers) := by
  unfold «import»
  rw [show (ws.onTiers tiers).importPlan env branch file table =
    ws.importPlan env branch file table from rfl]
  rcases ws.importPlan env branch file table with e | ⟨name, reader, table'⟩
  · rfl
  simp only [openBranch_onTiers]
  rcases ws.openBranch env name with ⟨e | db, ws₁⟩
  · rfl
  simp only
  rcases importRows out db name reader file.path table' with ⟨e | n, db₁⟩
  · rfl
  simp only [commit_onTiers]
  rcases ws₁.commit env db₁ with ⟨e | ⟨⟩, ws₂⟩
  · rfl
  simp only [setHead_onTiers]
  rw [show (ws.onTiers tiers).exists = ws.exists from rfl]
  cases ws.exists with
  | true => rfl
  | false =>
    rcases (ws₂.setHead env.io name : Except (CliError S E) Unit × Workspace S) with ⟨e | ⟨⟩, ws₃⟩
    · rfl
    · rfl

/-- A query has nothing to do with the tiers. -/
theorem sql_onTiers (branch : Option String) (query : String) :
    (ws.onTiers tiers).sql out env branch query =
      ((ws.sql out env branch query).1, (ws.sql out env branch query).2.onTiers tiers) := by
  unfold sql
  rw [show ((ws.onTiers tiers).resolve env.io branch : Except (CliError S E) String) =
    ws.resolve env.io branch from rfl]
  rcases (ws.resolve env.io branch : Except (CliError S E) String) with e | name
  · rfl
  simp only [openBranch_onTiers]
  rcases ws.openBranch env name with ⟨e | db, ws₁⟩
  · rfl
  simp only
  rcases db.query query with ⟨e | rows, db₁⟩
  · rfl
  simp only [commit_onTiers]
  rcases ws₁.commit env db₁ with ⟨e | ⟨⟩, ws₂⟩
  · rfl
  simp only
  cases out.table rows with
  | error source => rfl
  | ok text => rfl

/-- A fork has nothing to do with the tiers. -/
theorem fork_onTiers (source : Option String) (name : String) (noCheckout : Bool) :
    (ws.onTiers tiers).fork env source name noCheckout =
      ((ws.fork env source name noCheckout).1,
        (ws.fork env source name noCheckout).2.onTiers tiers) := by
  unfold fork
  rw [show ((ws.onTiers tiers).resolve env.io source : Except (CliError S E) String) =
    ws.resolve env.io source from rfl]
  rcases (ws.resolve env.io source : Except (CliError S E) String) with e | parent
  · rfl
  simp only [openBranch_onTiers]
  rcases ws.openBranch env parent with ⟨e | db, ws₁⟩
  · rfl
  simp only [show (ws₁.onTiers tiers).pool = ws₁.pool from rfl]
  rcases db.fork env.working env.forking ws₁.pool name with ⟨e | child, db', pool⟩
  · rfl
  cases noCheckout with
  | true => rfl
  | false =>
    simp only [Bool.false_eq_true, if_false]
    rw [show (ws₁.onTiers tiers).opened (E := E) name pool =
      (ws₁.opened (E := E) name pool).onTiers tiers from rfl, setHead_onTiers]
    rcases ((ws₁.opened (E := E) name pool).setHead env.io name :
      Except (CliError S E) Unit × Workspace S) with ⟨e | ⟨⟩, ws₂⟩
    · rfl
    · rfl

/-- A checkout has nothing to do with the tiers. -/
theorem checkout_onTiers (name : String) : (ws.onTiers tiers).checkout env name =
    ((ws.checkout env name).1, (ws.checkout env name).2.onTiers tiers) := by
  unfold checkout
  rw [show ((ws.onTiers tiers).known env name : Except (CliError S E) Unit) = ws.known env name
    from rfl]
  rcases (ws.known env name : Except (CliError S E) Unit) with e | ⟨⟩
  · rfl
  simp only [setHead_onTiers]
  rcases (ws.setHead env.io name : Except (CliError S E) Unit × Workspace S) with ⟨e | ⟨⟩, ws'⟩
  · rfl
  · rfl

/-- The preparation of a tier directory has nothing to do with what it holds. -/
theorem prepareTierDir_onTiers (dir : String) : (ws.onTiers tiers).prepareTierDir out env.io dir =
    ((ws.prepareTierDir out env.io dir).1,
      (ws.prepareTierDir out env.io dir).2.onTiers tiers) := by
  unfold prepareTierDir
  split
  · rfl
  · cases env.io .createTier with
    | some source => rfl
    | none =>
      cases env.io .resolveTier with
      | some source => rfl
      | none => rfl

/-- The end of a sleep has nothing to do with the tiers. -/
theorem fileAway_onTiers (branch : String) (record : SleepRecord S) :
    (ws.onTiers tiers).fileAway env branch record =
      ((ws.fileAway env branch record).1, (ws.fileAway env branch record).2.onTiers tiers) := by
  unfold fileAway writeSleepRecord
  cases env.io .createAsleep with
  | some source => rfl
  | none =>
    cases env.io .createRecord with
    | some source => rfl
    | none =>
      cases env.io .writeRecord with
      | some source => rfl
      | none =>
        simp only [removeBranchDir]
        cases env.io .removeBranchDir with
        | some source => rfl
        | none => rfl

/-- The end of a wake has nothing to do with the tiers. -/
theorem bringBack_onTiers (branch : String) (record : SleepRecord S) (manifest : S.ManifestId)
    (pages : ℕ) : (ws.onTiers tiers).bringBack env branch record manifest pages =
      ((ws.bringBack env branch record manifest pages).1,
        (ws.bringBack env branch record manifest pages).2.onTiers tiers) := by
  unfold bringBack
  simp only [openBranch_onTiers]
  rcases ws.openBranch env branch with ⟨e | db, ws₁⟩
  · rfl
  simp only [show (ws₁.onTiers tiers).pool = ws₁.pool from rfl]
  rcases db.restore env.restoring ws₁.pool manifest with ⟨e | ⟨⟩, db', pool⟩
  · rfl
  simp only [removeSleepRecord]
  cases env.io .removeRecord with
  | some source => rfl
  | none => rfl

end Aside

/-- An upload files what it stores under the name that it is given. -/
theorem upload_confined (env : CliEnv S E) (ws : Workspace S) (db : Db S E) (dir name : String) :
    ∃ file, FilesUnder name file ∧ ∀ tiers, (ws.onTiers tiers).upload env db dir name =
      ((ws.upload env db dir name).1, (ws.upload env db dir name).2.onTiers (file tiers)) := by
  unfold upload
  simp only [show ∀ tiers, (ws.onTiers tiers).pool = ws.pool from fun _ => rfl]
  rcases db.sleep env.working env.sleeping env.fuel ws.pool name with ⟨e | _ | uploaded, after⟩
  · exact ⟨_, filesUnder_store dir name env.strayed, fun _ => rfl⟩
  · exact ⟨_, filesUnder_store dir name env.strayed, fun _ => rfl⟩
  · exact ⟨_, filesUnder_store dir name ⟨uploaded.manifests, uploaded.pages⟩, fun _ => rfl⟩

/-- What a branch resolves to has nothing to do with the tiers. -/
theorem resolve_onTiers (ws : Workspace S) (tiers : Tiers S) (io : CliFaults)
    (branch : Option String) :
    ((ws.onTiers tiers).resolve io branch : Except (CliError S E) String) = ws.resolve io branch :=
  rfl

/-- A sleep files what it stores under the name of its pool. -/
theorem sleep_confined (out : Outside S E) (env : CliEnv S E) (ws : Workspace S)
    (branch tier : Option String) :
    ∃ file, FilesUnder (poolName out.canonicalRoot) file ∧ ∀ tiers,
      (ws.onTiers tiers).sleep out env branch tier =
        ((ws.sleep out env branch tier).1,
          (ws.sleep out env branch tier).2.onTiers (file tiers)) := by
  have hnone := @filesUnder_id S (poolName out.canonicalRoot)
  unfold sleep
  simp only [resolve_onTiers, prepareTierDir_onTiers]
  rcases (ws.resolve env.io branch : Except (CliError S E) String) with e | name
  · exact ⟨id, hnone, fun _ => rfl⟩
  simp only [show ∀ tiers, (ws.onTiers tiers).pool = ws.pool from fun _ => rfl]
  rcases (ws.prepareTierDir out env.io (tier.getD (ws.pool.root ++ "/cold")) :
    Except (CliError S E) String × Workspace S) with ⟨e | dir, ws₀⟩
  · exact ⟨id, hnone, fun _ => rfl⟩
  simp only
  rcases (remoteTier env.io dir : Except (CliError S E) Unit) with e | ⟨⟩
  · exact ⟨id, hnone, fun _ => rfl⟩
  simp only [openBranch_onTiers]
  rcases ws₀.openBranch env name with ⟨e | db, ws₁⟩
  · exact ⟨id, hnone, fun _ => rfl⟩
  simp only
  rcases (runtime env.io : Except (CliError S E) Unit) with e | ⟨⟩
  · exact ⟨id, hnone, fun _ => rfl⟩
  obtain ⟨file, hfile, hupload⟩ := upload_confined env ws₁ db dir (poolName out.canonicalRoot)
  refine ⟨file, hfile, fun tiers => ?_⟩
  simp only [hupload]
  rcases ws₁.upload env db dir (poolName out.canonicalRoot) with ⟨e | token, ws₂⟩
  · rfl
  · exact fileAway_onTiers env ws₂ (file tiers) name _

/-- The records of a pool name that pool. -/
def OwnRecords (name : String) (ws : Workspace S) : Prop :=
  ∀ file record, ws.asleep.lookup file = some (.whole record) → record.pool = name

/-- A wake sees of the tiers what its record names. -/
theorem wake_onTiers (out : Outside S E) (env : CliEnv S E) {ws : Workspace S} {name : String}
    (hown : ws.OwnRecords name) {tiers : Tiers S} (hsame : SameUnder name ws.tiers tiers)
    (branch : String) : (ws.onTiers tiers).wake out env branch =
      ((ws.wake out env branch).1, (ws.wake out env branch).2.onTiers tiers) := by
  unfold wake
  rw [show (ws.onTiers tiers).wakeRecord env branch = ws.wakeRecord env branch from rfl]
  rcases hrecord : ws.wakeRecord env branch with e | record
  · rfl
  have hpool : record.pool = name := hown _ record (wakeRecord_ok hrecord).2
  have hstored : (ws.onTiers tiers).stored record = ws.stored record := by
    rw [stored, stored, hpool, onTiers_tiers, hsame record.tier]
  simp only [hstored]
  rcases fetch out env branch (ws.stored record) with e | manifest
  · rfl
  have hadopt : ((ws.onTiers tiers).touch [.temp]).adopt out env (ws.stored record) =
      (((ws.touch [.temp]).adopt out env (ws.stored record)).1,
        ((ws.touch [.temp]).adopt out env (ws.stored record)).2.onTiers tiers) := by
    unfold adopt
    cases env.io .adopt with
    | some source => rfl
    | none => rfl
  simp only [hadopt]
  rcases (ws.touch [.temp]).adopt out env (ws.stored record) with ⟨e | pages, ws₁⟩
  · rfl
  · exact bringBack_onTiers env ws₁ tiers branch record manifest pages

/-- **One command is confined to the name of its pool.** Over other tiers with the same under
that name it answers the same and leaves the same, and it files under that name only. -/
theorem run_confined (out : Outside S E) {ws : Workspace S}
    (hown : ws.OwnRecords (poolName out.canonicalRoot)) (cli : Invocation S E) :
    Confined (poolName out.canonicalRoot) (fun ws => ws.run out cli) ws := by
  obtain ⟨command, branch, env⟩ := cli
  cases command with
  | «import» file table =>
    exact confined_of_aside _ fun tiers => import_onTiers out env ws tiers branch file table
  | sql query => exact confined_of_aside _ fun tiers => sql_onTiers out env ws tiers branch query
  | branch name noCheckout =>
    exact confined_of_aside _ fun tiers => fork_onTiers env ws tiers branch name noCheckout
  | branches => exact confined_of_aside _ fun tiers => rfl
  | checkout name => exact confined_of_aside _ fun tiers => checkout_onTiers env ws tiers name
  | sleep tier =>
    obtain ⟨file, hfile, hsleep⟩ := sleep_confined out env ws branch tier
    exact ⟨file, hfile, fun tiers _ => hsleep tiers⟩
  | wake name =>
    exact ⟨id, filesUnder_id _, fun tiers hsame => wake_onTiers out env hown hsame name⟩

section Records

variable (out : Outside S E) (env : CliEnv S E) (ws : Workspace S)

/-- Moving `HEAD` leaves the sleep records. -/
theorem setHead_asleep (io : CliFaults) (name : String) :
    (ws.setHead io name : Except (CliError S E) Unit × Workspace S).2.asleep = ws.asleep := by
  unfold setHead
  cases io .createPool with
  | some source => rfl
  | none =>
    cases io .writeHead with
    | some source => rfl
    | none => rfl

/-- Opening a branch leaves the sleep records. -/
theorem openBranch_asleep (name : String) : (ws.openBranch env name).2.asleep = ws.asleep := by
  unfold openBranch
  rcases Flock.openWith env.opening ws.pool name ⟨none, none⟩ with ⟨e | db, pool⟩
  · rfl
  · rfl

/-- Committing leaves the sleep records. -/
theorem commit_asleep (db : Db S E) : (ws.commit env db).2.asleep = ws.asleep := by
  unfold commit
  rcases db.snapshot env.working ws.pool with ⟨e | m, db', pool⟩
  · rfl
  · rfl

/-- An import leaves the sleep records. -/
theorem import_asleep (branch : Option String) (file : ImportFile) (table : Option String) :
    (ws.import out env branch file table).2.asleep = ws.asleep := by
  unfold «import»
  rcases ws.importPlan env branch file table with e | ⟨name, reader, table'⟩
  · rfl
  have hopen := openBranch_asleep env ws name
  simp only
  rcases hopened : ws.openBranch env name with ⟨e | db, ws₁⟩
  all_goals rw [hopened] at hopen
  · exact hopen
  simp only
  rcases importRows out db name reader file.path table' with ⟨e | n, db₁⟩
  · exact hopen
  have hcommit := (commit_asleep env ws₁ db₁).trans hopen
  simp only
  rcases hcommitted : ws₁.commit env db₁ with ⟨e | ⟨⟩, ws₂⟩
  all_goals rw [hcommitted] at hcommit
  · exact hcommit
  have hmoved := (setHead_asleep (E := E) ws₂ env.io name).trans hcommit
  cases ws.exists with
  | true => exact hcommit
  | false =>
    simp only [Bool.false_eq_true, if_false]
    rcases hset : (ws₂.setHead env.io name : Except (CliError S E) Unit × Workspace S) with
      ⟨e | ⟨⟩, ws₃⟩
    all_goals rw [hset] at hmoved
    · exact hmoved
    · exact hmoved

/-- A query leaves the sleep records. -/
theorem sql_asleep (branch : Option String) (query : String) :
    (ws.sql out env branch query).2.asleep = ws.asleep := by
  unfold sql
  rcases (ws.resolve env.io branch : Except (CliError S E) String) with e | name
  · rfl
  have hopen := openBranch_asleep env ws name
  simp only
  rcases hopened : ws.openBranch env name with ⟨e | db, ws₁⟩
  all_goals rw [hopened] at hopen
  · exact hopen
  simp only
  rcases db.query query with ⟨e | rows, db₁⟩
  · exact hopen
  have hcommit := (commit_asleep env ws₁ db₁).trans hopen
  simp only
  rcases hcommitted : ws₁.commit env db₁ with ⟨e | ⟨⟩, ws₂⟩
  all_goals rw [hcommitted] at hcommit
  · exact hcommit
  simp only
  cases out.table rows with
  | error source => exact hcommit
  | ok text => exact hcommit

/-- A fork leaves the sleep records. -/
theorem fork_asleep (source : Option String) (name : String) (noCheckout : Bool) :
    (ws.fork env source name noCheckout).2.asleep = ws.asleep := by
  unfold fork
  rcases (ws.resolve env.io source : Except (CliError S E) String) with e | parent
  · rfl
  have hopen := openBranch_asleep env ws parent
  simp only
  rcases hopened : ws.openBranch env parent with ⟨e | db, ws₁⟩
  all_goals rw [hopened] at hopen
  · exact hopen
  simp only
  rcases db.fork env.working env.forking ws₁.pool name with ⟨e | child, db', pool⟩
  · exact hopen
  have hmoved :=
    (setHead_asleep (E := E) (ws₁.opened (E := E) name pool) env.io name).trans hopen
  cases noCheckout with
  | true => exact hopen
  | false =>
    simp only [Bool.false_eq_true, if_false]
    rcases hset : ((ws₁.opened (E := E) name pool).setHead env.io name :
      Except (CliError S E) Unit × Workspace S) with ⟨e | ⟨⟩, ws₂⟩
    all_goals rw [hset] at hmoved
    · exact hmoved
    · exact hmoved

/-- A checkout leaves the sleep records. -/
theorem checkout_asleep (name : String) : (ws.checkout env name).2.asleep = ws.asleep := by
  unfold checkout
  rcases (ws.known env name : Except (CliError S E) Unit) with e | ⟨⟩
  · rfl
  have hmoved := setHead_asleep (E := E) ws env.io name
  simp only
  rcases hset : (ws.setHead env.io name : Except (CliError S E) Unit × Workspace S) with
    ⟨e | ⟨⟩, ws'⟩
  all_goals rw [hset] at hmoved
  · exact hmoved
  · exact hmoved

end Records

/-- The end of a sleep leaves a pool with its own records, if it files one of them. -/
theorem OwnRecords.fileAway {ws : Workspace S} {name : String} (h : ws.OwnRecords name)
    (env : CliEnv S E) (branch : String) {record : SleepRecord S} (hrecord : record.pool = name) :
    (ws.fileAway env branch record).2.OwnRecords name := by
  have hinsert (content : RecordFile S) (hcontent : ∀ r, content = .whole r → r.pool = name) :
      ∀ file r, (ws.asleep.insert (sleepRecordFile branch) content).lookup file = some (.whole r) →
        r.pool = name := by
    intro file r hlookup
    by_cases hfile : file = sleepRecordFile branch
    · subst hfile
      rw [AList.lookup_insert] at hlookup
      exact hcontent r (Option.some.inj hlookup)
    · rw [AList.lookup_insert_ne hfile] at hlookup
      exact h file r hlookup
  unfold Workspace.fileAway writeSleepRecord
  cases env.io .createAsleep with
  | some source => exact h
  | none =>
    cases env.io .createRecord with
    | some source => exact h
    | none =>
      cases env.io .writeRecord with
      | some source => exact hinsert .cut fun r hr => by cases hr
      | none =>
        have hwhole := hinsert (.whole record) fun r hr => by cases hr; exact hrecord
        simp only [removeBranchDir]
        cases env.io .removeBranchDir with
        | some source => exact hwhole
        | none => exact hwhole

/-- A sleep leaves a pool with its own records. -/
theorem OwnRecords.sleep {ws : Workspace S} {out : Outside S E}
    (h : ws.OwnRecords (poolName out.canonicalRoot)) (env : CliEnv S E)
    (branch tier : Option String) :
    (ws.sleep out env branch tier).2.OwnRecords (poolName out.canonicalRoot) := by
  have hsame {ws' : Workspace S} (hasleep : ws'.asleep = ws.asleep) :
      ws'.OwnRecords (poolName out.canonicalRoot) := fun file record hlookup =>
    h file record (hasleep ▸ hlookup)
  unfold Workspace.sleep
  rcases (ws.resolve env.io branch : Except (CliError S E) String) with e | name
  · exact h
  have hprepare : (ws.prepareTierDir out env.io (tier.getD (ws.pool.root ++ "/cold")) :
      Except (CliError S E) String × Workspace S).2.asleep = ws.asleep := by
    unfold prepareTierDir
    split
    · rfl
    · cases env.io .createTier with
      | some source => rfl
      | none =>
        cases env.io .resolveTier with
        | some source => rfl
        | none => rfl
  simp only
  rcases hprepared : (ws.prepareTierDir out env.io (tier.getD (ws.pool.root ++ "/cold")) :
    Except (CliError S E) String × Workspace S) with ⟨e | dir, ws₀⟩
  all_goals rw [hprepared] at hprepare
  · exact hsame hprepare
  simp only
  rcases (remoteTier env.io dir : Except (CliError S E) Unit) with e | ⟨⟩
  · exact hsame hprepare
  have hopen := (openBranch_asleep env ws₀ name).trans hprepare
  simp only
  rcases hopened : ws₀.openBranch env name with ⟨e | db, ws₁⟩
  all_goals rw [hopened] at hopen
  · exact hsame hopen
  simp only
  rcases (runtime env.io : Except (CliError S E) Unit) with e | ⟨⟩
  · exact hsame hopen
  have hupload : (ws₁.upload env db dir (poolName out.canonicalRoot)).2.asleep = ws₁.asleep := by
    unfold upload
    rcases db.sleep env.working env.sleeping env.fuel ws₁.pool (poolName out.canonicalRoot) with
      ⟨e | _ | uploaded, after⟩
    · rfl
    · rfl
    · rfl
  simp only
  rcases huploaded : ws₁.upload env db dir (poolName out.canonicalRoot) with ⟨e | token, ws₂⟩
  all_goals rw [huploaded] at hupload
  · exact hsame (hupload.trans hopen)
  · exact (hsame (hupload.trans hopen)).fileAway env name rfl

/-- A wake leaves a pool with its own records, or with all of them but one. -/
theorem OwnRecords.wake {ws : Workspace S} {name : String} (h : ws.OwnRecords name)
    (out : Outside S E) (env : CliEnv S E) (branch : String) :
    (ws.wake out env branch).2.OwnRecords name := by
  have hsame {ws' : Workspace S} (hasleep : ws'.asleep = ws.asleep) : ws'.OwnRecords name :=
    fun file record hlookup => h file record (hasleep ▸ hlookup)
  unfold Workspace.wake
  rcases ws.wakeRecord env branch with e | record
  · exact h
  simp only
  rcases fetch out env branch (ws.stored record) with e | manifest
  · exact h
  have hadopt : ((ws.touch [.temp]).adopt out env (ws.stored record)).2.asleep = ws.asleep := by
    unfold adopt
    cases env.io .adopt with
    | some source => rfl
    | none => rfl
  simp only
  rcases hadopted : (ws.touch [.temp]).adopt out env (ws.stored record) with ⟨e | pages, ws₁⟩
  all_goals rw [hadopted] at hadopt
  · exact hsame hadopt
  unfold bringBack
  have hopen := (openBranch_asleep env ws₁ branch).trans hadopt
  simp only
  rcases hopened : ws₁.openBranch env branch with ⟨e | db, ws₂⟩
  all_goals rw [hopened] at hopen
  · exact hsame hopen
  simp only
  rcases db.restore env.restoring ws₂.pool manifest with ⟨e | ⟨⟩, db', pool⟩
  · exact hsame hopen
  simp only [removeSleepRecord]
  cases env.io .removeRecord with
  | some source => exact hsame hopen
  | none =>
    intro file record' hlookup
    change (ws₂.asleep.erase (sleepRecordFile branch)).lookup file = _ at hlookup
    by_cases hfile : file = sleepRecordFile branch
    · subst hfile
      rw [AList.lookup_erase] at hlookup
      cases hlookup
    · rw [AList.lookup_erase_ne hfile] at hlookup
      exact hsame hopen file record' hlookup

/-- Every command leaves a pool with its own records. -/
theorem OwnRecords.run {ws : Workspace S} {out : Outside S E}
    (h : ws.OwnRecords (poolName out.canonicalRoot)) (cli : Invocation S E) :
    (ws.run out cli).2.OwnRecords (poolName out.canonicalRoot) := by
  have hsame {ws' : Workspace S} (hasleep : ws'.asleep = ws.asleep) :
      ws'.OwnRecords (poolName out.canonicalRoot) := fun file record hlookup =>
    h file record (hasleep ▸ hlookup)
  obtain ⟨command, branch, env⟩ := cli
  cases command with
  | «import» file table => exact hsame (import_asleep out env ws branch file table)
  | sql query => exact hsame (sql_asleep out env ws branch query)
  | branch name noCheckout => exact hsame (fork_asleep env ws branch name noCheckout)
  | branches => exact h
  | checkout name => exact hsame (checkout_asleep env ws name)
  | sleep tier => exact h.sleep env branch tier
  | wake name => exact h.wake out env name

end Workspace

/-- Pools, each with its own directory, and the tiers that they share. -/
structure Shared (ι : Type) (S : Substrate) where
  pools : ι → Workspace S
  tiers : Tiers S

/-- What belongs to one pool, in order. -/
def ofPool {ι α : Type*} [DecidableEq ι] (i : ι) : List (ι × α) → List α
  | [] => []
  | (j, x) :: rest => if j = i then x :: ofPool i rest else ofPool i rest

namespace Shared

variable {ι : Type} [DecidableEq ι]

/-- A command in one of the pools, answering for that pool. -/
def step (outs : ι → Outside S E) (w : Shared ι S) (input : ι × Invocation S E) :
    (ι × Except (CliError S E) (List String)) × Shared ι S :=
  let (result, ws) := ((w.pools input.1).onTiers w.tiers).run (outs input.1) input.2
  ((input.1, result), ⟨Function.update w.pools input.1 ws, ws.tiers⟩)

/-- The name that a pool files under. -/
def nameOf (outs : ι → Outside S E) (i : ι) : String := poolName (outs i).canonicalRoot

/-- A pool that runs alone is where it is beside others: it has the same directory, and the
tiers have the same under its name. -/
structure Stands (outs : ι → Outside S E) (i : ι) (w : Shared ι S) (ws : Workspace S) : Prop where
  pool_eq : (w.pools i).onTiers ws.tiers = ws
  same : SameUnder (nameOf outs i) ws.tiers w.tiers

/-- Every pool has its own records only. -/
def AllOwn (outs : ι → Outside S E) (w : Shared ι S) : Prop :=
  ∀ i, (w.pools i).OwnRecords (nameOf outs i)

variable {outs : ι → Outside S E} {w : Shared ι S}

/-- A command in one of the pools leaves every pool with its own records. -/
theorem AllOwn.step (h : w.AllOwn outs) (input : ι × Invocation S E) :
    (Shared.step outs w input).2.AllOwn outs := by
  intro i
  by_cases hi : i = input.1
  · subst hi
    have hown : ((w.pools input.1).onTiers w.tiers).OwnRecords (nameOf outs input.1) := h input.1
    have hrun := hown.run input.2
    have hself : (Shared.step outs w input).2.pools input.1 =
        (((w.pools input.1).onTiers w.tiers).run (outs input.1) input.2).2 :=
      Function.update_self _ _ _
    rw [hself]
    exact hrun
  · have hother : (Shared.step outs w input).2.pools i = w.pools i := Function.update_of_ne hi _ _
    rw [hother]
    exact h i

/-- A command in one of the pools files under the name of that pool. -/
theorem tiers_step (h : w.AllOwn outs) (input : ι × Invocation S E) :
    ∃ file, FilesUnder (nameOf outs input.1) file ∧
      (Shared.step outs w input).2.tiers = file w.tiers := by
  have hown : ((w.pools input.1).onTiers w.tiers).OwnRecords (nameOf outs input.1) := h input.1
  obtain ⟨file, hfile, hrun⟩ := Workspace.run_confined (outs input.1) hown input.2
  exact ⟨file, hfile, congrArg (fun result => result.2.tiers) (hrun w.tiers fun _ => rfl)⟩

/-- A pool's own command does beside others what it does alone. -/
theorem Stands.own {i : ι} {ws : Workspace S} (h : w.Stands outs i ws) (hall : w.AllOwn outs)
    (cli : Invocation S E) :
    (Shared.step outs w (i, cli)).1 = (i, (ws.run (outs i) cli).1) ∧
      (Shared.step outs w (i, cli)).2.Stands outs i (ws.run (outs i) cli).2 := by
  have hown : ws.OwnRecords (nameOf outs i) := by
    rw [← h.pool_eq]
    exact hall i
  obtain ⟨file, hfile, hrun⟩ := Workspace.run_confined (outs i) hown cli
  have halone : ws.run (outs i) cli =
      ((ws.run (outs i) cli).1, (ws.run (outs i) cli).2.onTiers (file ws.tiers)) :=
    hrun ws.tiers fun _ => rfl
  have hbeside : ((w.pools i).onTiers w.tiers).run (outs i) cli =
      ((ws.run (outs i) cli).1, (ws.run (outs i) cli).2.onTiers (file w.tiers)) := by
    have hws : ws.onTiers w.tiers = (w.pools i).onTiers w.tiers := by
      rw [← h.pool_eq]
      rfl
    rw [← hws]
    exact hrun w.tiers h.same
  have htiers : (ws.run (outs i) cli).2.tiers = file ws.tiers :=
    congrArg (fun result => result.2.tiers) halone
  have hstep : Shared.step outs w (i, cli) = ((i, (ws.run (outs i) cli).1),
      ⟨Function.update w.pools i ((ws.run (outs i) cli).2.onTiers (file w.tiers)),
        file w.tiers⟩) := by
    simp only [Shared.step, hbeside]
    rfl
  rw [hstep]
  refine ⟨rfl, ?_, ?_⟩
  · change (Function.update w.pools i _ i).onTiers _ = _
    rw [Function.update_self, Workspace.onTiers_onTiers, Workspace.onTiers_self]
  · rw [htiers]
    exact hfile.same _ _ h.same

/-- A command in a pool with another name does nothing to a pool. -/
theorem Stands.other {i : ι} {ws : Workspace S} (h : w.Stands outs i ws) (hall : w.AllOwn outs)
    {input : ι × Invocation S E} (hi : input.1 ≠ i)
    (hname : nameOf outs input.1 ≠ nameOf outs i) :
    (Shared.step outs w input).2.Stands outs i ws := by
  obtain ⟨file, hfile, htiers⟩ := tiers_step hall input
  refine ⟨?_, fun dir => ?_⟩
  · have hother : (Shared.step outs w input).2.pools i = w.pools i :=
      Function.update_of_ne hi.symm _ _
    rw [hother]
    exact h.pool_eq
  · rw [htiers, hfile.other _ _ _ hname.symm]
    exact h.same dir

/-- A pool with a name of its own works beside others as it does alone. -/
theorem Stands.run {i : ι} (hname : ∀ j, j ≠ i → nameOf outs j ≠ nameOf outs i)
    (inputs : List (ι × Invocation S E)) {w : Shared ι S} {ws : Workspace S}
    (h : w.Stands outs i ws) (hall : w.AllOwn outs) :
    ofPool i (Runs.run (Shared.step outs) w inputs).1 =
        (Runs.run (Workspace.run (outs i)) ws (ofPool i inputs)).1 ∧
      (Runs.run (Shared.step outs) w inputs).2.Stands outs i
        (Runs.run (Workspace.run (outs i)) ws (ofPool i inputs)).2 := by
  induction inputs generalizing w ws with
  | nil => exact ⟨rfl, h⟩
  | cons input inputs ih =>
    obtain ⟨j, cli⟩ := input
    have hall' := hall.step (j, cli)
    by_cases hj : j = i
    · subst hj
      obtain ⟨hout, hstands⟩ := h.own hall cli
      obtain ⟨houts, hrest⟩ := ih hstands hall'
      simp only [run_cons, hout, ofPool, if_pos, houts]
      exact ⟨trivial, hrest⟩
    · obtain ⟨houts, hrest⟩ := ih (h.other hall hj (hname j hj)) hall'
      have hout : (Shared.step outs w (j, cli)).1.1 = j := rfl
      simp only [run_cons, ofPool, if_neg hj, hout]
      exact ⟨houts, hrest⟩

/-- Pools that never share a namespace: their names differ, and from any start with nothing
asleep, whatever commands run in all of them, each answers and ends as if it was alone. -/
structure Separate (outs : ι → Outside S E) : Prop where
  names : ∀ i j, i ≠ j → nameOf outs i ≠ nameOf outs j
  alone : ∀ (w : Shared ι S), (∀ i, (w.pools i).asleep = ∅) →
    ∀ (inputs : List (ι × Invocation S E)) (i : ι),
      ofPool i (Runs.run (Shared.step outs) w inputs).1 =
          (Runs.run (Workspace.run (outs i)) ((w.pools i).onTiers w.tiers) (ofPool i inputs)).1 ∧
        (Runs.run (Shared.step outs) w inputs).2.Stands outs i
          (Runs.run (Workspace.run (outs i)) ((w.pools i).onTiers w.tiers) (ofPool i inputs)).2

/-- **When pools share no namespace.** Exactly when the last components of the pools' canonical
paths differ, pool by pool, in the letters, digits, dashes and underscores that they have, also
from `flock` where they have none. -/
theorem separate_iff (outs : ι → Outside S E) :
    Separate outs ↔
      ∀ i j, i ≠ j → KeptApart (outs i).canonicalRoot (outs j).canonicalRoot := by
  constructor
  · exact fun h i j hij => (poolName_ne_iff _ _).mp (h.names i j hij)
  · intro h
    have hnames : ∀ i j, i ≠ j → nameOf outs i ≠ nameOf outs j := fun i j hij =>
      (poolName_ne_iff _ _).mpr (h i j hij)
    refine ⟨hnames, fun w hasleep inputs i => ?_⟩
    have hall : w.AllOwn outs := fun j file record hlookup => by
      rw [hasleep j] at hlookup
      cases hlookup
    exact Stands.run (fun j hj => hnames j i hj) inputs ⟨rfl, fun _ => rfl⟩ hall

end Shared

namespace Memory

/-- The default pools of two projects: `/home/a/.flock` and `/home/b/.flock`. -/
def twoProjects (first : Bool) : Outside (memory []) memoryEngine :=
  { outside with
    canonicalRoot := some [[0x68, 0x6F, 0x6D, 0x65], if first then [0x61] else [0x62],
      [0x2E, 0x66, 0x6C, 0x6F, 0x63, 0x6B]] }

/-- Both projects before their first command. -/
def emptyProjects : Shared Bool (memory []) := ⟨fun _ => emptyWorkspace, fun _ _ => ⟨[], []⟩⟩

/-- The first project imports a file and goes to sleep in a tier. -/
def firstSleeps : List (Bool × Invocation (memory []) memoryEngine) :=
  [(true, ⟨.import trades none, none, cliEnv⟩), (true, ⟨.sleep (some "/cold"), none, cliEnv⟩)]

end Memory

/-- The default pools of two projects have different paths and one name, and what one of them
puts into a tier is there under the name of the other. -/
theorem Shared.two_projects_one_name :
    (Memory.twoProjects true).canonicalRoot ≠ (Memory.twoProjects false).canonicalRoot ∧
      nameOf Memory.twoProjects true = nameOf Memory.twoProjects false ∧
      ((Runs.run (Shared.step Memory.twoProjects) Memory.emptyProjects
        Memory.firstSleeps).2.tiers "/cold" (nameOf Memory.twoProjects false)).manifests ≠ [] ∧
      ¬Separate Memory.twoProjects := by
  have hname : nameOf Memory.twoProjects true = nameOf Memory.twoProjects false := by decide
  refine ⟨by decide, hname, ?_, fun h => h.names true false (by decide) hname⟩
  rw [← hname]
  intro hnone
  cases hnone

end FlockDb
