import FlockDb.Cli.Names

/-!
# A command that is rejected

A command that is given a bad argument, a bad name, a file that cannot be imported or SQL that
fails stops with an error. Most of these checks come before anything is made. Those that need an
open database come after it was opened, and opening a branch makes its directory.
-/

namespace FlockDb

variable {S : Substrate} {E : Engine}

/-- A name that no database can have. -/
def BadName (S : Substrate) (E : Engine) (name : String) : Prop :=
  ∃ e, validateName (S := S) (E := E) name = .error e

namespace Workspace

/-- The head of a branch that is awake. -/
def headOf (ws : Workspace S) (n : String) : Option S.ManifestId :=
  (ws.pool.dbs n).map fun _ => ws.pool.recoveredHead n

/-- What a user sees of a pool is what it was: the listing, `HEAD`, the sleep records and the
head of every branch. -/
structure Unchanged (ws ws' : Workspace S) : Prop where
  listing : branchNames ws'.dbs ws'.asleep.keys = branchNames ws.dbs ws.asleep.keys
  head : ws'.head = ws.head
  asleep : ws'.asleep = ws.asleep
  heads : ∀ n, ws'.headOf n = ws.headOf n

/-- Nothing happened. -/
theorem Unchanged.refl (ws : Workspace S) : ws.Unchanged ws := ⟨rfl, rfl, rfl, fun _ => rfl⟩

/-- To touch places changes nothing. -/
theorem unchanged_touch (ws : Workspace S) (places : List Place) : ws.Unchanged (ws.touch places) :=
  ⟨rfl, rfl, rfl, fun _ => rfl⟩

/-- SQL left a database so that DuckDB refuses the `CHECKPOINT` of its commit, as it does in an
open transaction. -/
def RefusesCheckpoint (db : Db S E) : Prop :=
  ∃ e, (E.executeBatch db.kernel.conn "CHECKPOINT").1 = .error e

/-- The branch of a command that looks it up is bad: it is not there, or its name is not one. -/
def RejectsBranch (E : Engine) (ws : Workspace S) (io : CliFaults) (branch : Option String) :
    Prop :=
  (∃ e : CliError S E, ws.resolve io branch = .error e) ∨
    ∃ name, (ws.resolve io branch : Except (CliError S E) String) = .ok name ∧ BadName S E name

/-- A command is rejected for an argument, a name, its file or its SQL: at one of its checks, at
a step of its SQL, or at the `CHECKPOINT` that ends it. -/
def Rejects (out : Outside S E) (ws : Workspace S) (cli : Invocation S E) : Prop :=
  match cli.command with
  | .import file table =>
    (∃ e, ws.importPlan cli.env cli.branch file table = .error e) ∨
      ∃ name reader table',
        ws.importPlan cli.env cli.branch file table = .ok (name, reader, table') ∧
          (BadName S E name ∨ ∃ db ws', ws.openBranch cli.env name = (.ok db, ws') ∧
            ((∃ e, (importRows out db name reader file.path table').1 = .error e) ∨
              RefusesCheckpoint (importRows out db name reader file.path table').2))
  | .sql query =>
    ws.RejectsBranch E cli.env.io cli.branch ∨
      ∃ name db ws', (ws.resolve cli.env.io cli.branch : Except (CliError S E) String) = .ok name ∧
        ws.openBranch cli.env name = (.ok db, ws') ∧
        ((∃ e, (db.query query).1 = .error e) ∨ RefusesCheckpoint (db.query query).2)
  | .branch name _ =>
    ws.RejectsBranch E cli.env.io cli.branch ∨
      ∃ parent db ws',
        (ws.resolve cli.env.io cli.branch : Except (CliError S E) String) = .ok parent ∧
        ws.openBranch cli.env parent = (.ok db, ws') ∧
        (BadName S E name ∨ (ws'.pool.dbs name).isSome)
  | .branches => ∃ e, ws.list cli.env = .error e
  | .checkout name => ∃ e : CliError S E, ws.known cli.env name = .error e
  | .sleep tier =>
    ws.RejectsBranch E cli.env.io cli.branch ∨
      ∃ name, (ws.resolve cli.env.io cli.branch : Except (CliError S E) String) = .ok name ∧
        [':', '/', '/'] <:+: (tier.getD (ws.pool.root ++ "/cold")).toList
  | .wake name => (∃ e, ws.wakeRecord cli.env name = .error e) ∨ BadName S E name

/-- The branch that a command opens, if its checks let it come to that and it has a name that a
database can have: for an import the one that it plans, for a query or a fork the one that it
looks up. The other commands open none that they could still be rejected on. -/
def opensBranch (ws : Workspace S) (cli : Invocation S E) : Option String :=
  let opened : Except (CliError S E) String :=
    match cli.command with
    | .import file table => (ws.importPlan cli.env cli.branch file table).map Prod.fst
    | .sql _ => ws.resolve cli.env.io cli.branch
    | .branch _ _ => ws.resolve cli.env.io cli.branch
    | _ => .error .unfinished
  opened.toOption.filter fun name => (validateName (S := S) (E := E) name).toBool

/-- What a user sees is unchanged over two steps that change nothing. -/
theorem Unchanged.trans {ws ws' ws'' : Workspace S} (h : ws.Unchanged ws')
    (h' : ws'.Unchanged ws'') : ws.Unchanged ws'' :=
  ⟨h'.listing.trans h.listing, h'.head.trans h.head, h'.asleep.trans h.asleep,
    fun n => (h'.heads n).trans (h.heads n)⟩

/-- A directory that was there is not listed again. -/
theorem Listed.opened_dbs {ws : Workspace S} (h : ws.Listed) {name : String} {pool : Pool S}
    (hsome : (pool.dbs name).isSome → (ws.pool.dbs name).isSome) :
    (ws.opened (E := E) name pool).dbs = ws.dbs := by
  simp only [opened]
  rw [if_neg]
  intro hnew
  obtain ⟨hnow, hout⟩ := Bool.and_eq_true_iff.mp hnew
  have hmem := (h.mem_iff name).mpr (hsome hnow)
  simp [hmem] at hout

/-- Nothing is made under a bad name. -/
theorem unchanged_opened {ws : Workspace S} (h : ws.Listed) (name : String) :
    ws.Unchanged (ws.opened (E := E) name ws.pool) :=
  ⟨by rw [h.opened_dbs id]; rfl, rfl, rfl, fun _ => rfl⟩

/-- A branch under a bad name is not opened. -/
theorem openBranch_of_badName {ws : Workspace S} (h : ws.Listed) (env : CliEnv S E) {name : String}
    (hname : BadName S E name) :
    ∃ e, (ws.openBranch env name).1 = .error e ∧ ws.Unchanged (ws.openBranch env name).2 := by
  obtain ⟨e, he⟩ := hname
  have hopen : Flock.openWith env.opening ws.pool name ⟨none, none⟩ = (.error e, ws.pool) := by
    rw [Flock.openWith, he]
  unfold openBranch
  rw [hopen]
  exact ⟨_, rfl, unchanged_opened h name⟩

/-- A branch that was opened had a name. -/
theorem valid_of_openBranch {ws ws' : Workspace S} {env : CliEnv S E} {name : String} {db : Db S E}
    (h : ws.openBranch env name = (.ok db, ws')) :
    (validateName (S := S) (E := E) name).toBool = true := by
  cases hname : validateName (S := S) (E := E) name with
  | ok _ => rfl
  | error e =>
    have hopen : Flock.openWith env.opening ws.pool name ⟨none, none⟩ = (.error e, ws.pool) := by
      rw [Flock.openWith, hname]
    unfold openBranch at h
    rw [hopen] at h
    cases h

/-- Opening a branch changes nothing exactly if it has a directory. -/
theorem openBranch_unchanged_iff (hS : S.Recovers) {ws ws' : Workspace S} (hlisted : ws.Listed)
    {env : CliEnv S E} {name : String} {db : Db S E}
    (h : ws.openBranch env name = (.ok db, ws')) :
    ws.Unchanged ws' ↔ (ws.pool.dbs name).isSome := by
  obtain ⟨hactive, hdb⟩ := openBranch_active hS env ws name
  rw [h] at hactive hdb
  obtain ⟨-, -, hsome⟩ := hdb db rfl
  constructor
  · intro hsame
    have hhead := congrArg Option.isSome (hsame.heads name)
    rw [headOf, headOf, Option.isSome_map, Option.isSome_map] at hhead
    exact hhead ▸ hsome
  · intro hexists
    obtain ⟨pool, hws', hhead⟩ : ∃ pool, ws' = ws.opened (E := E) name pool ∧
        pool.recoveredHead name = ws.pool.recoveredHead name := by
      have hleaves := openWith_leaves_recoveredHead hS env.opening ws.pool name ⟨none, none⟩
      unfold openBranch at h
      rcases hopen : Flock.openWith env.opening ws.pool name ⟨none, none⟩ with ⟨e | db', pool⟩
      all_goals
        rw [hopen] at h hleaves
        exact ⟨pool, (Prod.mk.inj h).2.symm, hleaves⟩
    subst hws'
    refine ⟨?_, rfl, rfl, fun n => ?_⟩
    · rw [hlisted.opened_dbs fun _ => hexists]
      rfl
    · by_cases hn : n = name
      · subst hn
        obtain ⟨dir, hdir⟩ := Option.isSome_iff_exists.mp hexists
        obtain ⟨dir', hdir'⟩ := Option.isSome_iff_exists.mp hsome
        have hnow : pool.dbs n = some dir' := hdir'
        rw [headOf, headOf, hdir, show (ws.opened (E := E) n pool).pool = pool from rfl, hnow,
          hhead]
        rfl
      · have hdbs : pool.dbs n = ws.pool.dbs n := hactive.beside.dbs_eq n hn
        have hsame : pool.recoveredHead n = ws.pool.recoveredHead n :=
          hactive.beside.recoveredHead_eq hn
        rw [headOf, headOf, show (ws.opened (E := E) name pool).pool = pool from rfl, hdbs, hsame]

/-- The listing has the databases that there are after a branch was opened. -/
theorem Listed.openBranch (hS : S.Recovers) {ws ws' : Workspace S} (h : ws.Listed)
    {env : CliEnv S E} {name : String} {result : Except (CliError S E) (Db S E)}
    (hopen : ws.openBranch env name = (result, ws')) : ws'.Listed := by
  obtain ⟨hactive, -⟩ := openBranch_active hS env ws name
  rw [hopen] at hactive
  exact hactive.listed h

/-- A commit that DuckDB refuses changes nothing. -/
theorem commit_of_refusesCheckpoint {ws : Workspace S} {env : CliEnv S E} {db : Db S E}
    (hlocal : db.Local) (hsome : (ws.pool.dbs db.name).isSome) (h : RefusesCheckpoint db) :
    ∃ e, (ws.commit env db).1 = .error e ∧ ws.Unchanged (ws.commit env db).2 := by
  obtain ⟨head, hstore⟩ := hlocal
  obtain ⟨source, hbatch⟩ := h
  obtain ⟨e, kernel, hfold⟩ : ∃ e kernel, (db.kernel.foldWalIntoMainFile env.working.kernel :
      Except (KernelError S E.Error) Unit × DuckDbKernel E) = (.error e, kernel) := by
    unfold DuckDbKernel.foldWalIntoMainFile DuckDbKernel.executeBatch
    cases env.working.kernel.checkpoint with
    | some source' => exact ⟨_, _, rfl⟩
    | none =>
      rcases hresult : E.executeBatch db.kernel.conn "CHECKPOINT" with ⟨source' | ⟨⟩, conn⟩
      all_goals rw [hresult] at hbatch
      · exact ⟨_, _, rfl⟩
      · cases hbatch
  have hsnapshot : ∃ db', db.snapshot env.working ws.pool = (.error (.kernel e), db',
      ws.pool.keep db.name (ws.pool.durable db.name head)) := by
    simp only [Db.snapshot, hstore, DuckDbKernel.checkpoint, hfold]
    exact ⟨_, rfl⟩
  obtain ⟨db', hsnapshot⟩ := hsnapshot
  unfold commit
  rw [hsnapshot]
  refine ⟨_, rfl, rfl, rfl, rfl, fun n => ?_⟩
  have hkept := Pool.keep_dbs_isSome ws.pool db.name (ws.pool.durable db.name head) n
  have hhead : (ws.pool.keep db.name (ws.pool.durable db.name head)).recoveredHead n =
      ws.pool.recoveredHead n := by
    by_cases hn : n = db.name
    · rw [hn, Pool.recoveredHead, Pool.wal_keep hsome]
      rfl
    · exact (Pool.beside_keep ws.pool db.name (.refl _)).recoveredHead_eq hn
  change ((ws.pool.keep db.name (ws.pool.durable db.name head)).dbs n).map _ = _
  rw [hhead, headOf]
  cases hdir : ws.pool.dbs n with
  | none =>
    rw [hdir, Option.isSome_none, Option.isSome_eq_false_iff, Option.isNone_iff_eq_none] at hkept
    rw [hkept]
  | some dir =>
    rw [hdir] at hkept
    obtain ⟨dir', hdir'⟩ := Option.isSome_iff_exists.mp hkept
    rw [hdir']
    rfl

/-- A commit that DuckDB refuses, of a branch that was opened, changes nothing exactly if the
branch has a directory. -/
theorem commit_refused (hS : S.Recovers) {ws ws' : Workspace S} (hlisted : ws.Listed)
    {env : CliEnv S E} {name : String} {db db' : Db S E}
    (hopen : ws.openBranch env name = (.ok db, ws')) (hkept : db'.name = db.name)
    (hstore : db'.store = db.store) (h : RefusesCheckpoint db') :
    ∃ e ws'', ws'.commit env db' = (.error e, ws'') ∧
      (ws.Unchanged ws'' ↔ (ws.pool.dbs name).isSome) := by
  obtain ⟨-, hdb⟩ := openBranch_active hS env ws name
  rw [hopen] at hdb
  obtain ⟨rfl, ⟨head, hlocal⟩, hsome⟩ := hdb db rfl
  have hsome' : (ws'.pool.dbs db'.name).isSome := hkept.symm ▸ hsome
  obtain ⟨e, herror, hsame⟩ :=
    @commit_of_refusesCheckpoint S E ws' env db' ⟨head, hstore.trans hlocal⟩ hsome' h
  have hback : (ws'.commit env db').2.Unchanged ws' :=
    ⟨hsame.listing.symm, hsame.head.symm, hsame.asleep.symm, fun n => (hsame.heads n).symm⟩
  refine ⟨e, (ws'.commit env db').2, Prod.ext herror rfl, ?_⟩
  rw [← openBranch_unchanged_iff hS hlisted hopen]
  exact ⟨fun hws => hws.trans hback, fun hws => hws.trans hsame⟩

section Commands

variable {ws : Workspace S} {env : CliEnv S E} {branch : Option String}

/-- A command stops with an error, and changes nothing exactly if what it opened was there. -/
def StopsWith {α : Type*} (ws : Workspace S) (opens : Option String)
    (result : Except (CliError S E) α × Workspace S) : Prop :=
  (∃ e, result.1 = .error e) ∧
    (ws.Unchanged result.2 ↔ ∀ name, opens = some name → (ws.pool.dbs name).isSome)

/-- A command that opened nothing, and left everything. -/
theorem stopsWith_none {α : Type*} {result : Except (CliError S E) α × Workspace S}
    (herror : ∃ e, result.1 = .error e) (hsame : ws.Unchanged result.2) :
    ws.StopsWith none result :=
  ⟨herror, iff_of_true hsame fun _ h => by cases h⟩

/-- A command that opened a branch, and left everything besides. -/
theorem stopsWith_some {α : Type*} {result : Except (CliError S E) α × Workspace S} {name : String}
    (herror : ∃ e, result.1 = .error e)
    (hiff : ws.Unchanged result.2 ↔ (ws.pool.dbs name).isSome) :
    ws.StopsWith (some name) result := by
  refine ⟨herror, hiff.trans ⟨fun h n hn => ?_, fun h => h name rfl⟩⟩
  rwa [← Option.some.inj hn]

/-- A bad name opens nothing. -/
theorem filter_of_badName {name : String} (hname : BadName S E name) :
    (some name).filter (fun n => (validateName (S := S) (E := E) n).toBool) = none := by
  obtain ⟨e, he⟩ := hname
  rw [Option.filter_some, he]
  rfl

/-- A good name opens. -/
theorem filter_of_valid {name : String}
    (hname : (validateName (S := S) (E := E) name).toBool = true) :
    (some name).filter (fun n => (validateName (S := S) (E := E) n).toBool) = some name := by
  rw [Option.filter_some, if_pos hname]

/-- An import that is rejected. -/
theorem import_rejected (hS : S.Recovers) (out : Outside S E) (hlisted : ws.Listed)
    {file : ImportFile} {table : Option String}
    (h : ws.Rejects out ⟨.import file table, branch, env⟩) :
    ws.StopsWith (ws.opensBranch (⟨.import file table, branch, env⟩ : Invocation S E))
      (ws.import out env branch file table) := by
  rcases h with ⟨e, hplan⟩ | ⟨name, reader, table', hplan, hname | ⟨db, ws', hopen, hsql⟩⟩
  · have hopens : ws.opensBranch (⟨.import file table, branch, env⟩ : Invocation S E) = none := by
      simp only [opensBranch, show ws.importPlan env branch file table = .error e from hplan]
      rfl
    have hcmd : ws.import out env branch file table = (.error e, ws) := by
      simp only [Workspace.import, show ws.importPlan env branch file table = .error e from hplan]
    rw [hopens, hcmd]
    exact stopsWith_none ⟨e, rfl⟩ (.refl ws)
  all_goals
    have hplan : ws.importPlan env branch file table = .ok (name, reader, table') := hplan
    have hopens : ws.opensBranch (⟨.import file table, branch, env⟩ : Invocation S E) =
        (some name).filter (fun n => (validateName (S := S) (E := E) n).toBool) := by
      simp only [opensBranch, hplan]
      rfl
    rw [hopens]
    simp only [Workspace.import, hplan]
  · rw [filter_of_badName hname]
    obtain ⟨e, herror, hsame⟩ := openBranch_of_badName hlisted env hname
    rcases hopened : ws.openBranch env name with ⟨e' | db, ws'⟩
    all_goals rw [hopened] at herror hsame
    · exact stopsWith_none ⟨e', rfl⟩ hsame
    · cases herror
  · have hopen : ws.openBranch env name = (.ok db, ws') := hopen
    have hiff := openBranch_unchanged_iff hS hlisted hopen
    obtain ⟨hkept, hstore⟩ := importRows_kept out db name reader file.path table'
    rw [filter_of_valid (valid_of_openBranch hopen), hopen]
    rcases hrows : importRows out db name reader file.path table' with ⟨e | n, db'⟩
    all_goals
      rw [hrows] at hsql hkept hstore
      simp only [hrows]
    · exact stopsWith_some ⟨e, rfl⟩ hiff
    · have hrefuses : RefusesCheckpoint db' := by
        rcases hsql with ⟨e, he⟩ | hrefuses
        · cases he
        · exact hrefuses
      obtain ⟨e, ws'', hcommit, hiff'⟩ := commit_refused hS hlisted hopen hkept hstore hrefuses
      simp only [hcommit]
      exact stopsWith_some ⟨e, rfl⟩ hiff'

/-- A branch that is rejected opens nothing. -/
theorem opensBranch_of_rejectsBranch {command : Command}
    (hcommand : (∃ query, command = .sql query) ∨ ∃ name flag, command = .branch name flag)
    (h : ws.RejectsBranch E env.io branch) :
    ws.opensBranch (⟨command, branch, env⟩ : Invocation S E) = none := by
  have hopened : ws.opensBranch (⟨command, branch, env⟩ : Invocation S E) =
      (ws.resolve env.io branch : Except (CliError S E) String).toOption.filter
        fun n => (validateName (S := S) (E := E) n).toBool := by
    rcases hcommand with ⟨query, rfl⟩ | ⟨name, flag, rfl⟩
    · rfl
    · rfl
  rw [hopened]
  rcases h with ⟨e, hresolve⟩ | ⟨name, hresolve, hname⟩
  · rw [hresolve]
    rfl
  · rw [hresolve]
    exact filter_of_badName hname

/-- A branch that is rejected is not opened, and nothing is changed. -/
theorem openBranch_of_rejectsBranch (hlisted : ws.Listed) (h : ws.RejectsBranch E env.io branch) :
    (∃ e : CliError S E, ws.resolve env.io branch = .error e) ∨
      ∃ name ws' e, (ws.resolve env.io branch : Except (CliError S E) String) = .ok name ∧
        ws.openBranch env name = (.error e, ws') ∧ ws.Unchanged ws' := by
  rcases h with herror | ⟨name, hresolve, hname⟩
  · exact .inl herror
  · obtain ⟨e, herror, hsame⟩ := openBranch_of_badName hlisted env hname
    exact .inr ⟨name, _, e, hresolve, Prod.ext herror rfl, hsame⟩

/-- A query that is rejected. -/
theorem sql_rejected (hS : S.Recovers) (out : Outside S E) (hlisted : ws.Listed) {query : String}
    (h : ws.Rejects out ⟨.sql query, branch, env⟩) :
    ws.StopsWith (ws.opensBranch (⟨.sql query, branch, env⟩ : Invocation S E))
      (ws.sql out env branch query) := by
  rcases h with hbranch | ⟨name, db, ws', hresolve, hopen, hsql⟩
  · rw [opensBranch_of_rejectsBranch (.inl ⟨query, rfl⟩) hbranch]
    rcases openBranch_of_rejectsBranch hlisted hbranch with
      ⟨e, hresolve⟩ | ⟨name, ws', e, hresolve, hopen, hsame⟩
    · simp only [Workspace.sql, hresolve]
      exact stopsWith_none ⟨e, rfl⟩ (.refl ws)
    · simp only [Workspace.sql, hresolve, hopen]
      exact stopsWith_none ⟨e, rfl⟩ hsame
  · have hresolve : (ws.resolve env.io branch : Except (CliError S E) String) = .ok name := hresolve
    have hopen : ws.openBranch env name = (.ok db, ws') := hopen
    have hopens : ws.opensBranch (⟨.sql query, branch, env⟩ : Invocation S E) = some name := by
      rw [opensBranch, hresolve]
      exact filter_of_valid (valid_of_openBranch hopen)
    obtain ⟨hkept, hstore⟩ := World.query_kept db query
    rw [hopens]
    simp only [Workspace.sql, hresolve, hopen]
    rcases hqueried : db.query query with ⟨e | rows, db'⟩
    all_goals
      rw [hqueried] at hsql hkept hstore
      simp only
    · exact stopsWith_some ⟨_, rfl⟩ (openBranch_unchanged_iff hS hlisted hopen)
    · have hrefuses : RefusesCheckpoint db' := by
        rcases hsql with ⟨e, he⟩ | hrefuses
        · cases he
        · exact hrefuses
      obtain ⟨e, ws'', hcommit, hiff⟩ := commit_refused hS hlisted hopen hkept hstore hrefuses
      simp only [hcommit]
      exact stopsWith_some ⟨e, rfl⟩ hiff

/-- A fork that is rejected. -/
theorem fork_rejected (hS : S.Recovers) (out : Outside S E) (hlisted : ws.Listed) {name : String}
    {noCheckout : Bool} (h : ws.Rejects out ⟨.branch name noCheckout, branch, env⟩) :
    ws.StopsWith (ws.opensBranch (⟨.branch name noCheckout, branch, env⟩ : Invocation S E))
      (ws.fork env branch name noCheckout) := by
  rcases h with hbranch | ⟨parent, db, ws', hresolve, hopen, hrefused⟩
  · rw [opensBranch_of_rejectsBranch (.inr ⟨name, noCheckout, rfl⟩) hbranch]
    rcases openBranch_of_rejectsBranch hlisted hbranch with
      ⟨e, hresolve⟩ | ⟨parent, ws', e, hresolve, hopen, hsame⟩
    · simp only [Workspace.fork, hresolve]
      exact stopsWith_none ⟨e, rfl⟩ (.refl ws)
    · simp only [Workspace.fork, hresolve, hopen]
      exact stopsWith_none ⟨e, rfl⟩ hsame
  · have hresolve : (ws.resolve env.io branch : Except (CliError S E) String) = .ok parent :=
      hresolve
    have hopen : ws.openBranch env parent = (.ok db, ws') := hopen
    have hopens : ws.opensBranch (⟨.branch name noCheckout, branch, env⟩ : Invocation S E) =
        some parent := by
      rw [opensBranch, hresolve]
      exact filter_of_valid (valid_of_openBranch hopen)
    -- a name that is no name, or is taken, stops the fork before its snapshot
    obtain ⟨e, hfork⟩ : ∃ e, db.fork env.working env.forking ws'.pool name =
        (.error e, db, ws'.pool) := by
      rw [Db.fork]
      cases hvalid : validateName (S := S) (E := E) name with
      | error e => exact ⟨e, rfl⟩
      | ok _ =>
        rcases hrefused with ⟨e, he⟩ | htaken
        · rw [hvalid] at he
          cases he
        · obtain ⟨dir, hdir⟩ := Option.isSome_iff_exists.mp htaken
          exact ⟨.nameTaken name (ws'.pool.dbDir name), by simp only [hdir]⟩
    rw [hopens]
    simp only [Workspace.fork, hresolve, hopen, hfork]
    have hlisted' := hlisted.openBranch hS hopen
    have hopened := unchanged_opened (E := E) hlisted' name
    have hback : (ws'.opened (E := E) name ws'.pool).Unchanged ws' :=
      ⟨hopened.listing.symm, hopened.head.symm, hopened.asleep.symm,
        fun n => (hopened.heads n).symm⟩
    refine stopsWith_some ⟨_, rfl⟩ ?_
    rw [← openBranch_unchanged_iff hS hlisted hopen]
    exact ⟨fun h => h.trans hback, fun h => h.trans hopened⟩

/-- A sleep that is rejected opens nothing. -/
theorem sleep_rejected (out : Outside S E) (hlisted : ws.Listed) {tier : Option String}
    (h : ws.Rejects out ⟨.sleep tier, branch, env⟩) :
    (∃ e, (ws.sleep out env branch tier).1 = .error e) ∧
      ws.Unchanged (ws.sleep out env branch tier).2 := by
  have hprepare : ws.Unchanged (ws.prepareTierDir out env.io
      (tier.getD (ws.pool.root ++ "/cold"))).2 := by
    unfold prepareTierDir
    split
    · exact .refl ws
    · cases env.io .createTier with
      | some source => exact unchanged_touch ws _
      | none =>
        cases env.io .resolveTier with
        | some source => exact unchanged_touch ws _
        | none => exact unchanged_touch ws _
  unfold sleep
  rcases hresolve : (ws.resolve env.io branch : Except (CliError S E) String) with e | name
  · exact ⟨⟨e, rfl⟩, .refl ws⟩
  simp only
  rcases hprepared : ws.prepareTierDir out env.io (tier.getD (ws.pool.root ++ "/cold")) with
    ⟨e | dir, ws₀⟩
  all_goals rw [hprepared] at hprepare
  · exact ⟨⟨e, rfl⟩, hprepare⟩
  simp only
  rcases (remoteTier env.io dir : Except (CliError S E) Unit) with e | ⟨⟩
  · exact ⟨⟨e, rfl⟩, hprepare⟩
  -- the tier was prepared and the branch looked up, so its name is bad
  have hname : BadName S E name := by
    rcases h with (⟨e, herror⟩ | ⟨n, hn, hname⟩) | ⟨n, hn, htier⟩
    · cases hresolve.symm.trans herror
    · obtain rfl : name = n := Except.ok.inj (hresolve.symm.trans hn)
      exact hname
    · have htier : [':', '/', '/'] <:+: (tier.getD (ws.pool.root ++ "/cold")).toList := htier
      rw [prepareTierDir, if_pos htier] at hprepared
      cases hprepared
  have hlisted₀ : ws₀.Listed := by
    have hactive := prepareTierDir_active out env.io ws (tier.getD (ws.pool.root ++ "/cold")) ""
    rw [hprepared] at hactive
    exact hactive.listed hlisted
  obtain ⟨e, herror, hsame⟩ := openBranch_of_badName hlisted₀ env hname
  simp only
  rcases hopened : ws₀.openBranch env name with ⟨e' | db, ws₁⟩
  all_goals rw [hopened] at herror hsame
  · exact ⟨⟨e', rfl⟩, hprepare.trans hsame⟩
  · cases herror

/-- A wake that is rejected opens nothing. -/
theorem wake_rejected (out : Outside S E) {name : String}
    (h : ws.Rejects out ⟨.wake name, branch, env⟩) :
    (∃ e, (ws.wake out env name).1 = .error e) ∧ ws.Unchanged (ws.wake out env name).2 := by
  unfold wake
  rcases hrecord : ws.wakeRecord env name with e | record
  · exact ⟨⟨e, rfl⟩, .refl ws⟩
  simp only
  rcases hfetch : fetch out env name (ws.stored record) with e | manifest
  · exact ⟨⟨e, rfl⟩, unchanged_touch ws _⟩
  · obtain ⟨-, hvalid, -⟩ := fetch_ok hfetch
    rcases h with ⟨e, herror⟩ | ⟨e, herror⟩
    · cases hrecord.symm.trans herror
    · cases hvalid.symm.trans herror

end Commands

/-- **What a rejected command changes.** It stops with an error, and leaves the listing, `HEAD`,
the sleep records and every head as they were exactly if the branch that it opened, if its
checks let it come to that, had a directory before. -/
theorem unchanged_iff (hS : S.Laws) (out : Outside S E) {ws : Workspace S} (hlisted : ws.Listed)
    {cli : Invocation S E} (h : ws.Rejects out cli) :
    (∃ e, (ws.run out cli).1 = .error e) ∧
      (ws.Unchanged (ws.run out cli).2 ↔
        ∀ name, ws.opensBranch cli = some name → (ws.pool.dbs name).isSome) := by
  obtain ⟨command, branch, env⟩ := cli
  cases command with
  | «import» file table => exact import_rejected hS.toRecovers out hlisted h
  | sql query => exact sql_rejected hS.toRecovers out hlisted h
  | branch name noCheckout => exact fork_rejected hS.toRecovers out hlisted h
  | branches => exact stopsWith_none h (.refl ws)
  | checkout name =>
    obtain ⟨e, hknown⟩ := h
    have hcmd : ws.checkout env name = (.error e, ws) := by
      rw [Workspace.checkout, show ws.known env name = .error e from hknown]
    change ws.StopsWith none (ws.checkout env name)
    rw [hcmd]
    exact stopsWith_none ⟨e, rfl⟩ (.refl ws)
  | sleep tier =>
    obtain ⟨herror, hsame⟩ := sleep_rejected out hlisted h
    exact stopsWith_none herror hsame
  | wake name =>
    obtain ⟨herror, hsame⟩ := wake_rejected out h
    exact stopsWith_none herror hsame

end Workspace

namespace Memory

/-- An in-memory engine that can read no file. -/
def unreadingEngine : Engine :=
  { memoryEngine with execute := fun conn _ => (.error "the file cannot be read", conn) }

/-- The code outside of the repository, in memory, over that engine. -/
def unreadingOutside : Outside (memory []) unreadingEngine where
  canonicalRoot := outside.canonicalRoot
  canonicalTier := outside.canonicalTier
  wakeCas := outside.wakeCas
  cached := outside.cached
  copyTree := outside.copyTree
  firstI64 := fun _ => some 0
  table := fun _ => .ok "OK"

/-- A store that nothing was copied into has what it had. -/
theorem grows_uncopied (cas _cached : (memory []).Cas) : (memory []).Grows cas cas := .refl cas

/-- What a command meets over that engine when every call goes through. -/
def unreadingEnv : CliEnv (memory []) unreadingEngine where
  io := .none
  opening := .none
  working := .none
  forking := .none
  sleeping := cliEnv.sleeping
  fuel := cliEnv.fuel
  strayed := cliEnv.strayed
  leftover := id
  copiedSome := fun cas _ => cas
  copiedSome_grows := grows_uncopied
  cacheRoot := "/cache"
  hydrating := .none
  waking := ⟨none, none⟩
  restoring := .none

/-- A pool with the one branch `main`. -/
def mainOnly : Workspace (memory []) :=
  { emptyWorkspace with
    pool := emptyWorkspace.pool.createDb "main", head := some "main", dbs := ["main"] }

/-- An import of a file that cannot be read, to a branch. -/
def importTo (branch : String) : Invocation (memory []) unreadingEngine :=
  ⟨.import trades none, some branch, unreadingEnv⟩

/-- The listing of that pool is its one branch. -/
theorem listed_mainOnly : mainOnly.Listed where
  nodup := by decide
  mem_iff := by
    intro n
    change n ∈ ["main"] ↔ (Function.update (fun _ => none) "main" _ n).isSome = true
    by_cases hn : n = "main"
    · subst hn
      simp
    · simp [hn]

/-- The import is rejected at a step of its SQL, after its branch was opened. -/
theorem rejects_importTo {branch : String} (hbranch : branch = "main" ∨ branch = "typo") :
    mainOnly.Rejects unreadingOutside (importTo branch) := by
  refine .inr ⟨branch, "read_csv_auto", "trades", ?_⟩
  rcases hbranch with rfl | rfl
  · exact ⟨rfl, .inr ⟨_, _, rfl, .inl ⟨_, rfl⟩⟩⟩
  · exact ⟨rfl, .inr ⟨_, _, rfl, .inl ⟨_, rfl⟩⟩⟩

end Memory

namespace Workspace

/-- An import that is rejected on a branch that is there changes nothing. -/
theorem unchanged_iff_importMain :
    (∃ e, (Memory.mainOnly.run Memory.unreadingOutside (Memory.importTo "main")).1 = .error e) ∧
      Memory.mainOnly.Unchanged
        (Memory.mainOnly.run Memory.unreadingOutside (Memory.importTo "main")).2 := by
  obtain ⟨herror, hiff⟩ := unchanged_iff (Memory.laws []) Memory.unreadingOutside
    Memory.listed_mainOnly (Memory.rejects_importTo (.inl rfl))
  refine ⟨herror, hiff.mpr fun name hname => ?_⟩
  obtain rfl : "main" = name := Option.some.inj hname
  rfl

/-- An import of a file that cannot be read, to a branch that is not there, fails, and the branch
is there afterwards. -/
theorem rejected_import_leaves_branch :
    Memory.mainOnly.Rejects Memory.unreadingOutside (Memory.importTo "typo") ∧
      (∃ e, (Memory.mainOnly.run Memory.unreadingOutside (Memory.importTo "typo")).1 = .error e) ∧
      branchNames Memory.mainOnly.dbs Memory.mainOnly.asleep.keys = ["main"] ∧
      "typo" ∈ branchNames
        (Memory.mainOnly.run Memory.unreadingOutside (Memory.importTo "typo")).2.dbs
        (Memory.mainOnly.run Memory.unreadingOutside (Memory.importTo "typo")).2.asleep.keys ∧
      ¬Memory.mainOnly.Unchanged
        (Memory.mainOnly.run Memory.unreadingOutside (Memory.importTo "typo")).2 := by
  have hbefore : branchNames Memory.mainOnly.dbs Memory.mainOnly.asleep.keys = ["main"] := by decide
  have hafter : "typo" ∈ branchNames
      (Memory.mainOnly.run Memory.unreadingOutside (Memory.importTo "typo")).2.dbs
      (Memory.mainOnly.run Memory.unreadingOutside (Memory.importTo "typo")).2.asleep.keys := by
    have hdbs : (Memory.mainOnly.run Memory.unreadingOutside (Memory.importTo "typo")).2.dbs =
        ["main", "typo"] := rfl
    refine mem_branchNames_iff.mpr ⟨"typo", List.mem_append_left _ (by rw [hdbs]; simp), ?_⟩
    decide
  refine ⟨Memory.rejects_importTo (.inr rfl), ⟨_, rfl⟩, hbefore, hafter, fun hsame => ?_⟩
  rw [hsame.listing, hbefore] at hafter
  exact absurd hafter (by decide)

end Workspace

end FlockDb
