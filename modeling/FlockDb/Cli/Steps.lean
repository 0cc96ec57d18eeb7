import FlockDb.Cli.Commands

/-!
# What a command can do

A command works on the directories of at most two branches, the one that it opens and the
one that it makes, and moves `HEAD` or a sleep record at its end. Everything that is shown of
the commands is shown of these moves.
-/

namespace FlockDb

variable {S : Substrate} {E : Engine}

/-- What the commands rely on of a copy into the pool's store that comes to its end: the store
has what it had, and what was copied. -/
structure Outside.Copies (out : Outside S E) : Prop where
  grows : ∀ cas cached, S.Grows cas (out.copyTree cas cached).2
  adds : ∀ cas cached, S.Grows cached (out.copyTree cas cached).2

namespace Workspace

/-- The listing of `dbs/` has the databases that there are, each once. -/
structure Listed (ws : Workspace S) : Prop where
  nodup : ws.dbs.Nodup
  mem_iff : ∀ n, n ∈ ws.dbs ↔ (ws.pool.dbs n).isSome

/-- A workspace that went on in the hands of one branch: `HEAD` and the sleep records are
what they were, and no other branch's directory changed. -/
structure Active (name : String) (ws ws' : Workspace S) : Prop where
  beside : ws.pool.Beside name ws'.pool
  head_eq : ws'.head = ws.head
  asleep_eq : ws'.asleep = ws.asleep
  listed : ws.Listed → ws'.Listed

/-- A workspace that nothing happened to. -/
theorem Active.refl (name : String) (ws : Workspace S) : ws.Active name ws :=
  ⟨.refl name _, rfl, rfl, id⟩

/-- Going on in the hands of one branch composes. -/
theorem Active.trans {name : String} {ws ws' ws'' : Workspace S} (h : ws.Active name ws')
    (h' : ws'.Active name ws'') : ws.Active name ws'' :=
  ⟨h.beside.trans h'.beside, h'.head_eq.trans h.head_eq, h'.asleep_eq.trans h.asleep_eq,
    h'.listed ∘ h.listed⟩

/-- To touch places, and to store in a tier, changes nothing else. -/
theorem active_tiers (name : String) (ws : Workspace S) (tiers : Tiers S) (places : List Place) :
    ws.Active name ({ ws with tiers }.touch places) :=
  ⟨.refl name _, rfl, rfl, fun h => ⟨h.nodup, h.mem_iff⟩⟩

/-- To touch places changes nothing else. -/
theorem active_touch (name : String) (ws : Workspace S) (places : List Place) :
    ws.Active name (ws.touch places) := active_tiers name ws ws.tiers places

/-- The listing after a database may have got a directory. -/
theorem listed_opened {ws : Workspace S} (h : ws.Listed) {name : String} {pool : Pool S}
    (hother : ∀ n, n ≠ name → (pool.dbs n).isSome = (ws.pool.dbs n).isSome)
    (hself : (ws.pool.dbs name).isSome → (pool.dbs name).isSome) :
    (ws.opened (E := E) name pool).Listed where
  nodup := by
    simp only [opened]
    split
    · next hnew =>
      have hout : name ∉ ws.dbs := by
        simpa using (Bool.and_eq_true_iff.mp hnew).2
      exact List.nodup_append.mpr ⟨h.nodup, List.nodup_singleton name, fun a ha b hb =>
        fun hab => hout (List.mem_singleton.mp hb ▸ hab ▸ ha)⟩
    · exact h.nodup
  mem_iff := by
    intro n
    simp only [opened]
    by_cases hn : n = name
    · subst hn
      by_cases hmem : n ∈ ws.dbs
      · have hsome : (pool.dbs n).isSome := hself ((h.mem_iff n).mp hmem)
        simp [hmem, hsome]
      · by_cases hsome : (pool.dbs n).isSome <;> simp [hmem, hsome]
    · rw [hother n hn, ← h.mem_iff n]
      split
      · rw [List.mem_append, List.mem_singleton, or_iff_left hn]
      · rfl

/-- A listing of databases that are still there, each as much as before. -/
theorem Listed.of_isSome {ws ws' : Workspace S} (h : ws.Listed) (hdbs : ws'.dbs = ws.dbs)
    (hpool : ∀ n, (ws'.pool.dbs n).isSome = (ws.pool.dbs n).isSome) : ws'.Listed :=
  ⟨hdbs ▸ h.nodup, fun n => by rw [hdbs, hpool n, h.mem_iff n]⟩

/-- A listing of databases after something changed in one of the directories. -/
theorem Listed.updateDir {ws ws' : Workspace S} (h : ws.Listed) {branch : String}
    {f : DbDir S → DbDir S} (hpool : ws'.pool = ws.pool.updateDir branch f)
    (hdbs : ws'.dbs = ws.dbs) : ws'.Listed := by
  refine h.of_isSome hdbs fun n => ?_
  rw [hpool]
  by_cases hself : n = branch
  · subst hself
    rw [Pool.updateDir_dbs, Option.isSome_map]
  · rw [Pool.updateDir]
    exact congrArg Option.isSome (Function.update_of_ne hself _ _)

/-- A listing of databases after one of them is gone. -/
theorem Listed.gone {ws ws' : Workspace S} (h : ws.Listed) {branch : String}
    (hpool : ws'.pool = { ws.pool with dbs := Function.update ws.pool.dbs branch none })
    (hdbs : ws'.dbs = ws.dbs.erase branch) : ws'.Listed where
  nodup := by
    rw [hdbs]
    exact h.nodup.erase branch
  mem_iff := by
    intro n
    rw [hdbs, h.nodup.mem_erase_iff, h.mem_iff, hpool]
    by_cases hself : n = branch
    · subst hself
      simp
    · simp [hself]

/-- The directory that a database's work may have made is listed. -/
theorem active_opened {ws : Workspace S} {name : String} {pool : Pool S}
    (hbeside : ws.pool.Beside name pool) : ws.Active name (ws.opened (E := E) name pool) :=
  ⟨hbeside, rfl, rfl, fun h => listed_opened h
    (fun n hn => congrArg Option.isSome (hbeside.dbs_eq n hn)) hbeside.isSome⟩

/-- A pool whose directories are as before, but for what is in the branch's own. -/
theorem active_pool {ws : Workspace S} {name : String} {pool : Pool S}
    (hbeside : ws.pool.Beside name pool)
    (hsome : ∀ n, (pool.dbs n).isSome = (ws.pool.dbs n).isSome) :
    ws.Active name { ws with pool } :=
  ⟨hbeside, rfl, rfl, fun h => h.of_isSome rfl hsome⟩

/-- Opening a branch. What it returns is a handle on a database that exists, at the head that
its log records. -/
theorem openBranch_active (hS : S.Recovers) (env : CliEnv S E) (ws : Workspace S) (name : String) :
    ws.Active name (ws.openBranch env name).2 ∧
      ∀ db, (ws.openBranch env name).1 = .ok db → db.name = name ∧ db.Local ∧
        ((ws.openBranch env name).2.pool.dbs name).isSome := by
  obtain ⟨hbeside, hopen⟩ := Db.beside_openWith hS env.opening ws.pool name ⟨none, none⟩
  unfold openBranch
  rcases hresult : Flock.openWith env.opening ws.pool name ⟨none, none⟩ with ⟨e | db, pool⟩
  all_goals rw [hresult] at hbeside hopen
  · exact ⟨active_opened hbeside, fun db hok => by cases hok⟩
  · refine ⟨active_opened hbeside, fun db' hok => ?_⟩
    obtain rfl : db = db' := Except.ok.inj hok
    exact hopen db rfl

/-- Committing what was done to a branch. -/
theorem commit_active (hS : S.Laws) (env : CliEnv S E) (ws : Workspace S) (db : Db S E) :
    ws.Active db.name (ws.commit env db).2 := by
  obtain ⟨hbeside, -⟩ := Db.beside_snapshot hS env.working db ws.pool
  have hsome := snapshot_dbs_isSome env.working db ws.pool
  unfold commit
  rcases hresult : db.snapshot env.working ws.pool with ⟨e | m, db', pool⟩
  all_goals rw [hresult] at hbeside hsome
  · exact active_pool hbeside hsome
  · exact active_pool hbeside hsome

/-- `HEAD` was moved to a branch, and nothing else happened. -/
structure HeadMoved (name : String) (ws ws' : Workspace S) : Prop where
  pool_eq : ws'.pool = ws.pool
  head_eq : ws'.head = some name
  asleep_eq : ws'.asleep = ws.asleep
  dbs_eq : ws'.dbs = ws.dbs

/-- Moving `HEAD` fails, and then `HEAD` is where it was, or goes through. -/
theorem setHead_cases (ws : Workspace S) (io : CliFaults) (name : String) :
    (∃ e, (ws.setHead io name : Except (CliError S E) Unit × Workspace S).1 = .error e ∧
      ∀ n, ws.Active n (ws.setHead io name : Except (CliError S E) Unit × Workspace S).2) ∨
    (ws.setHead io name : Except (CliError S E) Unit × Workspace S).1 = .ok () ∧
      HeadMoved name ws (ws.setHead io name : Except (CliError S E) Unit × Workspace S).2 := by
  unfold setHead
  cases io .createPool with
  | some source => exact .inl ⟨_, rfl, fun n => active_touch n ws _⟩
  | none =>
    cases io .writeHead with
    | some source => exact .inl ⟨_, rfl, fun n => active_touch n ws _⟩
    | none => exact .inr ⟨rfl, rfl, rfl, rfl, rfl⟩

/-- The SQL of an import leaves a handle's name and its store. -/
theorem importRows_kept (out : Outside S E) (db : Db S E) (branch reader path table : String) :
    (importRows out db branch reader path table).2.name = db.name ∧
      (importRows out db branch reader path table).2.store = db.store := by
  have hkept : (tableExists out db table).2.name = db.name ∧
      (tableExists out db table).2.store = db.store := by
    unfold tableExists
    generalize hsql : "SELECT count(*) FROM duckdb_tables() WHERE table_name = '" ++ quoted table ++
      "'" = sql
    have hquery := World.query_kept db sql
    rcases hresult : db.query sql with ⟨e | rows, db₁⟩ <;> rw [hresult] at hquery <;> exact hquery
  unfold importRows
  rcases hexists : tableExists out db table with ⟨e | (_ | _), db₁⟩
  all_goals rw [hexists] at hkept
  · exact hkept
  · simp only
    generalize hsql : createTable reader path table = sql
    have hexecute := World.execute_kept db₁ sql
    rcases hcreate : db₁.execute sql with ⟨e | n, db₂⟩
    all_goals rw [hcreate] at hexecute
    · exact ⟨hexecute.1.trans hkept.1, hexecute.2.trans hkept.2⟩
    · simp only
      generalize hsql' : "SELECT count(*) FROM \"" ++ table ++ "\"" = sql'
      have hquery := World.query_kept db₂ sql'
      rcases hcount : db₂.query sql' with ⟨e | rows, db₃⟩
      all_goals
        rw [hcount] at hquery
        exact ⟨hquery.1.trans (hexecute.1.trans hkept.1), hquery.2.trans (hexecute.2.trans hkept.2)⟩
  · exact hkept

/-- What an import can do: be refused before it opens anything, or work on the branch that it
planned to and in a fresh pool move `HEAD` there. -/
theorem import_cases (hS : S.Laws) (out : Outside S E) (env : CliEnv S E) (ws : Workspace S)
    (branch : Option String) (file : ImportFile) (table : Option String) :
    (∃ e, ws.importPlan env branch file table = .error e ∧
      ws.import out env branch file table = (.error e, ws)) ∨
    ∃ name reader table', ws.importPlan env branch file table = .ok (name, reader, table') ∧
      ∃ ws₁, ws.Active name ws₁ ∧
        ((ws.import out env branch file table).2 = ws₁ ∨
          ws.head = none ∧ (ws₁.pool.dbs name).isSome ∧
            HeadMoved name ws₁ (ws.import out env branch file table).2) ∧
        (∀ lines, (ws.import out env branch file table).1 = .ok lines →
          ((ws.import out env branch file table).2.pool.dbs name).isSome ∧
            (ws.import out env branch file table).2.head.isSome) := by
  unfold «import»
  rcases hplan : ws.importPlan env branch file table with e | ⟨name, reader, table'⟩
  · exact .inl ⟨e, rfl, rfl⟩
  refine .inr ⟨name, reader, table', rfl, ?_⟩
  obtain ⟨hopen, hdb⟩ := openBranch_active hS.toRecovers env ws name
  simp only
  rcases hopened : ws.openBranch env name with ⟨e | db, ws₁⟩
  all_goals rw [hopened] at hopen hdb
  · exact ⟨ws₁, hopen, .inl rfl, fun lines hok => by cases hok⟩
  obtain ⟨hname, -, hsome⟩ := hdb db rfl
  obtain ⟨hkept, -⟩ := importRows_kept out db name reader file.path table'
  simp only
  rcases hrows : importRows out db name reader file.path table' with ⟨e | n, db₁⟩
  all_goals rw [hrows] at hkept
  · exact ⟨ws₁, hopen, .inl rfl, fun lines hok => by cases hok⟩
  have hcommit := commit_active hS env ws₁ db₁
  rw [hkept, hname] at hcommit
  simp only
  rcases hcommitted : ws₁.commit env db₁ with ⟨e | ⟨⟩, ws₂⟩
  all_goals rw [hcommitted] at hcommit
  · exact ⟨ws₂, hopen.trans hcommit, .inl rfl, fun lines hok => by cases hok⟩
  have hsome₂ : (ws₂.pool.dbs name).isSome := hcommit.beside.isSome hsome
  simp only
  cases hfresh : ws.exists with
  | true =>
    have hactive := hopen.trans hcommit
    exact ⟨ws₂, hactive, .inl rfl, fun lines _ => ⟨hsome₂, hactive.head_eq ▸ hfresh⟩⟩
  | false =>
    have hhead : ws.head = none := by simpa [«exists»] using hfresh
    simp only [Bool.false_eq_true, if_false]
    have hcases := setHead_cases (E := E) ws₂ env.io name
    rcases hset : (ws₂.setHead env.io name : Except (CliError S E) Unit × Workspace S) with
      ⟨e | ⟨⟩, ws₃⟩
    all_goals rw [hset] at hcases
    · rcases hcases with ⟨-, -, hactive⟩ | ⟨hok, -⟩
      · exact ⟨ws₃, (hopen.trans hcommit).trans (hactive name), .inl rfl,
          fun lines hok => by cases hok⟩
      · cases hok
    · rcases hcases with ⟨e, herror, -⟩ | ⟨-, hmoved⟩
      · cases herror
      · exact ⟨ws₂, hopen.trans hcommit, .inr ⟨hhead, hsome₂, hmoved⟩,
          fun lines _ => ⟨hmoved.pool_eq ▸ hsome₂, hmoved.head_eq ▸ rfl⟩⟩

/-- What `sql` can do: be refused before it opens anything, or work on the branch. -/
theorem sql_cases (hS : S.Laws) (out : Outside S E) (env : CliEnv S E) (ws : Workspace S)
    (branch : Option String) (query : String) :
    (∃ e, ws.resolve env.io branch = .error e ∧ ws.sql out env branch query = (.error e, ws)) ∨
    ∃ name, (ws.resolve env.io branch : Except (CliError S E) String) = .ok name ∧
      ws.Active name (ws.sql out env branch query).2 := by
  unfold sql
  rcases hresolve : (ws.resolve env.io branch : Except (CliError S E) String) with e | name
  · exact .inl ⟨e, rfl, rfl⟩
  refine .inr ⟨name, rfl, ?_⟩
  obtain ⟨hopen, hdb⟩ := openBranch_active hS.toRecovers env ws name
  simp only
  rcases hopened : ws.openBranch env name with ⟨e | db, ws₁⟩
  all_goals rw [hopened] at hopen hdb
  · exact hopen
  obtain ⟨hname, -, -⟩ := hdb db rfl
  obtain ⟨hkept, -⟩ := World.query_kept db query
  simp only
  rcases hrows : db.query query with ⟨e | rows, db₁⟩
  all_goals rw [hrows] at hkept
  · exact hopen
  have hcommit := commit_active hS env ws₁ db₁
  rw [hkept, hname] at hcommit
  simp only
  rcases hcommitted : ws₁.commit env db₁ with ⟨e | ⟨⟩, ws₂⟩
  all_goals rw [hcommitted] at hcommit
  · exact hopen.trans hcommit
  · simp only
    cases out.table rows with
    | error source => exact hopen.trans hcommit
    | ok text => exact hopen.trans hcommit

/-- What a fork can do: be refused or stopped with nothing but its parent worked on, or go on
to make the new branch and move `HEAD` there. -/
theorem fork_cases (hS : S.Laws) (env : CliEnv S E) (ws : Workspace S) (source : Option String)
    (name : String) (noCheckout : Bool) :
    (∃ e, ws.resolve env.io source = .error e ∧
      ws.fork env source name noCheckout = (.error e, ws)) ∨
    ∃ parent, (ws.resolve env.io source : Except (CliError S E) String) = .ok parent ∧
      ((∃ e, (ws.fork env source name noCheckout).1 = .error e) ∧
          ws.Active parent (ws.fork env source name noCheckout).2 ∨
        ∃ ws₁ ws₂, ws.Active parent ws₁ ∧ ws₁.pool.dbs name = none ∧ ws₁.Active name ws₂ ∧
          ((∃ e, (ws.fork env source name noCheckout).1 = .error e) ∧
              (ws.fork env source name noCheckout).2 = ws₂ ∨
            (ws₂.pool.dbs name).isSome ∧ ((ws.fork env source name noCheckout).2 = ws₂ ∨
              HeadMoved name ws₂ (ws.fork env source name noCheckout).2))) := by
  unfold fork
  rcases hresolve : (ws.resolve env.io source : Except (CliError S E) String) with e | parent
  · exact .inl ⟨e, rfl, rfl⟩
  refine .inr ⟨parent, rfl, ?_⟩
  obtain ⟨hopen, hdb⟩ := openBranch_active hS.toRecovers env ws parent
  simp only
  rcases hopened : ws.openBranch env parent with ⟨e | db, ws₀⟩
  all_goals rw [hopened] at hopen hdb
  · exact .inl ⟨⟨e, rfl⟩, hopen⟩
  obtain ⟨rfl, -, -⟩ := hdb db rfl
  simp only
  rcases Db.fork_cases env.working env.forking db ws₀.pool name with
    ⟨-, e, hfork⟩ |
      ⟨-, hfree, ⟨e, db', pool', hsnapshot, hfork⟩ | ⟨m, db', pool', hsnapshot, hfork⟩⟩
  · rw [hfork]
    have hsame : ws₀.Active db.name (ws₀.opened (E := E) name ws₀.pool) :=
      ⟨.refl _ _, rfl, rfl, fun h => listed_opened h (fun _ _ => rfl) id⟩
    exact .inl ⟨⟨_, rfl⟩, hopen.trans hsame⟩
  · obtain ⟨hbeside, -⟩ := Db.beside_snapshot hS env.working db ws₀.pool
    have hsome := snapshot_dbs_isSome env.working db ws₀.pool
    rw [hsnapshot] at hbeside hsome
    rw [hfork]
    have hstopped : ws₀.Active db.name (ws₀.opened (E := E) name pool') :=
      ⟨hbeside, rfl, rfl,
        fun h => listed_opened h (fun n _ => hsome n) fun hn => (hsome name).symm ▸ hn⟩
    exact .inl ⟨⟨_, rfl⟩, hopen.trans hstopped⟩
  · obtain ⟨hbeside, -⟩ := Db.beside_snapshot hS env.working db ws₀.pool
    have hsome := snapshot_dbs_isSome env.working db ws₀.pool
    rw [hsnapshot] at hbeside hsome
    obtain ⟨hchild, hmade⟩ := Db.beside_forkFrom hS.toRecovers env.forking db' pool' name m
    have hparent : ws.Active db.name { ws₀ with pool := pool' } :=
      hopen.trans (active_pool hbeside hsome)
    have hfree' : pool'.dbs name = none := by
      rw [← Option.not_isSome_iff_eq_none, hsome name, hfree]
      simp
    rw [hfork]
    rcases hforked : Db.forkFrom env.forking db' pool' name m with ⟨e | child, pool''⟩
    all_goals
      rw [hforked] at hchild hmade
      have hnew : ({ ws₀ with pool := pool' } : Workspace S).Active name
          (ws₀.opened (E := E) name pool'') :=
        @active_opened S E { ws₀ with pool := pool' } name pool'' hchild
    · exact .inr ⟨_, _, hparent, hfree', hnew, .inl ⟨⟨_, rfl⟩, rfl⟩⟩
    · obtain ⟨-, -, hexists⟩ := hmade child rfl
      simp only
      cases noCheckout with
      | true => exact .inr ⟨_, _, hparent, hfree', hnew, .inr ⟨hexists, .inl rfl⟩⟩
      | false =>
        simp only [Bool.false_eq_true, if_false]
        have hcases := setHead_cases (E := E) (ws₀.opened (E := E) name pool'') env.io name
        rcases hset : ((ws₀.opened (E := E) name pool'').setHead env.io name :
          Except (CliError S E) Unit × Workspace S) with ⟨e | ⟨⟩, ws₃⟩
        all_goals rw [hset] at hcases
        · rcases hcases with ⟨-, -, hactive⟩ | ⟨hok, -⟩
          · exact .inr ⟨_, ws₃, hparent, hfree', hnew.trans (hactive name),
              .inl ⟨⟨_, rfl⟩, rfl⟩⟩
          · cases hok
        · rcases hcases with ⟨e, herror, -⟩ | ⟨-, hmoved⟩
          · cases herror
          · exact .inr ⟨_, _, hparent, hfree', hnew, .inr ⟨hexists, .inr hmoved⟩⟩

/-- What a checkout can do: be refused, or move `HEAD` to a branch that is listed. -/
theorem checkout_cases (env : CliEnv S E) (ws : Workspace S) (name : String) :
    (∃ e, (ws.checkout env name).1 = .error e) ∧ (∀ n, ws.Active n (ws.checkout env name).2) ∨
    (ws.known env name : Except (CliError S E) Unit) = .ok () ∧
      HeadMoved name ws (ws.checkout env name).2 := by
  unfold checkout
  rcases hknown : (ws.known env name : Except (CliError S E) Unit) with e | ⟨⟩
  · exact .inl ⟨⟨e, rfl⟩, fun n => .refl n ws⟩
  simp only
  have hcases := setHead_cases (E := E) ws env.io name
  rcases hset : (ws.setHead env.io name : Except (CliError S E) Unit × Workspace S) with
    ⟨e | ⟨⟩, ws'⟩
  all_goals rw [hset] at hcases
  · rcases hcases with ⟨-, -, hactive⟩ | ⟨hok, -⟩
    · exact .inl ⟨⟨_, rfl⟩, hactive⟩
    · cases hok
  · rcases hcases with ⟨e, herror, -⟩ | ⟨-, hmoved⟩
    · cases herror
    · exact .inr ⟨trivial, hmoved⟩

/-- What the preparation of a tier touches is outside of the pool. -/
theorem prepareTierDir_active (out : Outside S E) (io : CliFaults) (ws : Workspace S)
    (dir name : String) : ws.Active name (ws.prepareTierDir out io dir).2 := by
  unfold prepareTierDir
  split
  · exact .refl name ws
  · cases io .createTier with
    | some source => exact active_touch name ws _
    | none =>
      cases io .resolveTier with
      | some source => exact active_touch name ws _
      | none => exact active_touch name ws _

/-- An upload that goes through: what it stored and the token of it. -/
structure UploadedBy (env : CliEnv S E) (ws : Workspace S) (db : Db S E) (dir pool : String)
    (token : WakeToken S) (ws' : Workspace S) (uploaded : Uploaded S) : Prop where
  slept : db.sleep env.working env.sleeping env.fuel ws.pool pool = (.ok (some uploaded), ws'.pool)
  token_eq : token = uploaded.token
  tiers_eq : ws'.tiers = ws.tiers.store dir pool ⟨uploaded.manifests, uploaded.pages⟩

/-- An upload works on the branch, and stores what its sleep uploads. -/
theorem upload_active (hS : S.Laws) (env : CliEnv S E) (ws : Workspace S) (db : Db S E)
    (dir pool : String) :
    ws.Active db.name (ws.upload env db dir pool).2 ∧
      ∀ token, (ws.upload env db dir pool).1 = .ok token →
        ∃ uploaded, UploadedBy env ws db dir pool token (ws.upload env db dir pool).2 uploaded := by
  have hbeside := Db.beside_sleep hS env.working env.sleeping env.fuel db ws.pool pool
  have hsome (n : String) :
      ((db.sleep env.working env.sleeping env.fuel ws.pool pool).2.dbs n).isSome =
        (ws.pool.dbs n).isSome := by
    rw [World.sleep_pool]
    exact snapshot_dbs_isSome env.working db ws.pool n
  unfold upload
  rcases hslept : db.sleep env.working env.sleeping env.fuel ws.pool pool with
    ⟨e | _ | uploaded, after⟩
  all_goals
    rw [hslept] at hbeside hsome
    have hactive (bucket : Bucket S) : ws.Active db.name
        ({ ws with pool := after, tiers := ws.tiers.store dir pool bucket }.touch
          [.tier dir, .temp]) :=
      ⟨hbeside, rfl, rfl, fun h => h.of_isSome rfl hsome⟩
  · exact ⟨hactive _, fun token hok => by cases hok⟩
  · exact ⟨hactive _, fun token hok => by cases hok⟩
  · refine ⟨hactive _, fun token hok => ⟨uploaded, hslept, ?_, rfl⟩⟩
    exact (Except.ok.inj hok).symm

/-- How the end of a sleep may leave a workspace: nothing recorded, the record cut short, the
record whole and the directory not gone, or the record whole and the directory gone. -/
inductive FiledAway (env : CliEnv S E) (branch : String) (record : SleepRecord S)
    (ws ws' : Workspace S) : Prop where
  | unrecorded (hactive : ∀ n, ws.Active n ws')
  | cut (hfault : env.io .writeRecord ≠ none) (hpool : ws'.pool = ws.pool)
      (hdbs : ws'.dbs = ws.dbs) (hhead : ws'.head = ws.head) (htiers : ws'.tiers = ws.tiers)
      (hasleep : ws'.asleep = ws.asleep.insert (sleepRecordFile branch) .cut)
  | left (hfault : env.io .removeBranchDir ≠ none)
      (hpool : ws'.pool = ws.pool.updateDir branch env.leftover)
      (hdbs : ws'.dbs = ws.dbs) (hhead : ws'.head = ws.head) (htiers : ws'.tiers = ws.tiers)
      (hasleep : ws'.asleep = ws.asleep.insert (sleepRecordFile branch) (.whole record))
  | gone (hpool : ws'.pool = { ws.pool with dbs := Function.update ws.pool.dbs branch none })
      (hdbs : ws'.dbs = ws.dbs.erase branch) (hhead : ws'.head = ws.head)
      (htiers : ws'.tiers = ws.tiers)
      (hasleep : ws'.asleep = ws.asleep.insert (sleepRecordFile branch) (.whole record))

/-- The end of a sleep, which goes through exactly if the directory is gone. -/
theorem fileAway_cases (env : CliEnv S E) (ws : Workspace S) (branch : String)
    (record : SleepRecord S) :
    FiledAway env branch record ws (ws.fileAway env branch record).2 := by
  unfold fileAway writeSleepRecord
  cases hdir : env.io .createAsleep with
  | some source => exact .unrecorded fun n => .refl n ws
  | none =>
    cases hcreate : env.io .createRecord with
    | some source => exact .unrecorded fun n => active_touch n ws _
    | none =>
      cases hwrite : env.io .writeRecord with
      | some source => exact .cut (by simp [hwrite]) rfl rfl rfl rfl rfl
      | none =>
        simp only [removeBranchDir]
        cases hremove : env.io .removeBranchDir with
        | some source => exact .left (by simp [hremove]) rfl rfl rfl rfl rfl
        | none => exact .gone rfl rfl rfl rfl rfl

/-- What a sleep can do: be refused or stopped with nothing but the branch worked on, or upload
the branch and come to its end. -/
theorem sleep_cases (hS : S.Laws) (out : Outside S E) (env : CliEnv S E) (ws : Workspace S)
    (branch tier : Option String) :
    (∃ e, (ws.sleep out env branch tier).1 = .error e) ∧
        (∀ n, ws.Active n (ws.sleep out env branch tier).2) ∨
    ∃ name, (ws.resolve env.io branch : Except (CliError S E) String) = .ok name ∧
      ((∃ e, (ws.sleep out env branch tier).1 = .error e) ∧
          ws.Active name (ws.sleep out env branch tier).2 ∨
        ∃ ws₀ ws₁ ws₂ db dir token uploaded, (∀ n, ws.Active n ws₀) ∧
          ws₀.openBranch env name = (.ok db, ws₁) ∧
          UploadedBy env ws₁ db dir (poolName out.canonicalRoot) token ws₂ uploaded ∧
          ws.Active name ws₂ ∧ (ws₂.pool.dbs name).isSome ∧
          ws.sleep out env branch tier =
            ws₂.fileAway env name ⟨dir, poolName out.canonicalRoot, token⟩) := by
  unfold sleep
  rcases hresolve : (ws.resolve env.io branch : Except (CliError S E) String) with e | name
  · exact .inl ⟨⟨e, rfl⟩, fun n => .refl n ws⟩
  simp only
  have hprepare := prepareTierDir_active out env.io ws (tier.getD (ws.pool.root ++ "/cold"))
  rcases hprepared : ws.prepareTierDir out env.io (tier.getD (ws.pool.root ++ "/cold")) with
    ⟨e | dir, ws₀⟩
  all_goals rw [hprepared] at hprepare
  · exact .inl ⟨⟨e, rfl⟩, hprepare⟩
  simp only
  rcases (remoteTier env.io dir : Except (CliError S E) Unit) with e | ⟨⟩
  · exact .inl ⟨⟨e, rfl⟩, hprepare⟩
  refine .inr ⟨name, rfl, ?_⟩
  obtain ⟨hopen, hdb⟩ := openBranch_active hS.toRecovers env ws₀ name
  simp only
  rcases hopened : ws₀.openBranch env name with ⟨e | db, ws₁⟩
  all_goals rw [hopened] at hopen hdb
  · exact .inl ⟨⟨e, rfl⟩, (hprepare name).trans hopen⟩
  obtain ⟨hname, -, hsome⟩ := hdb db rfl
  have hactive : ws.Active name ws₁ := (hprepare name).trans hopen
  simp only
  rcases (runtime env.io : Except (CliError S E) Unit) with e | ⟨⟩
  · exact .inl ⟨⟨e, rfl⟩, hactive⟩
  obtain ⟨hupload, htoken⟩ := upload_active hS env ws₁ db dir (poolName out.canonicalRoot)
  rw [hname] at hupload
  simp only
  rcases huploaded : ws₁.upload env db dir (poolName out.canonicalRoot) with ⟨e | token, ws₂⟩
  all_goals rw [huploaded] at hupload htoken
  · exact .inl ⟨⟨e, rfl⟩, hactive.trans hupload⟩
  · obtain ⟨uploaded, hby⟩ := htoken token rfl
    exact .inr ⟨ws₀, ws₁, ws₂, db, dir, token, uploaded, hprepare, hopened, hby,
      hactive.trans hupload, hupload.beside.isSome hsome, rfl⟩

/-- Adopting what was fetched only adds to the shared store. -/
theorem adopt_active {out : Outside S E} (hout : out.Copies) (env : CliEnv S E) (ws : Workspace S)
    (uploaded : Uploaded S) (name : String) : ws.Active name (ws.adopt out env uploaded).2 := by
  unfold adopt
  cases env.io .adopt with
  | some source =>
    exact ⟨⟨rfl, env.copiedSome_grows _ _, fun _ _ => rfl, id⟩, rfl, rfl,
      fun h => ⟨h.nodup, h.mem_iff⟩⟩
  | none =>
    exact ⟨⟨rfl, hout.grows _ _, fun _ _ => rfl, id⟩, rfl, rfl, fun h => ⟨h.nodup, h.mem_iff⟩⟩

/-- A wake is over: the branch has a directory, and no record any more. -/
structure BroughtBack (branch : String) (ws ws' : Workspace S) : Prop where
  isSome : (ws'.pool.dbs branch).isSome
  pool_eq : ws'.pool = ws.pool
  dbs_eq : ws'.dbs = ws.dbs
  head_eq : ws'.head = ws.head
  asleep_eq : ws'.asleep = ws.asleep.erase (sleepRecordFile branch)

/-- The end of a wake: it stops with the branch worked on, or removes the record. -/
theorem bringBack_cases (hS : S.Laws) (env : CliEnv S E) (ws : Workspace S) (branch : String)
    (record : SleepRecord S) (manifest : S.ManifestId) (pages : ℕ) :
    (∃ e, (ws.bringBack env branch record manifest pages).1 = .error e) ∧
        ws.Active branch (ws.bringBack env branch record manifest pages).2 ∨
    ∃ ws₁, ws.Active branch ws₁ ∧
      BroughtBack branch ws₁ (ws.bringBack env branch record manifest pages).2 := by
  obtain ⟨hopen, hdb⟩ := openBranch_active hS.toRecovers env ws branch
  unfold bringBack
  rcases hopened : ws.openBranch env branch with ⟨e | db, ws₁⟩
  all_goals rw [hopened] at hopen hdb
  · exact .inl ⟨⟨e, rfl⟩, hopen⟩
  obtain ⟨rfl, hlocal, hsome⟩ := hdb db rfl
  obtain ⟨hbeside, -⟩ := Db.beside_restore env.restoring db ws₁.pool manifest
  have hsome' := restore_dbs_isSome env.restoring db ws₁.pool manifest
  simp only
  rcases hrestored : db.restore env.restoring ws₁.pool manifest with ⟨e | ⟨⟩, db', pool⟩
  all_goals
    rw [hrestored] at hbeside hsome'
    have hactive : ws.Active db.name { ws₁ with pool } := hopen.trans (active_pool hbeside hsome')
  · exact .inl ⟨⟨_, rfl⟩, hactive⟩
  · simp only [removeSleepRecord]
    cases env.io .removeRecord with
    | some source => exact .inl ⟨⟨_, rfl⟩, hactive⟩
    | none => exact .inr ⟨_, hactive, (hsome' db.name).symm ▸ hsome, rfl, rfl, rfl, rfl⟩

/-- What a wake can do: be refused or stopped before the branch is opened, or come to its end. -/
theorem wake_cases {out : Outside S E} (hout : out.Copies) (env : CliEnv S E) (ws : Workspace S)
    (branch : String) :
    (∃ e, (ws.wake out env branch).1 = .error e) ∧ (∀ n, ws.Active n (ws.wake out env branch).2) ∨
    ∃ record manifest pages ws₁, ws.wakeRecord env branch = .ok record ∧
      fetch out env branch (ws.stored record) = .ok manifest ∧
      (ws.touch [.temp]).adopt out env (ws.stored record) = (.ok pages, ws₁) ∧
      (∀ n, ws.Active n ws₁) ∧
      ws.wake out env branch = ws₁.bringBack env branch record manifest pages := by
  unfold wake
  rcases hrecord : ws.wakeRecord env branch with e | record
  · exact .inl ⟨⟨e, rfl⟩, fun n => .refl n ws⟩
  simp only
  rcases hfetch : fetch out env branch (ws.stored record) with e | manifest
  · exact .inl ⟨⟨e, rfl⟩, fun n => active_touch n ws _⟩
  have hactive (n : String) :
      ws.Active n ((ws.touch [.temp]).adopt out env (ws.stored record)).2 :=
    (active_touch n ws _).trans (adopt_active hout env _ _ n)
  simp only
  rcases hadopted : (ws.touch [.temp]).adopt out env (ws.stored record) with ⟨e | pages, ws₁⟩
  all_goals rw [hadopted] at hactive
  · exact .inl ⟨⟨e, rfl⟩, hactive⟩
  · exact .inr ⟨record, manifest, pages, ws₁, rfl, hfetch, hadopted, hactive, rfl⟩

/-- A listing that goes through. -/
theorem branches_ok {ws : Workspace S} {io : CliFaults} {names : List String}
    (h : (ws.branches io : Except (CliError S E) (List String)) = .ok names) :
    names = branchNames ws.dbs ws.asleep.keys := by
  unfold branches at h
  cases hdbs : io .listDbs with
  | some source => simp [hdbs] at h
  | none =>
    cases hasleep : io .listAsleep with
    | some source => simp [hdbs, hasleep] at h
    | none => simpa [hdbs, hasleep] using h.symm

/-- The branch that `HEAD` names. -/
theorem headBranch_ok {ws : Workspace S} {io : CliFaults} {name : String}
    (h : (ws.headBranch io : Except (CliError S E) String) = .ok name) : ws.head = some name := by
  unfold headBranch at h
  cases hhead : ws.head with
  | none => simp [hhead] at h
  | some n =>
    cases hread : io .readHead with
    | some source => simp [hhead, hread] at h
    | none => simpa [hhead, hread] using h

/-- A name that is known is listed. -/
theorem known_ok {env : CliEnv S E} {ws : Workspace S} {name : String}
    (h : (ws.known env name : Except (CliError S E) Unit) = .ok ()) :
    name ∈ branchNames ws.dbs ws.asleep.keys := by
  unfold known at h
  split at h
  · rcases hnames : (ws.branches env.io : Except (CliError S E) (List String)) with e | names
    · simp [hnames, bind, Except.bind] at h
    · simp only [hnames, bind, Except.bind] at h
      rw [← branches_ok hnames]
      by_contra hnot
      simp [hnot] at h
  · cases h

/-- A branch that a command resolves is the one that it was given, or that `HEAD` names. It is
listed in a pool that exists, and not asleep. -/
theorem resolve_ok {ws : Workspace S} {io : CliFaults} {explicit : Option String} {name : String}
    (h : (ws.resolve io explicit : Except (CliError S E) String) = .ok name) :
    (explicit = some name ∨ explicit = none ∧ ws.head = some name) ∧ ws.exists = true ∧
      name ∈ branchNames ws.dbs ws.asleep.keys ∧ ws.isAsleep name = false := by
  have hrest : ∀ n : String, (if ws.exists then do
        let known ← (ws.branches io : Except (CliError S E) (List String))
        if known.contains n then
          if ws.isAsleep n then .error (.branchAsleep n) else .ok n
        else .error (.unknownBranch n known)
      else .error (.noPool ws.pool.root)) = (.ok name : Except (CliError S E) String) →
      n = name ∧ ws.exists = true ∧ n ∈ branchNames ws.dbs ws.asleep.keys ∧
        ws.isAsleep n = false := by
    intro n hn
    split at hn
    · next hexists =>
      rcases hnames : (ws.branches io : Except (CliError S E) (List String)) with e | names
      · simp [hnames, bind, Except.bind] at hn
      · simp only [hnames, bind, Except.bind] at hn
        split at hn
        · next hmem =>
          split at hn
          · cases hn
          · next hawake =>
            exact ⟨Except.ok.inj hn, hexists, branches_ok hnames ▸ List.contains_iff_mem.mp hmem,
              by simpa using hawake⟩
        · cases hn
    · cases hn
  unfold resolve at h
  cases explicit with
  | some n =>
    obtain ⟨rfl, hlisted⟩ := hrest n h
    exact ⟨.inl rfl, hlisted⟩
  | none =>
    rcases hhead : (ws.headBranch io : Except (CliError S E) String) with e | n
    · simp [hhead, bind, Except.bind] at h
    · simp only [hhead, bind, Except.bind] at h
      obtain ⟨rfl, hlisted⟩ := hrest n h
      exact ⟨.inr ⟨rfl, headBranch_ok hhead⟩, hlisted⟩

/-- A branch that is listed and not asleep resolves. -/
theorem resolve_of_listed {ws : Workspace S} {name : String} (hexists : ws.exists = true)
    (hlisted : name ∈ branchNames ws.dbs ws.asleep.keys) (hawake : ws.isAsleep name = false) :
    (ws.resolve .none (some name) : Except (CliError S E) String) = .ok name := by
  have hnames : (ws.branches .none : Except (CliError S E) (List String)) =
      .ok (branchNames ws.dbs ws.asleep.keys) := rfl
  simp [resolve, hexists, hnames, bind, Except.bind, hlisted, hawake]

/-- The record of a branch that is asleep. -/
theorem wakeRecord_ok {env : CliEnv S E} {ws : Workspace S} {branch : String}
    {record : SleepRecord S} (h : ws.wakeRecord env branch = .ok record) :
    (ws.known env branch : Except (CliError S E) Unit) = .ok () ∧
      ws.asleep.lookup (sleepRecordFile branch) = some (.whole record) := by
  unfold wakeRecord at h
  rcases hknown : (ws.known env branch : Except (CliError S E) Unit) with e | ⟨⟩
  · simp [hknown, bind, Except.bind] at h
  · simp only [hknown, bind, Except.bind] at h
    refine ⟨rfl, ?_⟩
    split at h
    · rcases hread : (ws.readSleepRecord env.io branch : Except (CliError S E) (SleepRecord S)) with
        e | record'
      · simp [hread] at h
      · simp only [hread] at h
        rcases htier : (remoteTier env.io record'.tier : Except (CliError S E) Unit) with e | ⟨⟩
        · simp [htier] at h
        · simp only [htier] at h
          obtain rfl := Except.ok.inj h
          unfold readSleepRecord at hread
          cases hfault : env.io .readRecord with
          | some source => simp [hfault] at hread
          | none =>
            rcases hfile : ws.asleep.lookup (sleepRecordFile branch) with _ | record'' | _
            · simp [hfault, hfile] at hread
            · simpa [hfault, hfile] using hread
            · simp [hfault, hfile] at hread
    · cases h

/-- The branch that an import works on is the one that it was given, or that `HEAD` names, or
the default of a fresh pool. -/
theorem importBranch_ok {env : CliEnv S E} {ws : Workspace S} {branch : Option String}
    {name : String} (h : ws.importBranch env branch = .ok name) :
    branch = some name ∨
      branch = none ∧ (ws.head = some name ∨ ws.head = none ∧ name = "main") := by
  unfold importBranch at h
  cases branch with
  | some n => exact .inl (congrArg some (Except.ok.inj h))
  | none =>
    cases hexists : ws.exists with
    | true =>
      simp only [hexists, if_true] at h
      exact .inr ⟨rfl, .inl (headBranch_ok h)⟩
    | false =>
      simp only [hexists, Bool.false_eq_true, if_false] at h
      exact .inr ⟨rfl, .inr ⟨by simpa [«exists»] using hexists, (Except.ok.inj h).symm⟩⟩

/-- The branch of a planned import is the one that it goes to, and is not asleep. -/
theorem importPlan_ok {env : CliEnv S E} {ws : Workspace S} {branch : Option String}
    {file : ImportFile} {table : Option String} {name reader table' : String}
    (h : ws.importPlan env branch file table = .ok (name, reader, table')) :
    ws.importBranch env branch = .ok name ∧ ws.isAsleep name = false := by
  unfold importPlan at h
  rcases hbranch : ws.importBranch env branch with e | n
  · simp [hbranch] at h
  · simp only [hbranch] at h
    cases hasleep : ws.isAsleep n with
    | true => simp [hasleep] at h
    | false =>
      simp only [hasleep, Bool.false_eq_true, if_false] at h
      cases hfile : file.isFile with
      | false => simp [hfile] at h
      | true =>
        simp only [hfile, if_true] at h
        rcases htable : (importTable file table : Except (CliError S E) (String × String)) with
          e | ⟨reader', table''⟩
        · simp [htable] at h
        · simp only [htable, Except.ok.injEq, Prod.mk.injEq] at h
          obtain ⟨rfl, -⟩ := h
          exact ⟨rfl, hasleep⟩

end Workspace

end FlockDb
