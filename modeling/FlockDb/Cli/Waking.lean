import FlockDb.Cli.Steps
import FlockDb.Core.Reopen

/-!
# A wake that nothing stops

Once the head of a branch was fetched and copied into the pool, the rest of a wake goes through
unless one of its own calls fails: the branch is opened, as far as its directory goes, moved to
the head and its record removed.
-/

namespace FlockDb

variable {S : Substrate} {E : Engine}

/-- What the commands rely on of the cache of a wake: once the head is hydrated, it has the
manifests that the head resolves through and the pages that were read. -/
structure Outside.Caches (out : Outside S E) : Prop where
  resolve : ∀ {uploaded pages},
    S.resolve (out.wakeCas uploaded) uploaded.token.manifest = .ok pages →
      S.resolve (out.cached uploaded) uploaded.token.manifest = .ok pages
  manifest : ∀ {uploaded pages},
    S.resolve (out.wakeCas uploaded) uploaded.token.manifest = .ok pages →
      ∃ edges, S.manifest (out.cached uploaded) uploaded.token.manifest = .ok edges
  read : ∀ {uploaded p bytes},
    S.read (out.wakeCas uploaded) uploaded.token.manifest p = .ok bytes →
      S.read (out.cached uploaded) uploaded.token.manifest p = .ok bytes

/-- What the commands rely on for a database that has nothing yet: there is an empty root, any
store resolves it, and DuckDB makes a new file. -/
structure NewDatabase (S : Substrate) (E : Engine) (pageSize : ℕ) : Prop where
  root : ∃ root, S.emptyRoot pageSize = .ok root
  resolve : ∀ {root}, S.emptyRoot pageSize = .ok root → ∀ cas,
    S.resolve cas root = .ok (S.pageMap root)
  connects : ∃ conn, E.openWithFlags none E.defaultConfig = .ok conn

/-- The head of a database that has nothing yet opens. -/
theorem NewDatabase.headOpens (hS : S.ContentAddressed) {pageSize : ℕ}
    (h : NewDatabase S E pageSize) {root : S.ManifestId} (hroot : S.emptyRoot pageSize = .ok root)
    (cas : S.Cas) : ∃ conn : E.Connection, HeadOpens cas pageSize root conn := by
  obtain ⟨conn, hconn⟩ := h.connects
  have hempty : (S.pageMap root).keys = [] := by
    rw [hS.pageMap_emptyRoot hroot]
    rfl
  exact ⟨conn, S.pageMap root, [], "", E.defaultConfig, h.resolve hroot cas, by rw [hempty]; rfl,
    rfl, hconn⟩

/-- A branch without a directory would open at the empty root. -/
theorem NewDatabase.headOpens_of_free (hS : S.Laws) {pool : Pool S}
    (h : NewDatabase S E pool.pageSize) {name : String} (hfree : pool.dbs name = none) :
    ∃ conn : E.Connection, HeadOpens pool.cas pool.pageSize (pool.recoveredHead name) conn := by
  obtain ⟨root, hroot⟩ := h.root
  have hrecovered : pool.recoveredHead name = root := by
    rw [Pool.recoveredHead, Pool.wal, hfree]
    exact hS.recovered_freshWal hroot
  rw [hrecovered]
  exact h.headOpens hS.toContentAddressed hroot pool.cas

namespace Workspace

/-- Every call goes through from the opening of the branch to the end of a wake. -/
structure EndsClear (env : CliEnv S E) : Prop where
  opening : env.opening.Clear
  restoring : env.restoring.Clear
  removeRecord : env.io .removeRecord = none

/-- Opening a branch whose head opens. -/
theorem openBranch_of_headOpens (hS : S.Laws) {env : CliEnv S E} (henv : env.opening.Clear)
    {ws : Workspace S} {name : String} (hvalid : validateName (S := S) (E := E) name = .ok ())
    (hroot : ∃ root, S.emptyRoot ws.pool.pageSize = .ok root) {conn : E.Connection}
    (hopens : HeadOpens ws.pool.cas ws.pool.pageSize (ws.pool.recoveredHead name) conn) :
    ∃ kernel : DuckDbKernel E, (ws.openBranch env name).1 =
      .ok ⟨name, .local (ws.pool.recoveredHead name), kernel, ⟨none, none⟩⟩ ∧
        kernel.conn = conn := by
  obtain ⟨kernel, hok, hconn⟩ := openWith_of_headOpens hS henv hvalid hroot hopens
  refine ⟨kernel, ?_, hconn⟩
  unfold openBranch
  rcases hresult : Flock.openWith env.opening ws.pool name ⟨none, none⟩ with ⟨e | db, pool⟩
  all_goals rw [hresult] at hok
  · cases hok
  · exact congrArg Except.ok (Except.ok.inj hok)

/-- **The end of a wake goes through** if the branch as it is opens, the pool knows and opens
the manifest that the token names, and no call fails. -/
theorem bringBack_of_headOpens (hS : S.Laws) (hP : S.Positions) {env : CliEnv S E}
    (henv : EndsClear env) {ws : Workspace S} {branch : String}
    (hvalid : validateName (S := S) (E := E) branch = .ok ())
    (hroot : ∃ root, S.emptyRoot ws.pool.pageSize = .ok root) {conn conn' : E.Connection}
    (hopens : HeadOpens ws.pool.cas ws.pool.pageSize (ws.pool.recoveredHead branch) conn)
    {manifest : S.ManifestId} (hopens' : HeadOpens ws.pool.cas ws.pool.pageSize manifest conn')
    (hknown : ∃ edges, S.manifest ws.pool.cas manifest = .ok edges) (record : SleepRecord S)
    (pages : ℕ) :
    (∃ lines, (ws.bringBack env branch record manifest pages).1 = .ok lines) ∧
      (ws.bringBack env branch record manifest pages).2.pool.recoveredHead branch = manifest ∧
      ∃ ws₁, ws.Active branch ws₁ ∧
        BroughtBack branch ws₁ (ws.bringBack env branch record manifest pages).2 := by
  obtain ⟨kernel, hok, -⟩ := openBranch_of_headOpens hS henv.opening hvalid hroot hopens
  obtain ⟨hactive, hdb⟩ := openBranch_active hS.toRecovers env ws branch
  unfold bringBack
  rcases hopened : ws.openBranch env branch with ⟨e | db, ws₁⟩
  all_goals rw [hopened] at hok hactive hdb
  · cases hok
  obtain rfl := Except.ok.inj hok
  obtain ⟨-, -, hsome⟩ := hdb _ rfl
  obtain ⟨edges, hmanifest⟩ := hknown
  have hgrown : HeadOpens ws₁.pool.cas ws₁.pool.pageSize manifest conn' :=
    hactive.beside.pageSize_eq.symm ▸ hopens'.grows hS.toContentAddressed hactive.beside.grows
  let db : Db S E := ⟨branch, .local (ws.pool.recoveredHead branch), kernel, ⟨none, none⟩⟩
  obtain ⟨hrestore, hhead⟩ := restore_of_headOpens hS hP henv.restoring db rfl rfl hsome
    hgrown ⟨edges, hactive.beside.grows.manifest hmanifest⟩
  obtain ⟨hbeside, -⟩ := Db.beside_restore env.restoring db ws₁.pool manifest
  have hsome' := restore_dbs_isSome env.restoring db ws₁.pool manifest
  simp only
  rcases hrestored : db.restore env.restoring ws₁.pool manifest with ⟨e | ⟨⟩, db', pool⟩
  all_goals rw [hrestored] at hrestore hhead hbeside hsome'
  · cases hrestore
  · simp only [removeSleepRecord, henv.removeRecord]
    refine ⟨⟨_, rfl⟩, hhead, { ws₁ with pool }, hactive.trans (active_pool hbeside hsome'), ?_⟩
    exact ⟨(hsome' branch).symm ▸ hsome, rfl, rfl, rfl, rfl⟩

/-- A head that was fetched came from a store that opens it, under a valid name. -/
theorem fetch_ok {out : Outside S E} {env : CliEnv S E} {branch : String} {uploaded : Uploaded S}
    {manifest : S.ManifestId} (h : fetch out env branch uploaded = .ok manifest) :
    manifest = uploaded.token.manifest ∧ validateName (S := S) (E := E) branch = .ok () ∧
      ∃ conn : E.Connection, HeadOpens (out.wakeCas uploaded) uploaded.token.pageSize manifest
        conn := by
  unfold fetch at h
  rcases hcache : (createCache env.io : Except (CliError S E) Unit) with e | ⟨⟩
  · simp [hcache, bind, Except.bind] at h
  rcases hruntime : (runtime env.io : Except (CliError S E) Unit) with e | ⟨⟩
  · simp [hcache, hruntime, bind, Except.bind] at h
  simp only [hcache, hruntime, bind, Except.bind] at h
  rcases hwake : Flock.wakeWith out.wakeCas env.hydrating env.waking env.cacheRoot branch uploaded
      ⟨none, none⟩ with e | db
  · simp [hwake] at h
  · simp only [hwake] at h
    have hstore := Db.store_of_wakeWith hwake
    obtain ⟨hopens, hvalid⟩ := headOpens_of_wakeWith hwake
    obtain rfl : uploaded.token.manifest = manifest := by
      rw [← Except.ok.inj h, Db.head, hstore]
      rfl
    exact ⟨rfl, hvalid, _, hopens⟩

/-- What was fetched opens in the pool that it was copied into. -/
theorem adopt_ok (hS : S.Laws) {out : Outside S E} (hcopies : out.Copies) (hcaches : out.Caches)
    {env : CliEnv S E} {ws ws' : Workspace S} {uploaded : Uploaded S} {pages : ℕ}
    (h : ws.adopt out env uploaded = (.ok pages, ws')) {conn : E.Connection} {pageSize : ℕ}
    (hopens : HeadOpens (out.wakeCas uploaded) pageSize uploaded.token.manifest conn) :
    HeadOpens ws'.pool.cas pageSize uploaded.token.manifest conn ∧
      ∃ edges, S.manifest ws'.pool.cas uploaded.token.manifest = .ok edges := by
  unfold adopt at h
  cases hfault : env.io .adopt with
  | some source => simp [hfault] at h
  | none =>
    simp only [hfault, Prod.mk.injEq] at h
    obtain ⟨-, rfl⟩ := h
    have hadds := hcopies.adds ws.pool.cas (out.cached uploaded)
    obtain ⟨found, hresolve⟩ := hopens.resolve
    obtain ⟨edges, hmanifest⟩ := hcaches.manifest hresolve
    have hcached : HeadOpens (out.cached uploaded) pageSize uploaded.token.manifest conn :=
      hopens.of_reads (fun _ => hcaches.resolve) fun _ _ => hcaches.read
    exact ⟨hcached.grows hS.toContentAddressed hadds, edges, hadds.manifest hmanifest⟩

end Workspace

end FlockDb
