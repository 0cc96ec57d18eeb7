import FlockDb.Cli.Kept
import FlockDb.Cli.SharedTier

/-!
# The ledger

What the command line is for is a ledger: a map from the names of branches to their contents. A
statement writes the entry of its branch, a fork copies the entry of its parent, and no other
command changes an entry. Pools that share their tiers keep their ledgers, whichever call of
whichever command fails.
-/

namespace FlockDb

variable {S : Substrate} {E : Engine}

/-- The content of each branch that has one. -/
abbrev BranchLedger (E : Engine) := String → Option E.Content

/-- What a command enters: a content that was written, or that of a parent. -/
inductive Posting (E : Engine) where
  | written (name : String) (content : E.Content)
  | forked (parent name : String)

/-- The ledger after a command. -/
def BranchLedger.enter (ledger : BranchLedger E) : Option (Posting E) → BranchLedger E
  | none => ledger
  | some (.written name content) => Function.update ledger name (some content)
  | some (.forked parent name) => Function.update ledger name (ledger parent)

namespace Workspace

/-- The entry of a statement, which is made by its commit. -/
def sqlEntry (env : CliEnv S E) (ws : Workspace S) (branch : Option String) (query : String) :
    Option (Posting E) :=
  match (ws.resolve env.io branch : Except (CliError S E) String) with
  | .error _ => none
  | .ok name =>
    match ws.openBranch env name with
    | (.error _, _) => none
    | (.ok db, ws) =>
      match db.query query with
      | (.error _, _) => none
      | (.ok _, db) =>
        match ws.commit env db with
        | (.error _, _) => none
        | (.ok (), _) => some (.written name (E.content db.kernel.conn))

/-- The entry of an import, which is made by its commit, in a fresh pool once `HEAD` is there. -/
def importEntry (out : Outside S E) (env : CliEnv S E) (ws : Workspace S) (branch : Option String)
    (file : ImportFile) (table : Option String) : Option (Posting E) :=
  match ws.importPlan env branch file table with
  | .error _ => none
  | .ok (branch, reader, table) =>
    match ws.openBranch env branch with
    | (.error _, _) => none
    | (.ok db, ws') =>
      match importRows out db branch reader file.path table with
      | (.error _, _) => none
      | (.ok _, db) =>
        match ws'.commit env db with
        | (.error _, _) => none
        | (.ok (), ws') =>
          if ws.exists then some (.written branch (E.content db.kernel.conn))
          else
            match (ws'.setHead env.io branch : Except (CliError S E) Unit × Workspace S) with
            | (.error _, _) => none
            | (.ok (), _) => some (.written branch (E.content db.kernel.conn))

/-- The entry of a fork, which is made when the new branch is there, checked out or not. -/
def forkEntry (env : CliEnv S E) (ws : Workspace S) (source : Option String) (name : String) :
    Option (Posting E) :=
  match (ws.resolve env.io source : Except (CliError S E) String) with
  | .error _ => none
  | .ok parent =>
    match ws.openBranch env parent with
    | (.error _, _) => none
    | (.ok db, ws) =>
      match db.fork env.working env.forking ws.pool name with
      | (.error _, _, _) => none
      | (.ok _, _, _) => some (.forked parent name)

/-- The entry of a command. -/
def entry (out : Outside S E) (ws : Workspace S) (cli : Invocation S E) : Option (Posting E) :=
  match cli.command with
  | .import file table => ws.importEntry out cli.env cli.branch file table
  | .sql query => ws.sqlEntry cli.env cli.branch query
  | .branch name _ => ws.forkEntry cli.env cli.branch name
  | _ => none

/-- An orderly command: a new branch is not named as one that is asleep, and a sleep neither dies
in the write of its record nor leaves more of a log than there was. -/
def Orderly (records : S.Wal → S.ManifestId → Prop) (ws : Workspace S) (cli : Invocation S E) :
    Prop :=
  match cli.command with
  | .branch name _ => ws.isAsleep name = false
  | .sleep _ => LeavesPart records cli.env.leftover ∧ cli.env.io .writeRecord = none
  | _ => True

/-- What a step does to the ledger that a workspace keeps. -/
def Enters (out : Outside S E) (records : S.Wal → S.ManifestId → Prop) (pageSize : ℕ)
    (ws ws' : Workspace S) : Option (Posting E) → Prop
  | none => ws.Spares out records pageSize none ws'
  | some (.written name content) =>
    ws.Spares out records pageSize (some name) ws' ∧ ws'.Kept out name content
  | some (.forked parent name) =>
    ws.Spares out records pageSize none ws' ∧
      ∀ content, ws.Kept out parent content → ws'.Kept out name content

variable {out : Outside S E} {records : S.Wal → S.ManifestId → Prop} {pageSize : ℕ}

/-- A step leaves the workspace in order and stores beside what was in the tiers. -/
theorem Enters.spares {ws ws' : Workspace S} {entered : Option (Posting E)}
    (h : Enters out records pageSize ws ws' entered) :
    ∃ but, ws.Spares out records pageSize but ws' := by
  rcases entered with _ | ⟨name, content⟩ | ⟨parent, name⟩
  · exact ⟨none, h⟩
  · exact ⟨some name, h.1⟩
  · exact ⟨none, h.1⟩

/-- A ledger that was kept is kept with what a step entered. -/
theorem Enters.kept {ws ws' : Workspace S} {entered : Option (Posting E)}
    (h : Enters out records pageSize ws ws' entered) {ledger : BranchLedger E}
    (hledger : ∀ n content, ledger n = some content → ws.Kept out n content) (n : String)
    (content : E.Content) (hn : ledger.enter entered n = some content) :
    ws'.Kept out n content := by
  rcases entered with _ | ⟨name, written⟩ | ⟨parent, name⟩
  · have hspares : ws.Spares out records pageSize none ws' := h
    exact hspares.keeps (hledger n content hn)
  · obtain ⟨hspares, hkept⟩ := h
    by_cases hname : n = name
    · subst hname
      rw [BranchLedger.enter, Function.update_self] at hn
      exact Option.some.inj hn ▸ hkept
    · rw [BranchLedger.enter, Function.update_of_ne hname] at hn
      exact hspares.kept (fun hsome => hname (Option.some.inj hsome)) (hledger n content hn)
  · obtain ⟨hspares, hforked⟩ := h
    by_cases hname : n = name
    · subst hname
      rw [BranchLedger.enter, Function.update_self] at hn
      exact hforked content (hledger parent content hn)
    · rw [BranchLedger.enter, Function.update_of_ne hname] at hn
      exact hspares.keeps (hledger n content hn)

/-- A statement enters what it commits. -/
theorem sql_enters (hout : out.Reliable records) (hpos : 0 < pageSize) {ws : Workspace S}
    (h : ws.Sound E records pageSize) (env : CliEnv S E) (branch : Option String)
    (query : String) :
    Enters out records pageSize ws (ws.sql out env branch query).2
      (ws.sqlEntry env branch query) := by
  unfold sql sqlEntry
  rcases hresolve : (ws.resolve env.io branch : Except (CliError S E) String) with e | name
  · exact .refl h
  obtain ⟨-, hexists, -, hawake⟩ := resolve_ok hresolve
  obtain ⟨hspares, hopen⟩ := spares_openBranch hout h env name
  obtain ⟨hactive, -⟩ := openBranch_active hout.substrate.toRecovers env ws name
  have hvalid : ∀ db : Db S E, (ws.openBranch env name).1 = .ok db →
      validateName (S := S) (E := E) name = .ok () := fun db => accepted_of_openBranch
  simp only
  rcases hopened : ws.openBranch env name with ⟨e | db, ws₁⟩
  all_goals rw [hopened] at hspares hopen hactive hvalid
  · exact hspares
  obtain ⟨rfl, hholds, hstands⟩ := hopen db rfl
  obtain ⟨hname, hstored⟩ := World.query_kept db query
  simp only
  rcases hrows : db.query query with ⟨e | rows, db₁⟩
  all_goals rw [hrows] at hname hstored
  · exact hspares
  rw [← hname] at hstands hactive hvalid hawake ⊢
  have hholds₁ : ws₁.pool.Holds db₁ :=
    ⟨hname ▸ hholds.isSome, hstored.trans (hname ▸ hholds.store_eq)⟩
  have hcommit := commit_active hout.substrate env ws₁ db₁
  have hcommitted := spares_commit hout hpos hspares.sound hholds₁ hstands env
  simp only
  rcases hresult : ws₁.commit env db₁ with ⟨e | ⟨⟩, ws₂⟩
  all_goals rw [hresult] at hcommit hcommitted
  · rcases hcommitted with ⟨-, hspared⟩ | ⟨hok, -⟩
    · exact hspares.trans hspared
    · cases hok
  · rcases hcommitted with ⟨⟨e, herror⟩, -⟩ | ⟨-, hspared, hwritten⟩
    · cases herror
    have hentered : Enters out records pageSize ws ws₂
        (some (.written db₁.name (E.content db₁.kernel.conn))) := by
      have hactive₂ := hactive.trans hcommit
      refine ⟨(hspares.weaken _).trans hspared, exists_of_head_eq hactive₂.head_eq hexists,
        hvalid db rfl, .inl ⟨?_, hcommit.beside.isSome hholds₁.isSome, hwritten⟩⟩
      rw [isAsleep, hactive₂.asleep_eq]
      exact hawake
    simp only
    cases out.table rows with
    | error source => exact hentered
    | ok text => exact hentered

/-- An import enters what it commits, if the pool is there then. -/
theorem import_enters (hout : out.Reliable records) (hpos : 0 < pageSize) {ws : Workspace S}
    (h : ws.Sound E records pageSize) (env : CliEnv S E) (branch : Option String)
    (file : ImportFile) (table : Option String) :
    Enters out records pageSize ws (ws.import out env branch file table).2
      (ws.importEntry out env branch file table) := by
  unfold «import» importEntry
  rcases hplan : ws.importPlan env branch file table with e | ⟨name, reader, table'⟩
  · exact .refl h
  obtain ⟨-, hawake⟩ := importPlan_ok hplan
  obtain ⟨hspares, hopen⟩ := spares_openBranch hout h env name
  obtain ⟨hactive, -⟩ := openBranch_active hout.substrate.toRecovers env ws name
  have hvalid : ∀ db : Db S E, (ws.openBranch env name).1 = .ok db →
      validateName (S := S) (E := E) name = .ok () := fun db => accepted_of_openBranch
  simp only
  rcases hopened : ws.openBranch env name with ⟨e | db, ws₁⟩
  all_goals rw [hopened] at hspares hopen hactive hvalid
  · exact hspares
  obtain ⟨rfl, hholds, hstands⟩ := hopen db rfl
  obtain ⟨hname, hstored⟩ := importRows_kept out db db.name reader file.path table'
  simp only
  rcases hrows : importRows out db db.name reader file.path table' with ⟨e | rows, db₁⟩
  all_goals rw [hrows] at hname hstored
  · exact hspares
  rw [← hname] at hstands hactive hvalid hawake ⊢
  have hholds₁ : ws₁.pool.Holds db₁ :=
    ⟨hname ▸ hholds.isSome, hstored.trans (hname ▸ hholds.store_eq)⟩
  have hcommit := commit_active hout.substrate env ws₁ db₁
  have hcommitted := spares_commit hout hpos hspares.sound hholds₁ hstands env
  simp only
  rcases hresult : ws₁.commit env db₁ with ⟨e | ⟨⟩, ws₂⟩
  all_goals rw [hresult] at hcommit hcommitted
  · rcases hcommitted with ⟨-, hspared⟩ | ⟨hok, -⟩
    · exact hspares.trans hspared
    · cases hok
  rcases hcommitted with ⟨⟨e, herror⟩, -⟩ | ⟨-, hspared, hwritten⟩
  · cases herror
  have hactive₂ := hactive.trans hcommit
  have hspared₂ := (hspares.weaken (some db₁.name)).trans hspared
  have hkept (ws₃ : Workspace S) (hpool : ws₃.pool = ws₂.pool) (hasleep : ws₃.asleep = ws₂.asleep)
      (hexists : ws₃.exists = true) :
      ws₃.Kept out db₁.name (E.content db₁.kernel.conn) := by
    refine ⟨hexists, hvalid db rfl, .inl ⟨?_, ?_, hpool ▸ hwritten⟩⟩
    · rw [isAsleep, hasleep, hactive₂.asleep_eq]
      exact hawake
    · exact hpool ▸ hcommit.beside.isSome hholds₁.isSome
  simp only
  cases hexists : ws.exists with
  | true => exact ⟨hspared₂, hkept ws₂ rfl rfl (exists_of_head_eq hactive₂.head_eq hexists)⟩
  | false =>
    simp only [Bool.false_eq_true, if_false]
    -- Nothing is kept in a pool that is not there yet.
    have hfresh : ws.Spares out records pageSize none ws₂ := by
      refine ⟨hspared₂.sound, fun _ hkept => ?_, hspared₂.grow⟩
      have hthere := hkept.exists
      rw [hexists] at hthere
      cases hthere
    have hset := spares_setHead hout hspared₂.sound env.io db₁.name
    have hcases := setHead_cases (E := E) ws₂ env.io db₁.name
    rcases hmoving : (ws₂.setHead env.io db₁.name : Except (CliError S E) Unit × Workspace S) with
      ⟨e | ⟨⟩, ws₃⟩
    all_goals rw [hmoving] at hset hcases
    · exact hfresh.trans hset
    · rcases hcases with ⟨e, herror, -⟩ | ⟨-, hmoved⟩
      · cases herror
      · refine ⟨(hfresh.trans hset).weaken _, hkept ws₃ hmoved.pool_eq hmoved.asleep_eq ?_⟩
        rw [Workspace.exists, hmoved.head_eq]
        rfl

/-- A fork that is refused, or whose snapshot fails, spares every branch. -/
theorem spares_unforked (hout : out.Reliable records) {ws : Workspace S}
    (h : ws.Sound E records pageSize) (name : String) :
    ws.Spares out records pageSize none (ws.opened (E := E) name ws.pool) := by
  refine spares_of_aside hout h (fun n => ⟨.refl _ _, rfl, rfl, fun hlisted => ?_⟩) (.refl _)
  exact listed_opened hlisted (fun _ _ => rfl) id

/-- A fork enters the content of its parent for the new branch, unless one that is asleep has its
name. -/
theorem fork_enters (hout : out.Reliable records) (hpos : 0 < pageSize) {ws : Workspace S}
    (h : ws.Sound E records pageSize) (env : CliEnv S E) (source : Option String) {name : String}
    (hname : ws.isAsleep name = false) (noCheckout : Bool) :
    Enters out records pageSize ws (ws.fork env source name noCheckout).2
      (ws.forkEntry env source name) := by
  have hS := hout.substrate
  unfold fork forkEntry
  rcases hresolve : (ws.resolve env.io source : Except (CliError S E) String) with e | parent
  · exact .refl h
  obtain ⟨-, hexists, -, hawake⟩ := resolve_ok hresolve
  obtain ⟨hspares, hopen⟩ := spares_openBranch hout h env parent
  obtain ⟨hactive, -⟩ := openBranch_active hS.toRecovers env ws parent
  simp only
  rcases hopened : ws.openBranch env parent with ⟨e | db, ws₀⟩
  all_goals rw [hopened] at hspares hopen hactive
  · exact hspares
  obtain ⟨rfl, hholds, hstands⟩ := hopen db rfl
  have hpos₀ : 0 < ws₀.pool.pageSize := hspares.sound.pageSize_eq.symm ▸ hpos
  obtain ⟨hrecorded, htaken, hrefused⟩ := Pool.stands_snapshot hS hout.engine hout.reopens
    hout.logs hpos₀ hholds hstands (hspares.sound.recorded db.name) env.working
  obtain ⟨hbeside, -⟩ := Db.beside_snapshot hS env.working db ws₀.pool
  have hsome := snapshot_dbs_isSome env.working db ws₀.pool
  -- The snapshot spares the parent, whose content is that of the handle.
  have hsnapshotted (pool' : Pool S) (hpool : (db.snapshot env.working ws₀.pool).2.2 = pool')
      (hstands' : pool'.Stands (E := E) db.name (E.content db.kernel.conn)) :
      ws.Spares out records pageSize none { ws₀ with pool := pool' } := by
    subst hpool
    refine hspares.trans (spares_of_active hout hspares.sound (active_pool hbeside hsome) (.refl _)
      hrecorded ?_)
    intro _ content _ _ hold
    exact hstands.unique hold ▸ hstands'
  simp only
  rcases Db.fork_cases env.working env.forking db ws₀.pool name with
    ⟨-, e, hfork⟩ | ⟨hvalid, hfree, ⟨e, db', pool', hsnapshot, hfork⟩ |
      ⟨m, db', pool', hsnapshot, hfork⟩⟩
  · rw [hfork]
    exact hspares.trans (spares_unforked hout hspares.sound name)
  · rw [hfork]
    rw [hsnapshot] at hrefused
    have hstopped := hsnapshotted pool' (by rw [hsnapshot]) (hrefused e rfl)
    exact hstopped.trans (spares_unforked hout hstopped.sound name)
  rw [hfork]
  rw [hsnapshot] at htaken hbeside hsome
  obtain ⟨hstands', hhead⟩ := htaken m rfl
  have hparent := hsnapshotted pool' (by rw [hsnapshot]) hstands'
  obtain ⟨conn, hopens, hcontent⟩ := hstands'
  rw [hhead] at hopens
  have hfree' : pool'.dbs name = none := by
    rw [← Option.not_isSome_iff_eq_none, hsome name, hfree]
    simp
  obtain ⟨hspared, hmade⟩ := @spares_forkFrom S E out records pageSize name hout
    { ws₀ with pool := pool' } hparent.sound hfree' m conn hopens env db'
  rcases hforked : Db.forkFrom env.forking db' pool' name m with ⟨e | child, pool''⟩
  all_goals
    simp only [hforked] at hspared hmade
    have hforking : ws.Spares out records pageSize none (ws₀.opened (E := E) name pool'') :=
      hparent.trans hspared
  · exact hforking
  obtain ⟨hchild, hforkStands⟩ := hmade child rfl
  have hkept (content : E.Content) (hold : ws.Kept out db.name content) :
      (ws₀.opened (E := E) name pool'').Kept out name content := by
    have hsame : E.content conn = content := by
      rcases (hspares.keeps hold).has with ⟨-, -, hstanding⟩ | ⟨record, hrecord, -⟩
      · exact hcontent.trans (hstands.unique hstanding)
      · rw [isAsleep, ← hactive.asleep_eq, hrecord] at hawake
        cases hawake
    refine ⟨exists_of_head_eq hactive.head_eq hexists, hvalid, .inl ⟨?_, hchild, hsame ▸ ?_⟩⟩
    · rw [isAsleep] at hname ⊢
      exact hactive.asleep_eq ▸ hname
    · exact hforkStands
  simp only
  cases noCheckout with
  | true => exact ⟨hforking, hkept⟩
  | false =>
    simp only [Bool.false_eq_true, if_false]
    have hset := spares_setHead hout hforking.sound env.io name
    have hentered : Enters out records pageSize ws
        ((ws₀.opened (E := E) name pool'').setHead env.io name :
          Except (CliError S E) Unit × Workspace S).2 (some (.forked db.name name)) :=
      ⟨hforking.trans hset, fun content hold => hset.keeps (hkept content hold)⟩
    rcases hmoving : ((ws₀.opened (E := E) name pool'').setHead env.io name :
      Except (CliError S E) Unit × Workspace S) with ⟨e | ⟨⟩, ws₃⟩
    all_goals
      rw [hmoving] at hentered
      exact hentered

/-- A checkout spares every branch. -/
theorem spares_checkout (hout : out.Reliable records) {ws : Workspace S}
    (h : ws.Sound E records pageSize) (env : CliEnv S E) (name : String) :
    ws.Spares out records pageSize none (ws.checkout env name).2 := by
  unfold checkout
  rcases (ws.known env name : Except (CliError S E) Unit) with e | ⟨⟩
  · exact .refl h
  have hset := spares_setHead hout h env.io name
  simp only
  rcases hmoving : (ws.setHead env.io name : Except (CliError S E) Unit × Workspace S) with
    ⟨e | ⟨⟩, ws'⟩
  all_goals
    rw [hmoving] at hset
    exact hset

/-- A sleep spares every branch, whichever call of it fails, as far as it is orderly. -/
theorem spares_sleep (hout : out.Reliable records) (hpos : 0 < pageSize) {ws : Workspace S}
    (h : ws.Sound E records pageSize) {env : CliEnv S E} (branch tier : Option String)
    (hleft : LeavesPart records env.leftover) (hwrite : env.io .writeRecord = none) :
    ws.Spares out records pageSize none (ws.sleep out env branch tier).2 := by
  have hS := hout.substrate
  unfold sleep
  rcases hresolve : (ws.resolve env.io branch : Except (CliError S E) String) with e | name
  · exact .refl h
  have hprepare := prepareTierDir_active out env.io ws (tier.getD (ws.pool.root ++ "/cold"))
  have htiers : (ws.prepareTierDir out env.io (tier.getD (ws.pool.root ++ "/cold")) :
      Except (CliError S E) String × Workspace S).2.tiers = ws.tiers := by
    unfold prepareTierDir
    split
    · rfl
    · cases env.io .createTier with
      | some source => rfl
      | none => cases env.io .resolveTier <;> rfl
  simp only
  rcases hprepared : (ws.prepareTierDir out env.io (tier.getD (ws.pool.root ++ "/cold")) :
    Except (CliError S E) String × Workspace S) with ⟨e | dir, ws₀⟩
  all_goals
    rw [hprepared] at hprepare htiers
    have htiers₀ : ws₀.tiers = ws.tiers := htiers
    have hspares₀ : ws.Spares out records pageSize none ws₀ :=
      spares_of_aside hout h hprepare (htiers₀ ▸ .refl _)
  · exact hspares₀
  simp only
  rcases (remoteTier env.io dir : Except (CliError S E) Unit) with e | ⟨⟩
  · exact hspares₀
  obtain ⟨hspared, hopen⟩ := spares_openBranch hout hspares₀.sound env name
  obtain ⟨hactive, -⟩ := openBranch_active hS.toRecovers env ws₀ name
  have hvalid : ∀ db : Db S E, (ws₀.openBranch env name).1 = .ok db →
      validateName (S := S) (E := E) name = .ok () := fun db => accepted_of_openBranch
  simp only
  rcases hopened : ws₀.openBranch env name with ⟨e | db, ws₁⟩
  all_goals
    rw [hopened] at hspared hopen hactive hvalid
    have hspares₁ := hspares₀.trans hspared
  · exact hspares₁
  obtain ⟨rfl, hholds, hstands⟩ := hopen db rfl
  simp only
  rcases (runtime env.io : Except (CliError S E) Unit) with e | ⟨⟩
  · exact hspares₁
  have hstanding : Standing E records ws₁ db.name (E.content db.kernel.conn) :=
    standing_of_opened h.listed hspares₁.sound hpos ((hprepare db.name).trans hactive) hresolve
      (hvalid db rfl) hholds.isSome hstands
  obtain ⟨huploading, htoken⟩ := spares_upload hout hspares₁.sound hholds hstanding env dir
    (poolName out.canonicalRoot)
  simp only
  rcases huploaded : ws₁.upload env db dir (poolName out.canonicalRoot) with ⟨e | token, ws₂⟩
  all_goals
    rw [huploaded] at huploading htoken
    have hspares₂ := hspares₁.trans huploading
  · exact hspares₂
  · obtain ⟨hstanding₂, htier⟩ := htoken token rfl
    exact hspares₂.trans
      (spares_fileAway hout hspares₂.sound hstanding₂ htier hleft hwrite)

/-- A wake spares every branch, whichever call of it fails. -/
theorem spares_wake (hout : out.Reliable records) {ws : Workspace S}
    (h : ws.Sound E records pageSize) (env : CliEnv S E) (branch : String) :
    ws.Spares out records pageSize none (ws.wake out env branch).2 := by
  have hS := hout.substrate
  unfold wake
  rcases hrecord : ws.wakeRecord env branch with e | record
  · exact .refl h
  obtain ⟨-, hfile⟩ := wakeRecord_ok hrecord
  have htouched : ws.Spares out records pageSize none (ws.touch [.temp]) :=
    spares_of_aside hout h (fun n => active_touch n ws _) (.refl _)
  simp only
  rcases hfetched : fetch out env branch (ws.stored record) with e | manifest
  · exact htouched
  obtain ⟨rfl, -, conn, hopens⟩ := fetch_ok hfetched
  have hadopting := spares_adopt hout htouched.sound env (ws.stored record)
  have hasleep : ((ws.touch [.temp]).adopt out env (ws.stored record)).2.asleep = ws.asleep :=
    (adopt_active hout.copies env _ _ "").asleep_eq
  have htiers : ((ws.touch [.temp]).adopt out env (ws.stored record)).2.tiers = ws.tiers := by
    unfold adopt
    cases env.io .adopt <;> rfl
  simp only
  rcases hadopted : (ws.touch [.temp]).adopt out env (ws.stored record) with ⟨e | pages, ws₁⟩
  all_goals
    rw [hadopted] at hadopting hasleep htiers
    have hspares₁ := htouched.trans hadopting
  · exact hspares₁
  obtain ⟨hadded, -⟩ := adopt_ok hS hout.copies hout.caches hadopted hopens
  have hsize : (ws.stored record).token.pageSize = pageSize := h.sized hfile
  rw [hsize] at hopens hadded
  have hasleep₁ : ws₁.asleep = ws.asleep := hasleep
  have htiers₁ : ws₁.tiers = ws.tiers := htiers
  have hstored : ws₁.stored record = ws.stored record := by
    simp only [Workspace.stored, htiers₁]
  exact hspares₁.trans (spares_bringBack hout hspares₁.sound (hasleep₁ ▸ hfile)
    (hstored.symm ▸ hopens) hadded env pages)

/-- **What a command does to the ledger**: it makes its entry, and keeps everything else. -/
theorem run_enters (hout : out.Reliable records) (hpos : 0 < pageSize) {ws : Workspace S}
    (h : ws.Sound E records pageSize) {cli : Invocation S E} (horderly : ws.Orderly records cli) :
    Enters out records pageSize ws (ws.run out cli).2 (ws.entry out cli) := by
  obtain ⟨command, branch, env⟩ := cli
  cases command with
  | «import» file table => exact import_enters hout hpos h env branch file table
  | sql query => exact sql_enters hout hpos h env branch query
  | branch name noCheckout => exact fork_enters hout hpos h env branch horderly noCheckout
  | branches => exact .refl h
  | checkout name => exact spares_checkout hout h env name
  | sleep tier => exact spares_sleep hout hpos h branch tier horderly.1 horderly.2
  | wake name => exact spares_wake hout h env name

/-- Whatever others store in the tiers, every branch is spared. -/
theorem spares_onTiers (hout : out.Reliable records) {ws : Workspace S}
    (h : ws.Sound E records pageSize) {tiers : Tiers S} (hgrow : ws.tiers.Grow tiers) :
    ws.Spares out records pageSize none (ws.onTiers tiers) :=
  spares_of_aside hout h (fun n => ⟨.refl n _, rfl, rfl, fun hlisted =>
    hlisted.of_isSome rfl fun _ => rfl⟩) hgrow

/-- A pool in an empty directory is in order. -/
theorem sound_start (hout : out.Reliable records) (root : String) (cas : S.Cas)
    (tiers : Tiers S) : (start root pageSize cas tiers).Sound E records pageSize where
  listed := ⟨List.nodup_nil, fun n => by simp [start]⟩
  pageSize_eq := rfl
  recorded := fun n m hm => absurd hm (hout.logs.freshWal m)
  sized := fun hrecord => by cases hrecord

/-- A branch that is held: it is awake with its content, or it is asleep and a wake that nothing
stops brings it back with that. -/
def Held (out : Outside S E) (ws : Workspace S) (name : String) (content : E.Content) : Prop :=
  (ws.isAsleep name = false ∧ ws.Usable name content) ∨
    ws.isAsleep name = true ∧ ws.Wakeable out name content

/-- A branch that is kept is held, if its name is not read as one of a record. -/
theorem Kept.held (hout : out.Reliable records) (hpos : 0 < pageSize)
    (hnew : NewDatabase S E pageSize) {ws : Workspace S} (h : ws.Sound E records pageSize)
    {name : String} {content : E.Content} (hkept : ws.Kept out name content)
    (hplain : ¬EndsJson name) : ws.Held out name content := by
  have hS := hout.substrate
  rw [← h.pageSize_eq] at hnew
  rcases hkept.has with ⟨hawake, hsome, hstands⟩ | ⟨record, hrecord, htier⟩
  · have hknown : name ∈ branchNames ws.dbs ws.asleep.keys :=
      mem_branchNames_iff.mpr ⟨name, List.mem_append_left _ ((h.listed.mem_iff name).mpr hsome),
        stripJson_of_not hplain⟩
    have hstanding : Standing E records ws name content :=
      ⟨hkept.exists, h.listed, hknown, hawake, hkept.valid, hsome,
        h.pageSize_eq.symm ▸ hpos, hstands, h.recorded name⟩
    exact .inl ⟨hawake, hstanding.usable hS hnew⟩
  · have hasleep : ws.isAsleep name = true := by
      rw [isAsleep, hrecord]
      rfl
    -- Whatever is left of its directory, the head that the log records opens.
    have hdir : ∃ conn : E.Connection,
        HeadOpens ws.pool.cas ws.pool.pageSize (ws.pool.recoveredHead name) conn := by
      rcases hout.logs.recovered ws.pool.pageSize (ws.pool.wal name) with hrecorded | hroot
      · exact h.recorded name _ hrecorded
      · exact hnew.headOpens hS.toContentAddressed hroot ws.pool.cas
    have hfiled : Filed out ws name record content :=
      ⟨hkept.exists, h.listed, ⟨name, stripJson_of_not hplain, .inl rfl⟩, hrecord, hkept.valid,
        htier, hdir⟩
    exact .inr ⟨hasleep, hfiled.wakeable hS hout.positions hout.copies hout.caches hnew⟩

end Workspace

/-- The ledger of each pool, and the pools. -/
abbrev Books (ι : Type) (S : Substrate) (E : Engine) := (ι → BranchLedger E) × Shared ι S

namespace Books

variable {ι : Type} [DecidableEq ι]

/-- A pool with the tiers as they are. -/
def pool (books : Books ι S E) (i : ι) : Workspace S := (books.2.pools i).onTiers books.2.tiers

/-- A command in one of the pools, and its entry. -/
def step (outs : ι → Outside S E) (books : Books ι S E) (input : ι × Invocation S E) :
    (ι × Except (CliError S E) (List String)) × Books ι S E :=
  let (answer, shared) := Shared.step outs books.2 input
  let entry := (books.pool input.1).entry (outs input.1) input.2
  (answer, (Function.update books.1 input.1 ((books.1 input.1).enter entry), shared))

/-- Every pool is in order and keeps its ledger. -/
def Kept (outs : ι → Outside S E) (records : S.Wal → S.ManifestId → Prop) (pageSize : ℕ)
    (books : Books ι S E) : Prop :=
  ∀ i, (books.pool i).Sound E records pageSize ∧
    ∀ n content, books.1 i n = some content → (books.pool i).Kept (outs i) n content

variable {outs : ι → Outside S E} {records : S.Wal → S.ManifestId → Prop} {pageSize : ℕ}

/-- A command in one of the pools leaves every pool keeping its ledger. -/
theorem Kept.step (houts : ∀ i, (outs i).Reliable records) (hpos : 0 < pageSize)
    {books : Books ι S E} (h : books.Kept outs records pageSize) {input : ι × Invocation S E}
    (horderly : (books.pool input.1).Orderly records input.2) :
    (Books.step outs books input).2.Kept outs records pageSize := by
  obtain ⟨j, cli⟩ := input
  obtain ⟨hsound, hledger⟩ := h j
  have henters := Workspace.run_enters (houts j) hpos hsound horderly
  obtain ⟨but, hspares⟩ := henters.spares
  intro i
  by_cases hi : i = j
  · subst hi
    have hpool : (Books.step outs books (i, cli)).2.pool i =
        ((books.pool i).run (outs i) cli).2 := by
      change (Function.update books.2.pools i ((books.pool i).run (outs i) cli).2 i).onTiers
        ((books.pool i).run (outs i) cli).2.tiers = _
      rw [Function.update_self, Workspace.onTiers_self]
    have hentry : (Books.step outs books (i, cli)).2.1 i =
        (books.1 i).enter ((books.pool i).entry (outs i) cli) := Function.update_self _ _ _
    rw [hpool, hentry]
    exact ⟨hspares.sound, henters.kept hledger⟩
  · have hpool : (Books.step outs books (j, cli)).2.pool i =
        (books.pool i).onTiers ((books.pool j).run (outs j) cli).2.tiers := by
      change (Function.update books.2.pools j _ i).onTiers _ = _
      rw [Function.update_of_ne hi]
      rfl
    have hentry : (Books.step outs books (j, cli)).2.1 i = books.1 i :=
      Function.update_of_ne hi _ _
    obtain ⟨hsound', hledger'⟩ := h i
    have hspared := Workspace.spares_onTiers (houts i) hsound' hspares.grow
    rw [hpool, hentry]
    exact ⟨hspared.sound, fun n content hn => hspared.keeps (hledger' n content hn)⟩

/-- **The command line keeps its ledgers.** Any number of pools start in empty directories and
share their tiers, two under one name or not. After any run of commands in any of them, each with
any failures, the pools hold every branch of their ledgers with its content. Three things are left
out: runs in which a new branch was named as one that is asleep, runs in which a sleep died in the
write of its record, and branches whose names end in `.json`, which are listed under another name.
A removal of a directory that is cut off leaves a part of its log. -/
theorem held_of_run (houts : ∀ i, (outs i).Reliable records) (hpos : 0 < pageSize)
    (hnew : NewDatabase S E pageSize) {shared : Shared ι S}
    (hstart : ∀ i, ∃ root cas tiers, shared.pools i = .start root pageSize cas tiers)
    {inputs : List (ι × Invocation S E)}
    (horderly : Runs.Along (Books.step outs)
      (fun books input => (books.pool input.1).Orderly records input.2)
      ((fun _ _ => none, shared) : Books ι S E) inputs)
    (i : ι) {n : String} (hplain : ¬EndsJson n) {content : E.Content}
    (hn : (Runs.run (Books.step outs) (fun _ _ => none, shared) inputs).2.1 i n = some content) :
    ((Runs.run (Books.step outs) ((fun _ _ => none, shared) : Books ι S E) inputs).2.pool i).Held
      (outs i) n content := by
  have hempty : Kept outs records pageSize ((fun _ _ => none, shared) : Books ι S E) := by
    intro i
    obtain ⟨root, cas, tiers, hpool⟩ := hstart i
    refine ⟨?_, fun n content hnone => by cases hnone⟩
    change ((shared.pools i).onTiers shared.tiers).Sound E records pageSize
    rw [hpool]
    exact Workspace.sound_start (houts i) root cas shared.tiers
  have hkept := @Runs.run_invariant_along _ _ _ (Books.step outs) (Kept outs records pageSize) _
    (fun _ _ horderly h => h.step houts hpos horderly) _ _ horderly hempty
  obtain ⟨hsound, hledger⟩ := hkept i
  exact (hledger n content hn).held (houts i) hpos hnew hsound hplain

end Books

namespace Memory

/-- The code outside of the repository in memory is reliable, whatever the pool's path. -/
theorem reliable_twoProjects (first : Bool) : (twoProjects first).Reliable records where
  substrate := laws []
  positions := positions []
  engine := memoryEngine_laws
  reopens := memoryEngine_reopens
  logs := memory_records
  marks := by
    intro _ _ _ _ hm
    exact .inr (Option.some.inj hm).symm
  copies := ⟨outside_copies.grows, outside_copies.adds⟩
  caches := ⟨outside_caches.resolve, outside_caches.manifest, outside_caches.read⟩
  fetches := ⟨outside_fetches.resolves, outside_fetches.get⟩
  accumulates := fun _ hmanifests hpages =>
    grows hpages (List.map_subset Prod.fst hmanifests)

/-- Two projects under one name in one tier: each imports, the first forks its branch and puts
both to sleep, the second puts its own to sleep beside them. -/
def sharedTier : List (Bool × Invocation (memory []) memoryEngine) :=
  [(true, importTrades none), (false, importTrades none),
    (true, ⟨.branch "dev" true, none, cliEnv⟩), (true, ⟨.sleep (some "/cold"), none, cliEnv⟩),
    (false, ⟨.sleep (some "/cold"), none, cliEnv⟩),
    (true, ⟨.sleep (some "/cold"), some "dev", cliEnv⟩)]

end Memory

/-- A branch that was forked and put to sleep is held with the content of its parent. -/
theorem Books.held_of_run_forked :
    ((Runs.run (Books.step Memory.twoProjects)
      ((fun _ _ => none, Memory.emptyProjects) : Books Bool (memory []) memoryEngine)
        Memory.sharedTier).2.pool true).Held (Memory.twoProjects true) "dev"
          ([64, 66, 29] : Bytes) := by
  have horderly : Runs.Along (Books.step Memory.twoProjects)
      (fun books input => (books.pool input.1).Orderly Memory.records input.2)
      ((fun _ _ => none, Memory.emptyProjects) : Books Bool (memory []) memoryEngine)
        Memory.sharedTier :=
    ⟨trivial, trivial, rfl, ⟨fun _ _ h => h, rfl⟩, ⟨fun _ _ h => h, rfl⟩,
      ⟨fun _ _ h => h, rfl⟩, trivial⟩
  refine held_of_run Memory.reliable_twoProjects (by decide : 0 < 4) (Memory.newDatabase 4)
    (fun _ => ⟨_, _, _, rfl⟩) horderly true ?_ rfl
  rintro ⟨stem, hstem⟩
  have hchars := congrArg (fun name => name.toList.getLast?) hstem
  rw [Workspace.toList_sleepRecordFile] at hchars
  simp at hchars

end FlockDb
