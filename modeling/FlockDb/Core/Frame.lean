import FlockDb.Core.Sleep

/-!
# What an operation leaves alone

Pages and manifests are shared and only ever added; everything else in a pool belongs to
one database. Each operation is shown to move the pool in no other way: the shared store
grows, and only the directory of the operation's own database changes.
-/

namespace FlockDb

variable {S : Substrate} {E : Engine}

namespace Pool

/-- A pool that went on in the hands of one database: the shared store grew, and no other
database's directory changed. -/
structure Beside (name : String) (pool pool' : Pool S) : Prop where
  pageSize_eq : pool'.pageSize = pool.pageSize
  grows : S.Grows pool.cas pool'.cas
  dbs_eq : ∀ n, n ≠ name → pool'.dbs n = pool.dbs n
  isSome : (pool.dbs name).isSome → (pool'.dbs name).isSome

/-- A pool that nothing happened to. -/
theorem Beside.refl (name : String) (pool : Pool S) : pool.Beside name pool :=
  ⟨rfl, .refl _, fun _ _ => rfl, id⟩

/-- Going on in the hands of one database composes. -/
theorem Beside.trans {name : String} {pool pool' pool'' : Pool S} (h : pool.Beside name pool')
    (h' : pool'.Beside name pool'') : pool.Beside name pool'' :=
  ⟨h'.pageSize_eq.trans h.pageSize_eq, h.grows.trans h'.grows,
    fun n hn => (h'.dbs_eq n hn).trans (h.dbs_eq n hn), h'.isSome ∘ h.isSome⟩

/-- A database that exists still does, whosever hands the pool was in. -/
theorem Beside.isSome_of {name n : String} {pool pool' : Pool S} (h : pool.Beside name pool')
    (hn : (pool.dbs n).isSome) : (pool'.dbs n).isSome := by
  by_cases heq : n = name
  · subst heq
    exact h.isSome hn
  · rwa [h.dbs_eq n heq]

/-- A database's directory after a change is the changed directory. -/
theorem updateDir_dbs (pool : Pool S) (name : String) (f : DbDir S → DbDir S) :
    (pool.updateDir name f).dbs name = (pool.dbs name).map f := Function.update_self _ _ _

/-- Changing a database's directory. -/
theorem beside_updateDir (pool : Pool S) (name : String) (f : DbDir S → DbDir S) :
    pool.Beside name (pool.updateDir name f) := by
  refine ⟨rfl, .refl _, fun _ hn => Function.update_of_ne hn _ _, fun hname => ?_⟩
  rw [updateDir_dbs, Option.isSome_map]
  exact hname

/-- Keeping what a store of a database left. -/
theorem beside_keep (pool : Pool S) (name : String) {store : DurableStore S}
    (hgrows : S.Grows pool.cas store.pager.cas) : pool.Beside name (pool.keep name store) := by
  have hmoved : pool.Beside name { pool with cas := store.pager.cas } :=
    ⟨rfl, hgrows, fun _ _ => rfl, id⟩
  exact hmoved.trans (beside_updateDir _ name _)

/-- The directory that creating a database's directory leaves: the one there was, if any. -/
theorem createDb_dbs (pool : Pool S) (name : String) :
    (pool.createDb name).dbs name = some ((pool.dbs name).getD ⟨fun _ => false, none⟩) :=
  Function.update_self _ _ _

/-- Creating a database's directory. -/
theorem beside_createDb (pool : Pool S) (name : String) :
    pool.Beside name (pool.createDb name) ∧ ((pool.createDb name).dbs name).isSome := by
  have hsome : ((pool.createDb name).dbs name).isSome := by
    rw [createDb_dbs]
    rfl
  exact ⟨⟨rfl, .refl _, fun _ hn => Function.update_of_ne hn _ _, fun _ => hsome⟩, hsome⟩

/-- Linking a database's directory. -/
theorem beside_linkSubs (faults : PoolFaults) (name : String) (subs : List CasSub)
    (pool : Pool S) :
    pool.Beside name (linkSubs (E := E) faults name subs pool).2 := by
  induction subs generalizing pool with
  | nil => exact .refl name pool
  | cons sub subs ih =>
    rw [linkSubs]
    cases faults (.inspect sub) with
    | some source => exact .refl name pool
    | none =>
      simp only
      by_cases hlinked : ((pool.dbs name).map fun dir => dir.linked sub) = some true
      · rw [if_pos hlinked]
        exact ih pool
      · rw [if_neg hlinked]
        cases faults (.link sub) with
        | some source => exact .refl name pool
        | none => exact (beside_updateDir pool name _).trans (ih _)

/-- Linking a database to the shared store; if that goes through, the database exists. -/
theorem beside_linkDbToSharedCas (faults : PoolFaults) (pool : Pool S) (name : String) :
    pool.Beside name (pool.linkDbToSharedCas (E := E) faults name).2 ∧
      ((pool.linkDbToSharedCas (E := E) faults name).1 = .ok () →
        ((pool.linkDbToSharedCas (E := E) faults name).2.dbs name).isSome) := by
  rw [linkDbToSharedCas]
  cases (createShared (E := E) faults pool [.pages, .manifests]) with
  | error e => exact ⟨.refl name pool, fun hok => by cases hok⟩
  | ok _ =>
    simp only
    cases faults .createDb with
    | some source => exact ⟨.refl name pool, fun hok => by cases hok⟩
    | none =>
      obtain ⟨hcreate, hsome⟩ := beside_createDb pool name
      have hlink := beside_linkSubs (E := E) faults name [.pages, .manifests] (pool.createDb name)
      exact ⟨hcreate.trans hlink, fun _ => hlink.isSome hsome⟩

/-- Opening a database's durable store. -/
theorem beside_openDurable (faults : Faults S) (pool : Pool S) (name : String) :
    pool.Beside name (pool.openDurable faults name).2 := by
  rw [openDurable]
  cases faults .open with
  | some e => exact .refl name pool
  | none =>
    simp only
    cases S.emptyRoot pool.pageSize with
    | error e => exact .refl name pool
    | ok root => exact beside_updateDir pool name _

/-- Replaying a database's log. -/
theorem beside_recover (hS : S.Recovers) (faults : Faults S) (pool : Pool S) (name : String)
    (head : S.ManifestId) : pool.Beside name (pool.recover faults name head).2 := by
  rw [recover]
  cases faults .recover with
  | some e => exact .refl name pool
  | none =>
    obtain ⟨-, -, -, hgrows⟩ := DurableStore.recover_spec hS (pool.durable name head)
    exact beside_keep pool name hgrows

end Pool

/-- Opening the store of a database; if that goes through, the database exists. -/
theorem beside_openStore (hS : S.Recovers) (env : Env S E) (pool : Pool S)
    (name openOp replayOp : String) :
    pool.Beside name (openStore env pool name openOp replayOp).2 ∧
      ∀ head, (openStore env pool name openOp replayOp).1 = .ok head →
        ((openStore env pool name openOp replayOp).2.dbs name).isSome := by
  obtain ⟨hlink, hsome⟩ := Pool.beside_linkDbToSharedCas (E := E) env.pool pool name
  rw [openStore]
  rcases hlinked : pool.linkDbToSharedCas (E := E) env.pool name with ⟨e | ⟨⟩, pool₁⟩
  · rw [hlinked] at hlink
    exact ⟨hlink, fun head hok => by cases hok⟩
  · rw [hlinked] at hlink hsome
    simp only
    have hopen := Pool.beside_openDurable env.store pool₁ name
    rcases hopened : pool₁.openDurable env.store name with ⟨e | head, pool₂⟩
    · rw [hopened] at hopen
      exact ⟨hlink.trans hopen, fun head hok => by cases hok⟩
    · rw [hopened] at hopen
      simp only
      have hrecover := Pool.beside_recover hS env.store pool₂ name head
      rcases hrecovered : pool₂.recover env.store name head with ⟨e | head', pool₃⟩
      · rw [hrecovered] at hrecover
        exact ⟨hlink.trans (hopen.trans hrecover), fun head hok => by cases hok⟩
      · rw [hrecovered] at hrecover
        exact ⟨hlink.trans (hopen.trans hrecover),
          fun _ _ => hrecover.isSome (hopen.isSome (hsome rfl))⟩

namespace Db

/-- A handle on a database of the pool itself. -/
def Local (db : Db S E) : Prop := ∃ head, db.store = .local head

/-- Opening a database. What it returns is a local handle on a database that exists. -/
theorem beside_openWith (hS : S.Recovers) (env : Env S E) (pool : Pool S) (name : String)
    (opts : KernelOpts) :
    pool.Beside name (Flock.openWith env pool name opts).2 ∧
      ∀ db, (Flock.openWith env pool name opts).1 = .ok db →
        db.name = name ∧ db.Local ∧ ((Flock.openWith env pool name opts).2.dbs name).isSome := by
  rw [Flock.openWith]
  cases validateName name with
  | error e => exact ⟨.refl name pool, fun db hok => by cases hok⟩
  | ok _ =>
    simp only
    obtain ⟨hopen, hsome⟩ :=
      beside_openStore hS env pool name "open the durable store" "replay the log"
    rcases hopened : openStore env pool name "open the durable store" "replay the log" with
      ⟨e | head, pool₁⟩
    · rw [hopened] at hopen
      exact ⟨hopen, fun db hok => by cases hok⟩
    · rw [hopened] at hopen hsome
      simp only
      cases Store.openKernel env pool₁ name opts (.local head) with
      | error source => exact ⟨hopen, fun db hok => by cases hok⟩
      | ok kernel =>
        refine ⟨hopen, fun db hok => ?_⟩
        cases hok
        exact ⟨rfl, ⟨head, rfl⟩, hsome head rfl⟩

/-- A kernel's checkpoint over a database of the pool. -/
theorem checkpoint_onward (hS : S.Laws) (env : Env S E) (kernel : DuckDbKernel E)
    (store : DurableStore S) :
    store.Onward (kernel.checkpoint (durableHandle env.store env.nowMs) env.kernel store).2.2 :=
  DuckDbKernel.checkpoint_related (fun _ => ⟨.refl _, rfl⟩) (fun h h' => h.trans h')
    (durableHandle_write_onward hS.toStages env.store env.nowMs)
    (durableHandle_commit_onward hS.toCommits env.store env.nowMs) kernel env.kernel store

/-- A snapshot of a database. -/
theorem beside_snapshot (hS : S.Laws) (env : Env S E) (db : Db S E) (pool : Pool S) :
    pool.Beside db.name (db.snapshot env pool).2.2 ∧
      (db.snapshot env pool).2.1.name = db.name ∧
      (db.Local → (db.snapshot env pool).2.1.Local) := by
  rw [snapshot]
  cases hstore : db.store with
  | «local» head =>
    simp only
    have honward := checkpoint_onward hS env db.kernel (pool.durable db.name head)
    rcases hcheckpoint : db.kernel.checkpoint (durableHandle env.store env.nowMs) env.kernel
        (pool.durable db.name head) with ⟨source | m, kernel, store⟩
    · rw [hcheckpoint] at honward
      exact ⟨Pool.beside_keep pool db.name honward.grows, rfl, fun _ => ⟨_, rfl⟩⟩
    · rw [hcheckpoint] at honward
      exact ⟨Pool.beside_keep pool db.name honward.grows, rfl, fun _ => ⟨_, rfl⟩⟩
  | tiered pager =>
    have hnotLocal : ¬db.Local := by
      rintro ⟨head, hlocal⟩
      rw [hstore] at hlocal
      cases hlocal
    simp only
    rcases db.kernel.checkpoint (tieredHandle env.store env.nowMs) env.kernel pager with
      ⟨source | m, kernel, pager'⟩
    · exact ⟨.refl _ _, rfl, fun h => absurd h hnotLocal⟩
    · exact ⟨.refl _ _, rfl, fun h => absurd h hnotLocal⟩

/-- Positioning a fork. -/
theorem beside_positionFork (env : Env S E) (pool : Pool S) (name : String)
    (root head : S.ManifestId) :
    pool.Beside name (positionFork env pool name root head).2 := by
  simp only [positionFork, Pager.setHeadTo]
  cases env.store.guard .setHeadTo (S.setHeadTo (pool.durable name root).pager.cas head) with
  | error e => exact .refl name pool
  | ok _ =>
    simp only [DurableStore.checkpoint]
    cases env.store .checkpoint with
    | some e => exact Pool.beside_keep pool name (.refl _)
    | none => exact Pool.beside_keep pool name (.refl _)

/-- The rest of a fork moves the pool in the hands of the new database. What it returns is
a handle at the parent's snapshot, on a database that exists. -/
theorem beside_forkFrom (hS : S.Recovers) (env : Env S E) (db : Db S E) (pool : Pool S)
    (name : String) (head : S.ManifestId) :
    pool.Beside name (forkFrom env db pool name head).2 ∧
      ∀ child, (forkFrom env db pool name head).1 = .ok child →
        child.name = name ∧ child.store = .local head ∧
          ((forkFrom env db pool name head).2.dbs name).isSome := by
  obtain ⟨hopen, hsome⟩ := beside_openStore hS env pool name "open the fork's durable store"
    "replay the fork's log"
  rw [forkFrom]
  rcases hopened : openStore env pool name "open the fork's durable store"
      "replay the fork's log" with ⟨e | root, pool₁⟩
  · rw [hopened] at hopen
    exact ⟨hopen, fun child hok => by cases hok⟩
  · rw [hopened] at hopen hsome
    simp only
    have hposition := beside_positionFork env pool₁ name root head
    rcases hpositioned : positionFork env pool₁ name root head with ⟨e | ⟨⟩, pool₂⟩
    · rw [hpositioned] at hposition
      exact ⟨hopen.trans hposition, fun child hok => by cases hok⟩
    · rw [hpositioned] at hposition
      simp only
      cases Store.openKernel env pool₂ name db.opts (.local head) with
      | error source => exact ⟨hopen.trans hposition, fun child hok => by cases hok⟩
      | ok kernel =>
        refine ⟨hopen.trans hposition, fun child hok => ?_⟩
        cases hok
        exact ⟨rfl, rfl, hposition.isSome (hsome root rfl)⟩

/-- What a fork can do: refuse the name, stop at the parent's snapshot, or go on from it. -/
theorem fork_cases (snapshotEnv env : Env S E) (db : Db S E) (pool : Pool S) (name : String) :
    ((∃ e, validateName (S := S) (E := E) name = .error e) ∨ (pool.dbs name).isSome) ∧
        (∃ e, db.fork snapshotEnv env pool name = (.error e, db, pool)) ∨
    validateName (S := S) (E := E) name = .ok () ∧ pool.dbs name = none ∧
      ((∃ e db' pool', db.snapshot snapshotEnv pool = (.error e, db', pool') ∧
          db.fork snapshotEnv env pool name = (.error e, db', pool')) ∨
        ∃ m db' pool', db.snapshot snapshotEnv pool = (.ok m, db', pool') ∧
          db.fork snapshotEnv env pool name =
            ((forkFrom env db' pool' name m).1, db', (forkFrom env db' pool' name m).2)) := by
  rw [fork]
  cases hname : validateName (S := S) (E := E) name with
  | error e => exact .inl ⟨.inl ⟨e, rfl⟩, e, rfl⟩
  | ok _ =>
    simp only
    cases hdir : pool.dbs name with
    | some dir => exact .inl ⟨.inr rfl, _, rfl⟩
    | none =>
      simp only
      refine .inr ⟨trivial, trivial, ?_⟩
      rcases hsnapshot : db.snapshot snapshotEnv pool with ⟨e | m, db', pool'⟩
      · exact .inl ⟨e, db', pool', rfl, rfl⟩
      · exact .inr ⟨m, db', pool', rfl, rfl⟩

/-- Rewinding a database. -/
theorem beside_rewindTo (env : Env S E) (db : Db S E) (pool : Pool S) (m : S.ManifestId) :
    pool.Beside db.name (db.rewindTo env pool m).2.2 ∧
      (db.rewindTo env pool m).2.1.name = db.name ∧
      (db.Local → (db.rewindTo env pool m).2.1.Local) := by
  rw [rewindTo]
  cases hstore : db.store with
  | «local» head =>
    simp only [Pager.rewind]
    cases S.manifest (pool.durable db.name head).pager.cas m with
    | error e => exact ⟨.refl _ _, rfl, id⟩
    | ok edges =>
      simp only
      cases env.store.guard .rewind (S.rewind (pool.durable db.name head).pager.cas m) with
      | error e => exact ⟨.refl _ _, rfl, id⟩
      | ok _ =>
        simp only [DurableStore.checkpoint]
        cases env.store .checkpoint with
        | some e => exact ⟨Pool.beside_keep pool db.name (.refl _), rfl, fun _ => ⟨_, rfl⟩⟩
        | none => exact ⟨Pool.beside_keep pool db.name (.refl _), rfl, fun _ => ⟨_, rfl⟩⟩
  | tiered pager =>
    have hnotLocal : ¬db.Local := by
      rintro ⟨head, hlocal⟩
      rw [hstore] at hlocal
      cases hlocal
    simp only
    cases S.manifest pager.cas m with
    | error e => exact ⟨.refl _ _, rfl, id⟩
    | ok edges =>
      simp only
      rcases pager.rewind env.store m with ⟨e | ⟨⟩, pager'⟩
      · exact ⟨.refl _ _, rfl, id⟩
      · exact ⟨.refl _ _, rfl, fun h => absurd h hnotLocal⟩

/-- Restoring a database. -/
theorem beside_restore (env : Env S E) (db : Db S E) (pool : Pool S) (m : S.ManifestId) :
    pool.Beside db.name (db.restore env pool m).2.2 ∧
      (db.restore env pool m).2.1.name = db.name ∧
      (db.Local → (db.restore env pool m).2.1.Local) := by
  have hrewind := beside_rewindTo env db pool m
  rw [restore]
  rcases hresult : db.rewindTo env pool m with ⟨e | ⟨⟩, db', pool'⟩
  · rw [hresult] at hrewind
    exact hrewind
  · rw [hresult] at hrewind
    simp only
    cases db'.store.openKernel env pool' db'.name db'.opts with
    | error source => exact hrewind
    | ok kernel => exact hrewind

/-- Putting a database to sleep. -/
theorem beside_sleep (hS : S.Laws) (env : Env S E) (faults : SleepFaults S) (fuel : ℕ)
    (db : Db S E) (pool : Pool S) (remotePool : String) :
    pool.Beside db.name (db.sleep env faults fuel pool remotePool).2 := by
  obtain ⟨hsnapshot, -, -⟩ := beside_snapshot hS env db pool
  rw [sleep]
  rcases hresult : db.snapshot env pool with ⟨e | head, db', pool'⟩
  · rw [hresult] at hsnapshot
    exact hsnapshot
  · rw [hresult] at hsnapshot
    simp only
    cases db'.store with
    | «local» head' => exact hsnapshot
    | tiered pager => exact hsnapshot

/-- A handle is opened with the options that it was asked for. -/
theorem openWith_opts {env : Env S E} {pool pool' : Pool S} {name : String} {opts : KernelOpts}
    {db : Db S E} (h : Flock.openWith env pool name opts = (.ok db, pool')) : db.opts = opts := by
  rw [Flock.openWith] at h
  cases hname : validateName (S := S) (E := E) name with
  | error e =>
    rw [hname] at h
    cases h
  | ok _ =>
    rw [hname] at h
    simp only at h
    rcases hopened : openStore (E := E) env pool name "open the durable store" "replay the log" with
      ⟨e | head, pool₁⟩
    all_goals rw [hopened] at h
    · cases h
    · simp only at h
      cases hkernel : Store.openKernel env pool₁ name opts (.local head) with
      | error source =>
        rw [hkernel] at h
        cases h
      | ok kernel =>
        rw [hkernel] at h
        cases h
        rfl

/-- A query leaves the options of its handle. -/
theorem query_opts (db : Db S E) (sql : String) : (db.query sql).2.opts = db.opts := by
  rw [query]
  rcases (db.kernel.query sql : Except (KernelError S E.Error) E.Batches × DuckDbKernel E) with
    ⟨e | batches, kernel⟩ <;> rfl

/-- A snapshot leaves the options of its handle. -/
theorem snapshot_opts (env : Env S E) (db : Db S E) (pool : Pool S) :
    (db.snapshot env pool).2.1.opts = db.opts := by
  rw [snapshot]
  cases db.store with
  | «local» head =>
    simp only
    rcases db.kernel.checkpoint (durableHandle env.store env.nowMs) env.kernel
      (pool.durable db.name head) with ⟨source | m, kernel, store⟩ <;> rfl
  | tiered pager =>
    simp only
    rcases db.kernel.checkpoint (tieredHandle env.store env.nowMs) env.kernel pager with
      ⟨source | m, kernel, pager'⟩ <;> rfl

/-- A fork is opened with the options of its parent. -/
theorem forkFrom_opts {env : Env S E} {db child : Db S E} {pool : Pool S} {name : String}
    {head : S.ManifestId} (h : (forkFrom env db pool name head).1 = .ok child) :
    child.opts = db.opts := by
  rw [forkFrom] at h
  rcases hopened : openStore (E := E) env pool name "open the fork's durable store"
      "replay the fork's log" with ⟨e | root, pool₁⟩
  all_goals rw [hopened] at h
  · cases h
  simp only at h
  rcases hpositioned : positionFork (E := E) env pool₁ name root head with ⟨e | ⟨⟩, pool₂⟩
  all_goals rw [hpositioned] at h
  · cases h
  simp only at h
  cases hkernel : Store.openKernel env pool₂ name db.opts (.local head) with
  | error source =>
    rw [hkernel] at h
    cases h
  | ok kernel =>
    rw [hkernel] at h
    obtain rfl := Except.ok.inj h
    rfl

/-- A restore leaves the options of its handle. -/
theorem restore_opts (env : Env S E) (db : Db S E) (pool : Pool S) (m : S.ManifestId) :
    (db.restore env pool m).2.1.opts = db.opts := by
  have hrewind : (db.rewindTo env pool m).2.1.opts = db.opts := by
    rw [rewindTo]
    cases db.store with
    | «local» head =>
      simp only
      cases S.manifest (pool.durable db.name head).pager.cas m with
      | error e => rfl
      | ok edges =>
        simp only
        rcases (pool.durable db.name head).pager.rewind env.store m with ⟨e | ⟨⟩, pager⟩
        · rfl
        · simp only [DurableStore.checkpoint]
          cases env.store .checkpoint <;> rfl
    | tiered pager =>
      simp only
      cases S.manifest pager.cas m with
      | error e => rfl
      | ok edges =>
        simp only
        rcases pager.rewind env.store m with ⟨e | ⟨⟩, pager'⟩ <;> rfl
  rw [restore]
  rcases hresult : db.rewindTo env pool m with ⟨e | ⟨⟩, db', pool'⟩
  all_goals rw [hresult] at hrewind
  · exact hrewind
  · simp only
    cases db'.store.openKernel env pool' db'.name db'.opts <;> exact hrewind

end Db

end FlockDb
